import LeadQueue.Guarantees.FairBatch
import LeadQueue.Guarantees.Reclaim
import LeadQueue.Queue.Selection

/-!
# When a worker finds nothing to take

The ranking does not know about locks: a row that another transaction holds
still has its place in the window and its number in the origin. A call comes
back empty although work is due when every row in reach is locked.
-/

namespace LeadQueue

open Relational

/-- Due work that no other transaction holds. -/
def WorkWaits (call : ClaimCall) (db : Database) : Prop :=
  ∃ d ∈ db.deliveries.rows, d.due call.now = true ∧ call.locked d.id = false

/-- Some of it lies within the window, and within the cap of its origin. -/
def WorkInReach (settings : Settings) (call : ClaimCall) : Prop :=
  ∃ d ∈ call.scan.take (call.window settings),
    rowNumber call.scan d ≤ settings.maxClaimsPerOrigin ∧ call.locked d.id = false

/-- The ids a call comes to first: its order without the locked ones, up to the
limit. -/
def ClaimCall.firstFree (call : ClaimCall) : List DeliveryId :=
  ((call.order.map RankedRow.id).filter fun id => !call.locked id).take call.limit

/-- The lease is in range, and so are the ages of the lost attempts among the
rows the call comes to first. -/
def BatchInRange (settings : Settings) (call : ClaimCall) (db : Database) : Prop :=
  (∃ lease, timedelta settings.leaseSeconds = .ok lease) ∧
    ∀ d ∈ db.deliveries.rows, d.id ∈ call.firstFree → reclaimed d = true →
      call.now - d.lastAttemptAt.getD call.now < maxLostAge

/-- The call hands out a delivery. -/
def ReturnsWork (settings : Settings) (call : ClaimCall) (db : Database) : Prop :=
  ∃ db' claimed, claimBatch settings call db = .ok (db', claimed) ∧ claimed ≠ []

section Call

variable {settings : Settings} {call : ClaimCall} {db : Database}

theorem picked_ne_nil_iff (h : call.Valid settings) (hlatest : call.snapshot = db.deliveries)
    (hlimit : 0 < call.limit) : picked call db ≠ [] ↔ WorkInReach settings call := by
  rw [picked_eq_take, Ne, List.take_eq_nil_iff, not_or, and_iff_right hlimit.ne']
  constructor
  · intro hne
    obtain ⟨d, hd⟩ := List.exists_mem_of_ne_nil _ hne
    obtain ⟨heligible, hfree⟩ := (mem_candidates h hlatest).mp hd
    obtain ⟨hwindow, hcap⟩ := mem_eligible.mp heligible
    exact ⟨d, hwindow, hcap, hfree⟩
  · rintro ⟨d, hwindow, hcap, hfree⟩
    apply List.ne_nil_of_mem
    exact (mem_candidates h hlatest).mpr ⟨mem_eligible.mpr ⟨hwindow, hcap⟩, hfree⟩

theorem mem_picked_iff (h : call.Valid settings) (hlatest : call.snapshot = db.deliveries)
    {d : Delivery} : d ∈ picked call db ↔ d ∈ db.deliveries.rows ∧ d.id ∈ call.firstFree := by
  have hids : (picked call db).map Delivery.id = call.firstFree := by
    rw [picked_eq_take, List.map_take, map_id_candidates h hlatest]
    rfl
  rw [← hids, List.mem_map]
  constructor
  · intro hd
    exact ⟨Table.mem_of_get? (mem_picked hd).1, d, hd, rfl⟩
  · rintro ⟨hrow, e, he, hid⟩
    obtain rfl : e = d := Table.eq_of_key_eq (Table.mem_of_get? (mem_picked he).1) hrow hid
    exact he

theorem returnsWork_iff_inReach (h : call.Valid settings)
    (hlatest : call.snapshot = db.deliveries) (hlead : db.Referenced) (hlimit : 0 < call.limit) :
    ReturnsWork settings call db ↔ WorkInReach settings call ∧ BatchInRange settings call db := by
  have hprev : (claimedRows call db).map ClaimedRow.prev = picked call db :=
    map_prev_claimedRows fun p hp => hlead p (Table.mem_of_get? (mem_picked hp).1)
  have hnil : picked call db ≠ [] ↔ (claimedRows call db).map toClaimed ≠ [] := by
    rw [← hprev, Ne, Ne, List.map_eq_nil_iff, List.map_eq_nil_iff]
  rw [← picked_ne_nil_iff h hlatest hlimit, hnil]
  constructor
  · rintro ⟨db', claimed, hclaim, hne⟩
    obtain ⟨lost, hspec⟩ := claimBatch_spec hclaim
    refine ⟨hspec.returned ▸ hne, timedelta_of_claimBatch hclaim hne, fun d hd hfirst hrec => ?_⟩
    have hpicked := (mem_picked_iff h hlatest).mpr ⟨hd, hfirst⟩
    apply lostAttempt_fits_iff.mp
    refine Fallible.mapM_isOk_iff.mp ⟨lost, hspec.lost_entries⟩ d ?_
    exact List.mem_filter.mpr ⟨hprev ▸ hpicked, hrec⟩
  · rintro ⟨hne, ⟨lease, hlease⟩, hages⟩
    have hlost : ∀ row ∈ claimedRows call db, reclaimed row.prev = true →
        ∃ a, lostAttempt call.workerId call.now row.prev = .ok a := by
      intro row hrow hrec
      have hpicked : row.prev ∈ picked call db := hprev ▸ List.mem_map.mpr ⟨row, hrow, rfl⟩
      obtain ⟨hd, hfirst⟩ := (mem_picked_iff h hlatest).mp hpicked
      exact lostAttempt_fits_iff.mpr (hages row.prev hd hfirst hrec)
    obtain ⟨db', hclaim⟩ := claimBatch_of_lost hlease hlost
    exact ⟨db', _, hclaim, hne⟩

end Call

/-- While unlocked work is due, a call returns some of it exactly when some of
it is in reach and the batch is in range. -/
theorem due_work_taken_iff {settings : Settings} {call : ClaimCall} {db : Database}
    (h : call.Valid settings) (hlatest : call.snapshot = db.deliveries) (hlead : db.Referenced)
    (hlimit : 0 < call.limit) :
    (WorkWaits call db → ReturnsWork settings call db) ↔
      (WorkWaits call db → WorkInReach settings call ∧ BatchInRange settings call db) :=
  imp_congr_right fun _ => returnsWork_iff_inReach h hlatest hlead hlimit

namespace Move

/-- A call that meets locks on the rows of `held`. -/
def besides (held : List DeliveryId) (s : Service) : ClaimCall :=
  { ClaimCall.unlocked oneEach workerB 2 s.clock s.db.deliveries with
    locked := fun id => held.contains id }

theorem besides_valid (held : List DeliveryId) (s : Service) : (besides held s).Valid oneEach :=
  let h := ClaimCall.unlocked_valid oneEach workerB 2 s.clock s.db.deliveries
  ⟨h.scan_perm, h.scan_sorted, h.order_perm, h.order_sorted⟩

/-- A lead with two addresses of one host. -/
def oneHost : IntakeRequest :=
  { lead with
    recipients := [⟨.ofString "https://slow.example/1", none, .ofString "https://slow.example"⟩,
      ⟨.ofString "https://slow.example/2", none, .ofString "https://slow.example"⟩] }

theorem oneEach_lease : ∃ lease, timedelta oneEach.leaseSeconds = .ok lease := by
  unfold timedelta
  rw [if_pos (by decide +kernel)]
  exact ⟨_, rfl⟩

end Move

/-- The other host's delivery is taken while the first one is locked. -/
theorem due_work_taken_otherHost :
    ∃ s : Service, ReturnsWork Move.oneEach (Move.besides [Move.first] s) s.db := by
  obtain ⟨s, hs, hp⟩ := exists_reachable_of_moves Move.oneEach [Move.accept 0 Move.twoHosts]
    (fun s => (((Move.besides [Move.first] s).scan.take
        ((Move.besides [Move.first] s).window Move.oneEach)).any fun d =>
      decide (rowNumber (Move.besides [Move.first] s).scan d ≤ Move.oneEach.maxClaimsPerOrigin) &&
        !(Move.besides [Move.first] s).locked d.id) &&
      s.db.deliveries.rows.all fun d => !reclaimed d) (by decide +kernel)
  obtain ⟨hreach, hfresh⟩ := Bool.and_eq_true_iff.mp hp
  obtain ⟨d, hd, hreach⟩ := List.any_eq_true.mp hreach
  obtain ⟨hcap, hfree⟩ := Bool.and_eq_true_iff.mp hreach
  have hvalid := Move.besides_valid [Move.first] s
  have hlocked : (Move.besides [Move.first] s).locked d.id = false := by simpa using hfree
  obtain ⟨hrow, hdue⟩ := (mem_scan hvalid rfl).mp (List.mem_of_mem_take hd)
  refine ⟨s, (due_work_taken_iff hvalid rfl (referenced_of_reachable hs) Nat.two_pos).mpr
    (fun _ => ⟨⟨d, hd, of_decide_eq_true hcap, hlocked⟩, Move.oneEach_lease, ?_⟩)
    ⟨d, hrow, hdue, hlocked⟩⟩
  intro e he _ hrec
  have hno := List.all_eq_true.mp hfresh e he
  rw [hrec] at hno
  cases hno

/-- Of two due deliveries of one host the first is locked; with a cap of one the
second is out of reach. -/
theorem due_work_left_behind_lock :
    ∃ (s : Service) (call : ClaimCall), (service Move.oneEach).Reachable s ∧
      call.Valid Move.oneEach ∧ call.snapshot = s.db.deliveries ∧ 0 < call.limit ∧
      WorkWaits call s.db ∧ ¬ ReturnsWork Move.oneEach call s.db := by
  obtain ⟨s, hs, hp⟩ := exists_reachable_of_moves Move.oneEach [Move.accept 0 Move.oneHost]
    (fun s => ((Move.besides [Move.first] s).scan.all fun d =>
      !decide (rowNumber (Move.besides [Move.first] s).scan d ≤ Move.oneEach.maxClaimsPerOrigin) ||
        (Move.besides [Move.first] s).locked d.id) &&
      s.db.deliveries.rows.any fun d => d.due s.clock && !(Move.besides [Move.first] s).locked d.id)
    (by decide +kernel)
  obtain ⟨hall, hwaits⟩ := Bool.and_eq_true_iff.mp hp
  obtain ⟨d, hd, hwaits⟩ := List.any_eq_true.mp hwaits
  obtain ⟨hdue, hfree⟩ := Bool.and_eq_true_iff.mp hwaits
  have hvalid := Move.besides_valid [Move.first] s
  refine ⟨s, Move.besides [Move.first] s, hs, hvalid, rfl, Nat.two_pos,
    ⟨d, hd, hdue, by simpa using hfree⟩, fun hreturns => ?_⟩
  obtain ⟨⟨e, he, hcap, hlocked⟩, _⟩ :=
    (returnsWork_iff_inReach hvalid rfl (referenced_of_reachable hs) Nat.two_pos).mp hreturns
  have hno := List.all_eq_true.mp hall e (List.mem_of_mem_take he)
  rw [hlocked, decide_eq_true hcap] at hno
  cases hno

end LeadQueue
