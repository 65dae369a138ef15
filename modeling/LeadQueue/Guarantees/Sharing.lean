import LeadQueue.Library.Ranking
import LeadQueue.Life.Invariant
import LeadQueue.Queue.Selection
import LeadQueue.Worker

/-!
# Sharing a worker between recipients

The cap on one origin applies to one batch. A worker whose busy slots all
belong to one origin gives it the free ones too when its deliveries are the
oldest, one small batch after the other.
-/

namespace LeadQueue

open Relational Transition

/-- In a run every delivery has a lead, so a claim hands out all it has picked. -/
theorem claimedRows_prev {settings : Settings} {s : Service}
    (h : (service settings).Reachable s) (call : ClaimCall) :
    (claimedRows call s.db).map ClaimedRow.prev = picked call s.db :=
  map_prev_claimedRows fun _ hp => lead_of_delivery h (mem_picked hp).1

/-- Due, unlocked work of another origin. -/
def OthersWait (call : ClaimCall) (db : Database) (origin : PgText) : Prop :=
  ∃ d ∈ db.deliveries.rows, d.due call.now = true ∧ call.locked d.id = false ∧
    d.recipientOrigin ≠ origin

/-- After the tick one origin has every slot, although another has work due. -/
def Monopolised (settings : Settings) (call : ClaimCall) (w : Worker) : Prop :=
  ∃ origin, w.inFlight.length = settings.workerConcurrency ∧
    (∀ c ∈ w.inFlight, c.delivery.recipientOrigin = origin) ∧
    OthersWait call w.service.db origin

/-- The call can take the delivery: it is due and not locked, and the version of it
in the snapshot is within the window and within the cap of its origin. -/
def InReach (settings : Settings) (call : ClaimCall) (db : Database) (d : Delivery) : Prop :=
  d ∈ db.deliveries.rows ∧ d.due call.now = true ∧ call.locked d.id = false ∧
    ∃ seen ∈ call.scan.take (call.window settings), seen.id = d.id ∧
      rowNumber call.scan seen ≤ settings.maxClaimsPerOrigin

/-- `ORDER BY r.claimable_at`, with equal times as the sort leaves them. -/
def ClaimCall.Before (call : ClaimCall) (d e : Delivery) : Prop :=
  [d.id, e.id].Sublist (call.order.map RankedRow.id)

/-- Before the tick: the busy slots are all one origin's, the free ones fit one
batch, and for each of them there is a delivery of this origin in reach that comes
before all those of other origins, while another origin has work due. -/
def Crowded (settings : Settings) (call : ClaimCall) (w : Worker) : Prop :=
  ∃ origin, (∀ c ∈ w.inFlight, c.delivery.recipientOrigin = origin) ∧
    w.freeSlots settings ≤ settings.workerBatchSize ∧
    (∃ rows : Finset Delivery, rows.card = w.freeSlots settings ∧ ∀ d ∈ rows,
      InReach settings call w.service.db d ∧ d.recipientOrigin = origin ∧
        ∀ e, InReach settings call w.service.db e → e.recipientOrigin ≠ origin →
          call.Before d e) ∧
    OthersWait call w.service.db origin

section Reach

variable {settings : Settings} {call : ClaimCall} {db : Database} {d e : Delivery}

/-- The rows of the call's order are those within the window and the cap. -/
theorem mem_order_iff (h : call.Valid settings) {id : DeliveryId} :
    id ∈ call.order.map RankedRow.id ↔ ∃ seen ∈ call.scan.take (call.window settings),
      seen.id = id ∧ rowNumber call.scan seen ≤ settings.maxClaimsPerOrigin := by
  rw [((order_perm_eligible h).map RankedRow.id).mem_iff, List.map_map, List.mem_map]
  constructor
  · rintro ⟨seen, hseen, rfl⟩
    obtain ⟨hwindow, hcap⟩ := mem_eligible.mp hseen
    exact ⟨seen, hwindow, rfl, hcap⟩
  · rintro ⟨seen, hwindow, rfl, hcap⟩
    exact ⟨seen, mem_eligible.mpr ⟨hwindow, hcap⟩, rfl⟩

theorem mem_candidates_iff (h : call.Valid settings) :
    d ∈ candidates call db ↔ InReach settings call db d := by
  constructor
  · intro hd
    obtain ⟨hget, horder, hfree, hdue⟩ := Table.mem_lockRows hd
    exact ⟨Table.mem_of_get? hget, hdue, hfree, (mem_order_iff h).mp horder⟩
  · rintro ⟨hrow, hdue, hfree, hseen⟩
    refine List.mem_filterMap.mpr ⟨d.id, (mem_order_iff h).mpr hseen, ?_⟩
    rw [hfree, Table.get?_of_mem hrow, Option.filter_some, if_pos hdue]
    rfl

/-- The first candidates, as many as `n`, are all of one origin. -/
theorem first_candidates_iff (h : call.Valid settings) (origin : PgText) (n : ℕ) :
    (n ≤ (candidates call db).length ∧
      ∀ d ∈ (candidates call db).take n, d.recipientOrigin = origin) ↔
      ∃ rows : Finset Delivery, rows.card = n ∧ ∀ d ∈ rows,
        InReach settings call db d ∧ d.recipientOrigin = origin ∧
          ∀ e, InReach settings call db e → e.recipientOrigin ≠ origin → call.Before d e := by
  have hsub : ((candidates call db).map Delivery.id).Sublist (call.order.map RankedRow.id) :=
    Table.lockRows_keys_sublist _ _ _ _ _
  rw [Ranking.forall_take_iff (h.order_nodup.sublist hsub).of_map]
  refine exists_congr fun rows => and_congr_right fun _ => forall₂_congr fun d _ => ?_
  rw [← mem_candidates_iff h]
  refine and_congr_right fun hd => and_congr_right fun hone => forall_congr' fun e => ?_
  rw [← mem_candidates_iff h]
  refine forall₂_congr fun he hother => Ranking.pair_sublist_iff hsub h.order_nodup hd he ?_
  rintro rfl
  exact hother hone

end Reach

section Tick

variable {settings : Settings} {workerId : WorkerId} {w w' : Worker} {call : ClaimCall}

/-- The origins of the claims a tick spawns. -/
theorem forall_spawned_iff (h : (worker settings workerId).Reachable w) (origin : PgText) :
    (∀ c ∈ newClaims settings call ((claimedRows call w.service.db).map toClaimed),
      c.delivery.recipientOrigin = origin) ↔
      ∀ d ∈ picked call w.service.db, d.recipientOrigin = origin := by
  rw [← claimedRows_prev (service_of_worker h)]
  simp [newClaims, toClaimed]

/-- Every slot is taken exactly when the batch fills the free ones. -/
theorem full_iff (hfree : 0 < w.freeSlots settings) (hlimit : call.limit = w.tickLimit settings)
    {spawned : List Claim} (hlength : spawned.length = (picked call w.service.db).length) :
    (w.inFlight ++ spawned).length = settings.workerConcurrency ↔
      w.freeSlots settings ≤ settings.workerBatchSize ∧
        w.freeSlots settings ≤ (candidates call w.service.db).length := by
  rw [List.length_append, hlength, picked_eq_take, List.length_take, hlimit]
  unfold Worker.tickLimit Worker.freeSlots at *
  omega

/-- What waits after a batch of one origin waited before it. -/
theorem othersWait_iff {db db' : Database} {claimed : List ClaimedDelivery} {lost : List Attempt}
    {origin : PgText} (hspec : Claimed settings call db db' claimed lost)
    (hone : ∀ row ∈ claimedRows call db, row.prev.recipientOrigin = origin) :
    OthersWait call db' origin ↔ OthersWait call db origin := by
  constructor
  · rintro ⟨d, hd, hdue, hlocked, hne⟩
    have hget := hspec.deliveries d.id
    rw [Table.get?_of_mem hd] at hget
    obtain ⟨old, hold, heq⟩ := Option.map_eq_some_iff.mp hget.symm
    split at heq
    · -- a claimed row is one of the batch's origin
      rename_i hmem
      obtain ⟨row, hrow, hid⟩ := List.mem_map.mp hmem
      have hprev := (mem_picked (mem_claimedRows.mp hrow).1).1
      have hkey : old.id = d.id := Table.key_of_get? hold
      obtain rfl : row.prev = old := Option.some.inj (hprev.symm.trans (hid ▸ hkey ▸ hold))
      exact absurd (heq ▸ hone row hrow) hne
    · rw [heq] at hold
      exact ⟨d, Table.mem_of_get? hold, hdue, hlocked, hne⟩
  · rintro ⟨d, hd, hdue, hlocked, hne⟩
    refine ⟨d, ?_, hdue, hlocked, hne⟩
    have hget := hspec.deliveries d.id
    rw [Table.get?_of_mem hd, Option.map_some, if_neg] at hget
    · exact Table.mem_of_get? hget
    · intro hmem
      obtain ⟨row, hrow, hid⟩ := List.mem_map.mp hmem
      have hprev := (mem_picked (mem_claimedRows.mp hrow).1).1
      obtain rfl : row.prev = d :=
        Option.some.inj (hprev.symm.trans (hid ▸ Table.get?_of_mem hd))
      exact hne (hone row hrow)

/-- In every run of the loop a tick leaves the worker shared exactly when the
worker was not crowded before it. -/
theorem tick_shares_iff (h : (worker settings workerId).Reachable w)
    (hstep : Worker.step settings workerId w (.tick call) = some w') :
    ¬ Monopolised settings call w' ↔ ¬ Crowded settings call w := by
  obtain ⟨hfree, hlimit, hvalid, lost, hspec, hslots⟩ := Worker.step_tick hstep
  have hprev := claimedRows_prev (service_of_worker h) call
  have hlength : (newClaims settings call ((claimedRows call w.service.db).map toClaimed)).length =
      (picked call w.service.db).length := by
    rw [← hprev]
    simp [newClaims]
  have hfull := full_iff hfree hlimit hlength
  rw [← hslots] at hfull
  -- the batch, once the free slots are known to fit it
  have hbatch : w.freeSlots settings ≤ settings.workerBatchSize →
      picked call w.service.db =
        (candidates call w.service.db).take (w.freeSlots settings) := fun hle => by
    rw [picked_eq_take, hlimit, Worker.tickLimit, min_eq_left hle]
  have hone : ∀ origin, (∀ d ∈ picked call w.service.db, d.recipientOrigin = origin) →
      ∀ row ∈ claimedRows call w.service.db, row.prev.recipientOrigin = origin :=
    fun origin hpicked row hrow => hpicked _ (hprev ▸ List.mem_map.mpr ⟨row, hrow, rfl⟩)
  refine not_congr ⟨?_, ?_⟩
  · rintro ⟨origin, hcount, hall, hwait⟩
    obtain ⟨hle, hmany⟩ := hfull.mp hcount
    rw [hslots, List.forall_mem_append] at hall
    have hpicked := (forall_spawned_iff h origin).mp hall.2
    exact ⟨origin, hall.1, hle, (first_candidates_iff hvalid origin _).mp
      ⟨hmany, hbatch hle ▸ hpicked⟩, (othersWait_iff hspec (hone origin hpicked)).mp hwait⟩
  · rintro ⟨origin, hbusy, hle, hrows, hwait⟩
    obtain ⟨hmany, hnext⟩ := (first_candidates_iff hvalid origin _).mpr hrows
    have hpicked : ∀ d ∈ picked call w.service.db, d.recipientOrigin = origin := hbatch hle ▸ hnext
    refine ⟨origin, hfull.mpr ⟨hle, hmany⟩, ?_,
      (othersWait_iff hspec (hone origin hpicked)).mpr hwait⟩
    rw [hslots, List.forall_mem_append]
    exact ⟨hbusy, (forall_spawned_iff h origin).mpr hpicked⟩

end Tick

namespace Sharing

/-- Two slots, one claim of an origin in a batch. -/
def twoSlots : Settings :=
  { Settings.default with
    workerConcurrency := 2
    workerBatchSize := 2
    maxClaimsPerOrigin := 1
    workerConcurrency_pos := Nat.two_pos
    workerBatchSize_pos := Nat.two_pos
    maxClaimsPerOrigin_pos := Nat.one_pos }

/-- A lead with two addresses of one host. -/
def slowLead : IntakeRequest :=
  { Move.lead with
    recipients := [⟨.ofString "https://slow.example/1", none, .ofString "https://slow.example"⟩,
      ⟨.ofString "https://slow.example/2", none, .ofString "https://slow.example"⟩] }

/-- A later lead for another host. -/
def quickLead : IntakeRequest :=
  { Move.lead with
    idempotencyKey := .ofString "8"
    recipients := [⟨.ofString "https://quick.example/", none, .ofString "https://quick.example"⟩] }

def slow : PyStr := .ofString "https://slow.example"

def quick : PyStr := .ofString "https://quick.example"

def nextCall (w : Worker) : ClaimCall :=
  .unlocked twoSlots Move.workerA (w.tickLimit twoSlots) w.service.clock w.service.db.deliveries

def tick (w : Worker) : WorkerEvent := .tick (nextCall w)

/-- One tick takes a delivery of the slow host; then the other lead arrives. -/
def slowFirst : List (Worker → WorkerEvent) :=
  [fun w => .queue (Move.accept 0 slowLead w.service), tick,
    fun w => .queue (Move.advance 1000000 w.service),
    fun w => .queue (Move.accept 100 quickLead w.service)]

/-- The quick lead comes first and takes the slot that is left. -/
def quickFirst : List (Worker → WorkerEvent) :=
  [fun w => .queue (Move.accept 100 quickLead w.service), tick,
    fun w => .queue (Move.advance 1000000 w.service),
    fun w => .queue (Move.accept 0 slowLead w.service)]

/-- A computed run of the loop. -/
theorem exists_reachable (moves : List (Worker → WorkerEvent)) (p : Worker → Bool)
    (h : (Machine.play (Worker.step twoSlots Move.workerA) (fun _ _ => True) ⟨.empty 0, []⟩
      moves).any p = true) :
    ∃ w, (worker twoSlots Move.workerA).Reachable w ∧ p w = true :=
  Machine.exists_reachableBy_of_play ⟨0, rfl⟩ h

end Sharing

/-- The slot left by a busy one of another host may go to the slow host. -/
theorem tick_shares_quickFirst :
    ∃ w w', (worker Sharing.twoSlots Move.workerA).Reachable w ∧
      Worker.step Sharing.twoSlots Move.workerA w (Sharing.tick w) = some w' ∧
      ¬ Monopolised Sharing.twoSlots (Sharing.nextCall w) w' := by
  obtain ⟨w, hw, hp⟩ := Sharing.exists_reachable Sharing.quickFirst (fun w =>
    (w.inFlight.any fun c => c.delivery.recipientOrigin.str == Sharing.quick) &&
    (((candidates (Sharing.nextCall w) w.service.db).take (w.freeSlots Sharing.twoSlots)).any
      fun d => d.recipientOrigin.str == Sharing.slow) &&
    (Worker.step Sharing.twoSlots Move.workerA w (Sharing.tick w)).isSome) (by decide +kernel)
  simp only [Bool.and_eq_true, List.any_eq_true, beq_iff_eq] at hp
  obtain ⟨⟨⟨c, hc, hquick⟩, d, hd, hslow⟩, hstep⟩ := hp
  obtain ⟨w', hw'⟩ := Option.isSome_iff_exists.mp hstep
  refine ⟨w, w', hw, hw', (tick_shares_iff hw hw').mpr ?_⟩
  rintro ⟨origin, hbusy, _, hrows, _⟩
  obtain ⟨_, hnext⟩ := (first_candidates_iff (ClaimCall.unlocked_valid ..) origin _).mpr hrows
  have hsame : Sharing.quick = Sharing.slow := by
    rw [← hquick, ← hslow, hbusy c hc, hnext d hd]
  exact absurd hsame (by decide +kernel)

/-- The slow host gets both slots, one tick after the other, while the quick
one's delivery is due. -/
theorem tick_monopolised :
    ¬ ∀ settings : Settings, settings.Validated →
      settings.maxClaimsPerOrigin < settings.workerConcurrency →
      ∀ workerId w w' call, (worker settings workerId).Reachable w →
        Worker.step settings workerId w (.tick call) = some w' →
        ¬ Monopolised settings call w' := by
  intro h
  obtain ⟨w, hw, hp⟩ := Sharing.exists_reachable Sharing.slowFirst (fun w =>
    (Worker.step Sharing.twoSlots Move.workerA w (Sharing.tick w)).any fun w' =>
      decide (w'.inFlight.length = Sharing.twoSlots.workerConcurrency) &&
      (w'.inFlight.all fun c => c.delivery.recipientOrigin.str == Sharing.slow) &&
      w'.service.db.deliveries.rows.any fun d =>
        d.due w.service.clock && d.recipientOrigin.str != Sharing.slow) (by decide +kernel)
  obtain ⟨w', hw', hp⟩ := (Option.any_eq_true _ _).mp hp
  simp only [Bool.and_eq_true, decide_eq_true_eq, List.all_eq_true, List.any_eq_true, beq_iff_eq,
    bne_iff_ne] at hp
  obtain ⟨⟨hfull, hall⟩, d, hd, hdue, hother⟩ := hp
  have hnonempty : w'.inFlight ≠ [] := by
    intro hnil
    rw [hnil] at hfull
    exact absurd hfull (by decide)
  obtain ⟨c, hc⟩ := List.exists_mem_of_ne_nil _ hnonempty
  refine h Sharing.twoSlots (by decide +kernel) (by decide) Move.workerA w w' _ hw hw'
    ⟨c.delivery.recipientOrigin, hfull, fun c' hc' => ?_, d, hd, hdue, rfl, fun heq => ?_⟩
  · have hsame : c'.delivery.recipientOrigin.str = c.delivery.recipientOrigin.str :=
      (hall c' hc').trans (hall c hc).symm
    exact PgText.ext hsame
  · exact hother (heq ▸ hall c hc)

end LeadQueue
