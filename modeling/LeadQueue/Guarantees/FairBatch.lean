import LeadQueue.Queue.Selection
import LeadQueue.Service
import Mathlib.Data.Prod.Lex

/-!
# What a batch is made of

With no rows locked by others a batch is fair between origins: none takes more
than the cap, none leaves an older delivery of its own behind, and a batch that
is not full has every delivery the window and the cap allow for.
-/

namespace LeadQueue

open Relational Transition

/-! ## The order within an origin -/

/-- `ORDER BY claimable_at, id`. -/
def dueOrder (d : Delivery) : Lex (ℤ × ℕ) := toLex (d.claimableAt, d.id.toNat)

theorem dueOrder_le_iff {d e : Delivery} : dueOrder e ≤ dueOrder d ↔
    e.claimableAt < d.claimableAt ∨ (e.claimableAt = d.claimableAt ∧ e.id ≤ d.id) := by
  unfold dueOrder
  rw [Prod.Lex.toLex_le_toLex, BitVec.le_def]

/-- The rows of one origin. -/
def ofOrigin (origin : PgText) (rows : List Delivery) : List Delivery :=
  rows.filter fun d => d.recipientOrigin == origin

theorem rowNumber_eq_rank (due : List Delivery) (d : Delivery) :
    rowNumber due d = Ranking.rank dueOrder (ofOrigin d.recipientOrigin due) d := by
  unfold rowNumber Ranking.rank ofOrigin
  rw [List.countP_filter]
  apply List.countP_congr
  intro e _
  simp only [Bool.and_eq_true, Bool.or_eq_true, decide_eq_true_eq, beq_iff_eq, dueOrder_le_iff]
  exact and_comm

theorem dueOrder_nodup {rows : List Delivery} (h : (rows.map Delivery.id).Nodup) :
    (rows.map dueOrder).Nodup := by
  apply List.Nodup.of_map (fun key : Lex (ℤ × ℕ) => (ofLex key).2)
  have hnat := h.map fun (a b : DeliveryId) (hab : a.toNat = b.toNat) => BitVec.eq_of_toNat_eq hab
  rwa [List.map_map] at hnat ⊢

/-! ## A fair batch -/

/-- Due deliveries that precede the time, or tie with it. -/
def dueUpTo (db : Database) (now time : Instant) : ℕ :=
  db.deliveries.rows.countP fun e => e.due now && decide (e.claimableAt ≤ time)

/-- Due deliveries of the origin that at most `window` due deliveries precede or
tie with, themselves included. -/
def withinWindow (db : Database) (now : Instant) (window : ℕ) (origin : PgText) : ℕ :=
  db.deliveries.rows.countP fun d =>
    d.due now && d.recipientOrigin == origin && decide (dueUpTo db now d.claimableAt ≤ window)

/-- How a batch treats the origins. -/
structure FairBatch (settings : Settings) (call : ClaimCall) (db : Database)
    (claimed : List ClaimedDelivery) : Prop where
  limit : claimed.length ≤ call.limit
  distinct : (claimed.map ClaimedDelivery.deliveryId).Nodup
  due : ∀ c ∈ claimed, ∃ d, db.deliveries.get? c.deliveryId = some d ∧ d.due call.now = true ∧
    d.recipientOrigin = c.recipientOrigin
  cap : ∀ origin, claimed.countP (fun c => c.recipientOrigin == origin) ≤
    settings.maxClaimsPerOrigin
  /-- An older delivery of the same origin is not left behind. -/
  oldest : ∀ d ∈ db.deliveries.rows, ∀ e ∈ db.deliveries.rows, d.due call.now = true →
    d.recipientOrigin = e.recipientOrigin → d.claimableAt < e.claimableAt →
    e.id ∈ claimed.map ClaimedDelivery.deliveryId → d.id ∈ claimed.map ClaimedDelivery.deliveryId
  /-- A short batch has what the window and the cap allow of every origin. -/
  represented : claimed.length < call.limit → ∀ origin,
    min settings.maxClaimsPerOrigin
        (withinWindow db call.now (call.limit * settings.claimScanMultiplier) origin) ≤
      claimed.countP fun c => c.recipientOrigin == origin

section Selection

variable {settings : Settings} {call : ClaimCall} {db : Database}

theorem scan_nodup (h : call.Valid settings) : (call.scan.map Delivery.id).Nodup :=
  (h.scan_perm.map Delivery.id).nodup_iff.mpr
    (call.snapshot.nodup.sublist (List.filter_sublist.map _))

/-- In an origin's part of the scan the number of a row is its rank. -/
theorem rowNumber_of_mem {scan : List Delivery} {origin : PgText} {d : Delivery}
    (hd : d ∈ ofOrigin origin scan) :
    rowNumber scan d = Ranking.rank dueOrder (ofOrigin origin scan) d := by
  obtain rfl := eq_of_beq (List.mem_filter.mp hd).2
  exact rowNumber_eq_rank scan d

theorem eligible_cap (h : call.Valid settings) (origin : PgText) :
    (eligible settings call).countP (fun d => d.recipientOrigin == origin) ≤
      settings.maxClaimsPerOrigin := by
  have hnodup : ((ofOrigin origin call.scan).map dueOrder).Nodup :=
    dueOrder_nodup ((scan_nodup h).sublist (List.filter_sublist.map _))
  calc (eligible settings call).countP (fun d => d.recipientOrigin == origin)
      ≤ (call.scan.filter fun d =>
          decide (rowNumber call.scan d ≤ settings.maxClaimsPerOrigin)).countP
            (fun d => d.recipientOrigin == origin) :=
        ((List.take_sublist _ _).filter _).countP_le
    _ = (ofOrigin origin call.scan).countP fun d =>
          decide (rowNumber call.scan d ≤ settings.maxClaimsPerOrigin) := by
        rw [List.countP_filter, ofOrigin, List.countP_filter]
        exact List.countP_congr fun d _ => by rw [Bool.and_comm]
    _ = (ofOrigin origin call.scan).countP fun d =>
          decide (Ranking.rank dueOrder (ofOrigin origin call.scan) d ≤
            settings.maxClaimsPerOrigin) :=
        List.countP_congr fun d hd => by rw [rowNumber_of_mem hd]
    _ = min settings.maxClaimsPerOrigin (ofOrigin origin call.scan).length :=
        Ranking.countP_rank_le hnodup _
    _ ≤ settings.maxClaimsPerOrigin := min_le_left _ _

/-- A due row strictly before an eligible one of its origin is eligible. -/
theorem eligible_of_lt (h : call.Valid settings) {d e : Delivery} (hd : d ∈ call.scan)
    (he : e ∈ eligible settings call) (horigin : d.recipientOrigin = e.recipientOrigin)
    (hlt : d.claimableAt < e.claimableAt) : d ∈ eligible settings call := by
  obtain ⟨hwindow, hcap⟩ := mem_eligible.mp he
  refine mem_eligible.mpr ⟨Ranking.mem_take_of_lt h.scan_sorted hwindow hd hlt, ?_⟩
  rw [rowNumber_eq_rank, ← horigin] at hcap
  rw [rowNumber_eq_rank]
  exact (Ranking.rank_mono _ (dueOrder_le_iff.mpr (Or.inl hlt))).trans hcap

theorem dueUpTo_eq (h : call.Valid settings) (hlatest : call.snapshot = db.deliveries)
    (time : Instant) :
    call.scan.countP (fun e => decide (e.claimableAt ≤ time)) = dueUpTo db call.now time := by
  rw [h.scan_perm.countP_eq, List.countP_filter, hlatest]
  exact List.countP_congr fun e _ => by rw [Bool.and_comm]

theorem withinWindow_eq (h : call.Valid settings) (hlatest : call.snapshot = db.deliveries)
    (origin : PgText) :
    (ofOrigin origin call.scan).countP
        (fun d => decide (dueUpTo db call.now d.claimableAt ≤ call.window settings)) =
      withinWindow db call.now (call.window settings) origin := by
  rw [ofOrigin, List.countP_filter, h.scan_perm.countP_eq, List.countP_filter, hlatest]
  apply List.countP_congr
  intro e _
  simp only [Bool.and_eq_true]
  tauto

/-- Every origin's share of the eligible rows. -/
theorem min_le_countP_eligible (h : call.Valid settings) (hlatest : call.snapshot = db.deliveries)
    (origin : PgText) :
    min settings.maxClaimsPerOrigin (withinWindow db call.now (call.window settings) origin) ≤
      (eligible settings call).countP fun d => d.recipientOrigin == origin := by
  set inside : Delivery → Bool :=
    fun d => decide (dueUpTo db call.now d.claimableAt ≤ call.window settings) with hinside
  have hnodup : ((ofOrigin origin call.scan).map dueOrder).Nodup :=
    dueOrder_nodup ((scan_nodup h).sublist (List.filter_sublist.map _))
  -- the rows inside the window are downward closed, so their ranks start at one
  have hdown : ∀ d ∈ ofOrigin origin call.scan, ∀ e ∈ ofOrigin origin call.scan,
      inside d = true → dueOrder e ≤ dueOrder d → inside e = true := by
    intro d _ e _ hd hle
    have htime : e.claimableAt ≤ d.claimableAt := by
      rcases dueOrder_le_iff.mp hle with hlt | ⟨heq, _⟩
      · exact hlt.le
      · exact heq.le
    refine decide_eq_true (le_trans ?_ (of_decide_eq_true hd))
    exact List.countP_mono_left fun x _ hx => by
      simp only [Bool.and_eq_true, decide_eq_true_eq] at hx ⊢
      exact ⟨hx.1, hx.2.trans htime⟩
  have hcount := Ranking.countP_rank_le_and hnodup hdown settings.maxClaimsPerOrigin
  rw [withinWindow_eq h hlatest] at hcount
  rw [← hcount, List.countP_eq_length_filter, List.countP_eq_length_filter]
  have hscan : call.scan.Nodup := List.Nodup.of_map _ (scan_nodup h)
  refine ((hscan.filter _).filter _ |>.subperm ?_).length_le
  intro d hd
  obtain ⟨hmem, hd⟩ := List.mem_filter.mp hd
  obtain ⟨hin, horigin⟩ := List.mem_filter.mp hmem
  obtain ⟨hwin, hrank⟩ := Bool.and_eq_true_iff.mp hd
  refine List.mem_filter.mpr ⟨mem_eligible.mpr ⟨?_, ?_⟩, horigin⟩
  · apply Ranking.mem_take_of_countP_le h.scan_sorted hin
    rw [dueUpTo_eq h hlatest]
    exact of_decide_eq_true hwin
  · rw [rowNumber_of_mem hmem]
    exact of_decide_eq_true hrank

/-- With no locks every eligible row is a candidate. -/
theorem candidates_perm_eligible (h : call.Valid settings)
    (hlatest : call.snapshot = db.deliveries) (hfree : ∀ id, call.locked id = false) :
    (candidates call db).Perm (eligible settings call) := by
  refine (candidates_perm h hlatest).trans (List.Perm.of_eq ?_)
  rw [List.filter_eq_self]
  intro d _
  rw [hfree]
  rfl

/-- What is returned of the rows that are picked. -/
theorem claimed_of_picked (hlead : db.Referenced) {db' : Database}
    {claimed : List ClaimedDelivery} (hclaim : claimBatch settings call db = .ok (db', claimed)) :
    ∃ rows : List ClaimedRow, rows.map ClaimedRow.prev = picked call db ∧
      claimed = rows.map toClaimed := by
  obtain ⟨_, hspec⟩ := claimBatch_spec hclaim
  refine ⟨claimedRows call db, map_prev_claimedRows fun p hp => ?_, hspec.returned⟩
  exact hlead p (Table.mem_of_get? (mem_picked hp).1)

end Selection

/-- A batch of a call on the latest state that meets no lock is fair. -/
theorem claimBatch_fair {settings : Settings} {call : ClaimCall} {db db' : Database}
    {claimed : List ClaimedDelivery} (h : call.Valid settings)
    (hlatest : call.snapshot = db.deliveries) (hfree : ∀ id, call.locked id = false)
    (hlead : db.Referenced) (hclaim : claimBatch settings call db = .ok (db', claimed)) :
    FairBatch settings call db claimed := by
  obtain ⟨rows, hprev, rfl⟩ := claimed_of_picked hlead hclaim
  have hperm := candidates_perm_eligible h hlatest hfree
  have hlength : (rows.map toClaimed).length = (picked call db).length := by
    rw [← hprev, List.length_map, List.length_map]
  have hids : (rows.map toClaimed).map ClaimedDelivery.deliveryId =
      (picked call db).map Delivery.id := by
    rw [← hprev, List.map_map, List.map_map]
    rfl
  have horigins : ∀ origin, (rows.map toClaimed).countP (fun c => c.recipientOrigin == origin) =
      (picked call db).countP fun d => d.recipientOrigin == origin := by
    intro origin
    rw [← hprev, List.countP_map, List.countP_map]
    rfl
  refine ⟨?_, ?_, ?_, ?_, ?_, ?_⟩
  · rw [hlength, picked_eq_take]
    exact List.length_take_le _ _
  · rw [hids]
    exact h.order_nodup.sublist (Table.lockRows_keys_sublist _ _ _ _ _)
  · intro c hc
    obtain ⟨row, hrow, rfl⟩ := List.mem_map.mp hc
    have hpicked : row.prev ∈ picked call db := hprev ▸ List.mem_map.mpr ⟨row, hrow, rfl⟩
    obtain ⟨hget, _, _, hdue⟩ := mem_picked hpicked
    exact ⟨row.prev, hget, hdue, rfl⟩
  · intro origin
    rw [horigins, picked_eq_take]
    calc ((candidates call db).take call.limit).countP (fun d => d.recipientOrigin == origin)
        ≤ (candidates call db).countP (fun d => d.recipientOrigin == origin) :=
          (List.take_sublist _ _).countP_le
      _ = (eligible settings call).countP (fun d => d.recipientOrigin == origin) :=
          hperm.countP_eq _
      _ ≤ settings.maxClaimsPerOrigin := eligible_cap h origin
  · intro d hd e he hdue horigin hlt hmem
    rw [hids] at hmem ⊢
    obtain ⟨e', he', hid⟩ := List.mem_map.mp hmem
    obtain rfl : e' = e := Table.eq_of_key_eq (Table.mem_of_get? (mem_picked he').1) he hid
    have hcandidate : d ∈ candidates call db := by
      rw [hperm.mem_iff]
      refine eligible_of_lt h ((mem_scan h hlatest).mpr ⟨hd, hdue⟩) ?_ horigin hlt
      exact hperm.mem_iff.mp (List.mem_of_mem_take (picked_eq_take call db ▸ he'))
    refine List.mem_map.mpr ⟨d, ?_, rfl⟩
    rw [picked_eq_take] at he' ⊢
    exact Ranking.mem_take_of_lt (candidates_sorted h hlatest) he' hcandidate hlt
  · intro hshort origin
    rw [hlength, picked_eq_take, List.length_take] at hshort
    rw [horigins, picked_eq_take, List.take_of_length_le (by omega), hperm.countP_eq]
    exact min_le_countP_eligible h hlatest origin

namespace Move

/-- One claim of an origin in a batch. -/
def oneEach : Settings :=
  { Settings.default with maxClaimsPerOrigin := 1, maxClaimsPerOrigin_pos := Nat.one_pos }

/-- A lead with two addresses of one host and one of another. -/
def twoHosts : IntakeRequest :=
  { lead with
    recipients := [⟨.ofString "https://slow.example/1", none, .ofString "https://slow.example"⟩,
      ⟨.ofString "https://slow.example/2", none, .ofString "https://slow.example"⟩,
      ⟨.ofString "https://quick.example/", none, .ofString "https://quick.example"⟩] }

end Move

/-- The batch has one delivery for each host. -/
theorem claimBatch_fair_twoHosts :
    ∃ (s : Service) (db' : Database) (claimed : List ClaimedDelivery), claimed.length = 2 ∧
      claimBatch Move.oneEach
        (.unlocked Move.oneEach Move.workerA 3 s.clock s.db.deliveries) s.db = .ok (db', claimed) ∧
      FairBatch Move.oneEach (.unlocked Move.oneEach Move.workerA 3 s.clock s.db.deliveries) s.db
        claimed := by
  obtain ⟨s, hs, hp⟩ := exists_reachable_of_moves Move.oneEach [Move.accept 0 Move.twoHosts]
    (fun s => (claimBatch Move.oneEach
      (.unlocked Move.oneEach Move.workerA 3 s.clock s.db.deliveries) s.db).toOption.any
        fun result : Database × List ClaimedDelivery => decide (result.2.length = 2))
    (by decide +kernel)
  obtain ⟨⟨db', claimed⟩, hsome, hlength⟩ := (Option.any_eq_true _ _).mp hp
  have hclaim : claimBatch Move.oneEach
      (.unlocked Move.oneEach Move.workerA 3 s.clock s.db.deliveries) s.db =
        .ok (db', claimed) := by
    revert hsome
    cases claimBatch Move.oneEach
      (.unlocked Move.oneEach Move.workerA 3 s.clock s.db.deliveries) s.db with
    | error e => exact fun h => by cases h
    | ok result => exact fun h => congrArg _ (Option.some.inj h)
  exact ⟨s, db', claimed, of_decide_eq_true hlength, hclaim,
    claimBatch_fair (ClaimCall.unlocked_valid _ _ _ _ _) rfl (fun _ => rfl)
      (referenced_of_reachable hs) hclaim⟩

end LeadQueue
