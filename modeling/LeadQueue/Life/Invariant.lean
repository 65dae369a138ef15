import LeadQueue.Life.Simulation

/-!
# What holds of every delivery

`WellShaped` is about the row alone: which columns are set in which status.
`Life.Inv` ties the row to the claims made of it, the results recorded for them
and the journal: claims are numbered without gaps, an in-flight row is held by
its latest claim, and a known journal entry is one whose result was recorded.
-/

namespace LeadQueue

open Relational Transition

/-! ## The shape of a row -/

structure Delivery.WellShaped (d : Delivery) : Prop where
  lease_iff : d.leaseExpiresAt.isSome ↔ d.status = .inFlight
  lockedBy_iff : d.lockedBy.isSome ↔ d.status = .inFlight
  deliveredAt_iff : d.deliveredAt.isSome ↔ d.status = .delivered
  failedAt_iff : d.failedAt.isSome ↔ d.status = .failed
  lastAttemptAt_iff : d.lastAttemptAt.isSome ↔ 0 < d.totalAttempts
  attempts_le : d.attempts ≤ d.totalAttempts
  inFlight_attempts : d.status = .inFlight → 1 ≤ d.attempts
  delivered_outcome : d.status = .delivered → d.lastOutcome = some .success
  failed_outcome : d.status = .failed → d.lastOutcome = some .failure
  pending_claimable : d.status = .pending → d.claimableAt = d.nextAttemptAt
  inFlight_claimable : d.status = .inFlight → d.leaseExpiresAt = some d.claimableAt

theorem newDelivery_wellShaped (now : Instant) (requestId : RequestId) (id : DeliveryId)
    (r : RecipientRow) : (newDelivery now requestId id r).WellShaped := by
  constructor <;> simp [newDelivery, deliveriesSyncClaimable]

theorem claimRow_wellShaped {workerId : WorkerId} {now : Instant} {lease : Duration}
    {d : Delivery} (h : d.WellShaped) (hdue : d.due now = true) :
    (claimRow workerId now lease d).WellShaped := by
  have hstatus := (Delivery.due_iff.mp hdue).1
  have hdel : d.deliveredAt.isSome = false := by
    rw [← Bool.not_eq_true, h.deliveredAt_iff]
    rcases hstatus with hst | hst <;> simp [hst]
  have hfail : d.failedAt.isSome = false := by
    rw [← Bool.not_eq_true, h.failedAt_iff]
    rcases hstatus with hst | hst <;> simp [hst]
  have hle := h.attempts_le
  constructor <;> simp_all [claimRow, claimSet, deliveriesSyncClaimable]

theorem deliveredRow_wellShaped {result : AttemptResult} {now : Instant} {d : Delivery}
    (h : d.WellShaped) : (deliveredRow result now d).WellShaped := by
  have hlast := h.lastAttemptAt_iff
  have hle := h.attempts_le
  constructor <;> simp [deliveredRow, markDelivered, deliveriesSyncClaimable, hlast, hle]

theorem failedRow_wellShaped {result : AttemptResult} {lastError : Option PgText}
    {exhausted : Bool} {delay : Duration} {now : Instant} {d : Delivery} (h : d.WellShaped)
    (hheld : d.status = .inFlight) :
    (failedRow result lastError exhausted delay now d).WellShaped := by
  have hlast := h.lastAttemptAt_iff
  have hle := h.attempts_le
  have hdel : d.deliveredAt = none := by
    rw [← Option.not_isSome_iff_eq_none, h.deliveredAt_iff]
    simp [hheld]
  cases exhausted <;> constructor <;>
    simp [failedRow, markFailure, deliveriesSyncClaimable, hlast, hle, hdel]

theorem requeueRow_wellShaped {now : Instant} {d : Delivery} (h : d.WellShaped) :
    (requeueRow now d).WellShaped := by
  have hlast := h.lastAttemptAt_iff
  constructor <;> simp [requeueRow, requeueSet, deliveriesSyncClaimable, hlast]

/-- A due row is a pending one whose retry time has come or an in-flight one
whose lease is over. -/
theorem due_iff_of_wellShaped {now : Instant} {d : Delivery} (h : d.WellShaped) :
    d.due now = true ↔ (d.status = .pending ∧ d.nextAttemptAt ≤ now) ∨
      (d.status = .inFlight ∧ ∃ lease, d.leaseExpiresAt = some lease ∧ lease ≤ now) := by
  rw [Delivery.due_iff]
  constructor
  · rintro ⟨hst | hst, hle⟩
    · exact Or.inl ⟨hst, h.pending_claimable hst ▸ hle⟩
    · exact Or.inr ⟨hst, d.claimableAt, h.inFlight_claimable hst, hle⟩
  · rintro (⟨hst, hle⟩ | ⟨hst, lease, hlease, hle⟩)
    · exact ⟨Or.inl hst, (h.pending_claimable hst).symm ▸ hle⟩
    · obtain rfl : lease = d.claimableAt :=
        Option.some.inj (hlease.symm.trans (h.inFlight_claimable hst))
      exact ⟨Or.inr hst, hle⟩

/-! ## Row, claims, results and journal -/

/-- `c` is the claim of attempt `n`. -/
structure Claim.Fits (settings : Settings) (clock : Instant) (row : Delivery) (n : ℕ)
    (c : Claim) : Prop where
  number : c.attemptNumber = n
  deliveryId : c.delivery.deliveryId = row.id
  requestId : c.delivery.requestId = row.requestId
  recipientName : c.delivery.recipientName = row.recipientName
  recipientUrl : c.delivery.recipientUrl = row.recipientUrl
  recipientOrigin : c.delivery.recipientOrigin = row.recipientOrigin
  budget_pos : 1 ≤ c.delivery.budgetAttempt
  lease : c.leaseExpiresAt = c.claimedAt + settings.lease
  claimedAt_le : c.claimedAt ≤ clock

/-- The row is in flight under `c`. -/
structure Claim.Holds (c : Claim) (row : Delivery) : Prop where
  lockedBy : row.lockedBy = some c.workerId
  lease : row.leaseExpiresAt = some c.leaseExpiresAt
  attempts : row.attempts = c.delivery.budgetAttempt
  startedAt : row.lastAttemptAt = some c.claimedAt

namespace Life

structure Inv (settings : Settings) (l : Life) : Prop where
  shape : l.row.WellShaped
  claims_iff : ∀ n, (l.claims n).isSome ↔ 1 ≤ n ∧ n ≤ l.row.totalAttempts
  fits : ∀ n c, l.claims n = some c → c.Fits settings l.clock l.row n
  held : l.row.status = .inFlight → ∃ c, l.claims l.row.totalAttempts = some c ∧ c.Holds l.row ∧
    l.results l.row.totalAttempts = none
  results_claimed : ∀ n, (l.results n).isSome → (l.claims n).isSome
  known_iff : ∀ n, (l.results n).isSome ↔ ∃ a, l.journal n = some a ∧ a.outcome ≠ .unknown
  unknown_lt : ∀ n a, l.journal n = some a → a.outcome = .unknown →
    1 ≤ n ∧ n < l.row.totalAttempts

theorem fits_mono {settings : Settings} {clock clock' : Instant}
    {row row' : Delivery} {n : ℕ} {c : Claim} (h : c.Fits settings clock row n)
    (hrow : row.SameTarget row') (hclock : clock ≤ clock') : c.Fits settings clock' row' n where
  number := h.number
  deliveryId := h.deliveryId.trans hrow.id.symm
  requestId := h.requestId.trans hrow.requestId.symm
  recipientName := h.recipientName.trans hrow.recipientName.symm
  recipientUrl := h.recipientUrl.trans hrow.recipientUrl.symm
  recipientOrigin := h.recipientOrigin.trans hrow.recipientOrigin.symm
  budget_pos := h.budget_pos
  lease := h.lease
  claimedAt_le := h.claimedAt_le.trans hclock

theorem Inv.of_starts {settings : Settings} {l : Life} (h : l.Starts) : l.Inv settings := by
  obtain ⟨now, requestId, id, r, _, hrow, hclaims, hresults, hjournal⟩ := h
  have htotal : l.row.totalAttempts = 0 := by rw [hrow]; rfl
  have hstatus : l.row.status = .pending := by rw [hrow]; rfl
  refine ⟨hrow ▸ newDelivery_wellShaped now requestId id r, fun n => ?_, ?_, ?_, ?_, ?_, ?_⟩
  · simp only [hclaims, htotal, Option.isSome_none, Bool.false_eq_true, false_iff]
    omega
  all_goals simp [hclaims, hresults, hjournal, hstatus]

theorem Inv.advance {settings : Settings} {l : Life} (h : l.Inv settings) {t : Instant}
    (ht : l.clock ≤ t) : Inv settings { l with clock := t } where
  shape := h.shape
  claims_iff := h.claims_iff
  fits n c hc := fits_mono (h.fits n c hc) ⟨rfl, rfl, rfl, rfl, rfl⟩ ht
  held := h.held
  results_claimed := h.results_claimed
  known_iff := h.known_iff
  unknown_lt := h.unknown_lt

/-- The entry of a reclaim is a placeholder for the attempt it interrupted. -/
theorem lostEntry_some {workerId : WorkerId} {now : Instant} {row : Delivery} {a : Attempt}
    (h : lostEntry workerId now row = .ok (some a)) :
    row.status = .inFlight ∧ 0 < row.totalAttempts ∧ a.outcome = .unknown := by
  unfold lostEntry at h
  split at h
  · rename_i hrec
    obtain ⟨a', ha', heq⟩ := Fallible.map_eq_ok_iff.mp h
    cases heq
    unfold lostAttempt at ha'
    obtain ⟨ms, _, ha'⟩ := Fallible.bind_eq_ok_iff.mp ha'
    cases ha'
    simp only [reclaimed, Bool.and_eq_true, beq_iff_eq, decide_eq_true_eq] at hrec
    exact ⟨hrec.1, hrec.2, rfl⟩
  · cases h

theorem Inv.no_next_claim {settings : Settings} {l : Life} (h : l.Inv settings) :
    l.claims (l.row.totalAttempts + 1) = none := by
  rw [← Option.not_isSome_iff_eq_none, h.claims_iff]
  omega

theorem Inv.no_result {settings : Settings} {l : Life} (h : l.Inv settings) {n : ℕ}
    (hn : l.claims n = none) : l.results n = none := by
  rw [← Option.not_isSome_iff_eq_none]
  intro hsome
  simpa [hn] using h.results_claimed n hsome

theorem Inv.claimed {settings : Settings} {l : Life} {workerId : WorkerId} {now : Instant}
    {request : Request} {lost : Option Attempt} (h : l.Inv settings) (hnow : now ≤ l.clock)
    (hdue : l.row.due now = true) (hlost : lostEntry workerId now l.row = .ok lost) :
    Inv settings (l.claimed settings workerId now request lost) where
  shape := claimRow_wellShaped h.shape hdue
  claims_iff n := by
    have hiff := h.claims_iff n
    have htotal : (claimRow workerId now settings.lease l.row).totalAttempts =
        l.row.totalAttempts + 1 := rfl
    simp only [Life.claimed, isSome_addNew, hiff, htotal, Option.isSome_some, and_true]
    omega
  fits n c hc := by
    rcases eq_some_of_addNew hc with hold | ⟨_, rfl, hnew⟩
    · exact fits_mono (h.fits n c hold) ⟨rfl, rfl, rfl, rfl, rfl⟩ le_rfl
    · cases hnew
      exact ⟨rfl, rfl, rfl, rfl, rfl, rfl, by simp [nextClaim, toClaimed], rfl, hnow⟩
  held _ := by
    have hnext := addNew_same l.claims (l.row.totalAttempts + 1)
      (some (l.nextClaim settings workerId now request))
    rw [h.no_next_claim, Option.none_or] at hnext
    exact ⟨_, hnext, ⟨rfl, rfl, rfl, rfl⟩, h.no_result h.no_next_claim⟩
  results_claimed n hn := (isSome_addNew _ _ _ _).mpr (Or.inl (h.results_claimed n hn))
  known_iff n := by
    rw [show (l.claimed settings workerId now request lost).results = l.results from rfl,
      h.known_iff n]
    constructor
    · rintro ⟨a, ha, hout⟩
      exact ⟨a, addNew_of_some _ _ ha, hout⟩
    · rintro ⟨a, ha, hout⟩
      rcases eq_some_of_addNew ha with hold | ⟨_, _, rfl⟩
      · exact ⟨a, hold, hout⟩
      · -- the entry of the attempt taken over is a placeholder
        exact absurd (lostEntry_some hlost).2.2 hout
  unknown_lt n a ha hout := by
    show 1 ≤ n ∧ n < l.row.totalAttempts + 1
    rcases eq_some_of_addNew ha with hold | ⟨_, rfl, rfl⟩
    · have := h.unknown_lt n a hold hout
      omega
    · have := (lostEntry_some hlost).2.1
      omega

/-- A known outcome takes the place of nothing or of a placeholder. -/
theorem journalAfter_outcome {entry : Attempt} {old : Option Attempt}
    (hold : ∀ a, old = some a → a.outcome = .unknown) :
    (journalAfter entry old).outcome = entry.outcome := by
  cases old with
  | none => rfl
  | some a => simp [journalAfter, replaceUnknown, hold a rfl]

theorem Inv.unrecorded {settings : Settings} {l : Life} (h : l.Inv settings) {n : ℕ}
    (hn : l.results n = none) {a : Attempt} (ha : l.journal n = some a) : a.outcome = .unknown := by
  by_contra hout
  have hsome := (h.known_iff n).mpr ⟨a, ha, hout⟩
  simp [hn] at hsome

/-- The claim an in-flight row is held by. -/
theorem Inv.current {settings : Settings} {l : Life} (h : l.Inv settings) {c : Claim}
    (hc : l.current? = some c) : l.row.status = .inFlight ∧ c.Holds l.row ∧
      c.attemptNumber = l.row.totalAttempts ∧ l.results l.row.totalAttempts = none := by
  unfold current? at hc
  split at hc
  · rename_i hst
    obtain ⟨cur, hcur, hholds, hres⟩ := h.held hst
    obtain rfl : cur = c := Option.some.inj (hcur.symm.trans hc)
    exact ⟨hst, hholds, (h.fits _ _ hc).number, hres⟩
  · cases hc

theorem Inv.current_of_inFlight {settings : Settings} {l : Life} (h : l.Inv settings)
    (hst : l.row.status = .inFlight) : ∃ c, l.current? = some c := by
  obtain ⟨c, hc, _⟩ := h.held hst
  exact ⟨c, by simp [current?, hst, hc]⟩

/-- Both branches of a record, and a record that leaves the row alone. -/
theorem Inv.recorded {settings : Settings} {l : Life} {n : ℕ} {c : Claim}
    {result : AttemptResult} {row : Delivery} {entry : Attempt} (h : l.Inv settings)
    (hnone : l.results n = none) (hc : l.claims n = some c) (hout : entry.outcome ≠ .unknown)
    (hshape : row.WellShaped) (htarget : l.row.SameTarget row)
    (htotal : row.totalAttempts = l.row.totalAttempts)
    (hstill : row.status = .inFlight → row = l.row ∧ n ≠ l.row.totalAttempts) :
    Inv settings (l.recorded n result row entry) where
  shape := hshape
  claims_iff k := by
    show (l.claims k).isSome ↔ 1 ≤ k ∧ k ≤ row.totalAttempts
    rw [htotal]
    exact h.claims_iff k
  fits k c' hc' := fits_mono (h.fits k c' hc') htarget le_rfl
  held hst := by
    -- still in flight: the record was another attempt's
    obtain ⟨rfl, hne⟩ := hstill hst
    obtain ⟨cur, hcur, hholds, hres⟩ := h.held hst
    exact ⟨cur, hcur, hholds, (addNew_of_ne _ _ (Ne.symm hne)).trans hres⟩
  results_claimed k hk := by
    rcases (isSome_addNew _ _ _ _).mp hk with hk | ⟨rfl, _⟩
    · exact h.results_claimed k hk
    · exact Option.isSome_iff_exists.mpr ⟨c, hc⟩
  known_iff k := by
    rw [show (l.recorded n result row entry).results = addNew l.results n (some result) from rfl,
      isSome_addNew]
    by_cases hk : k = n
    · subst hk
      simp [journal_recorded_self, journalAfter_outcome fun a => h.unrecorded hnone, hout]
    · simp only [hk, false_and, or_false, journal_recorded_of_ne hk]
      exact h.known_iff k
  unknown_lt k a ha hunk := by
    by_cases hk : k = n
    · subst hk
      obtain rfl := Option.some.inj (journal_recorded_self.symm.trans ha)
      rw [journalAfter_outcome fun a => h.unrecorded hnone] at hunk
      exact absurd hunk hout
    · rw [journal_recorded_of_ne hk] at ha
      show 1 ≤ k ∧ k < row.totalAttempts
      rw [htotal]
      exact h.unknown_lt k a ha hunk

theorem Inv.requeued {settings : Settings} {l : Life} {now : Instant} (h : l.Inv settings) :
    Inv settings { l with row := requeueRow now l.row } where
  shape := requeueRow_wellShaped h.shape
  claims_iff := h.claims_iff
  fits n c hc := fits_mono (h.fits n c hc) ⟨rfl, rfl, rfl, rfl, rfl⟩ le_rfl
  held hst := by cases hst
  results_claimed := h.results_claimed
  known_iff := h.known_iff
  unknown_lt := h.unknown_lt

/-! ## The rows a record can leave behind -/

theorem successRow_target (result : AttemptResult) (now : Instant) (row : Delivery) :
    row.SameTarget (successRow result now row) := by
  unfold successRow
  split <;> exact ⟨rfl, rfl, rfl, rfl, rfl⟩

@[simp] theorem successRow_totalAttempts (result : AttemptResult) (now : Instant)
    (row : Delivery) : (successRow result now row).totalAttempts = row.totalAttempts := by
  unfold successRow
  split <;> rfl

@[simp] theorem successRow_attempts (result : AttemptResult) (now : Instant)
    (row : Delivery) : (successRow result now row).attempts = row.attempts := by
  unfold successRow
  split <;> rfl

@[simp] theorem successRow_status (result : AttemptResult) (now : Instant) (row : Delivery) :
    (successRow result now row).status = .delivered := by
  unfold successRow
  split
  · assumption
  · rfl

theorem successRow_wellShaped {result : AttemptResult} {now : Instant} {row : Delivery}
    (h : row.WellShaped) : (successRow result now row).WellShaped := by
  unfold successRow
  split
  · exact h
  · exact deliveredRow_wellShaped h

section Failure

variable {settings : Settings} {c : Claim} {result : AttemptResult} {lastError : Option PgText}
  {delay : Duration} {now : Instant} {row : Delivery}

theorem failureRow_target : row.SameTarget
    (failureRow settings c result lastError delay now row) := by
  unfold failureRow
  split <;> exact ⟨rfl, rfl, rfl, rfl, rfl⟩

@[simp] theorem failureRow_totalAttempts :
    (failureRow settings c result lastError delay now row).totalAttempts = row.totalAttempts := by
  unfold failureRow
  split <;> rfl

@[simp] theorem failureRow_attempts :
    (failureRow settings c result lastError delay now row).attempts = row.attempts := by
  unfold failureRow
  split <;> rfl

theorem failureRow_wellShaped (h : row.WellShaped) :
    (failureRow settings c result lastError delay now row).WellShaped := by
  unfold failureRow
  split
  · rename_i hheld
    exact failedRow_wellShaped h hheld.2
  · exact h

/-- A failure either leaves the row alone or takes it out of flight. -/
theorem failureRow_cases :
    (row.lockedBy = some c.workerId ∧ row.status = .inFlight ∧
      failureRow settings c result lastError delay now row = failedRow result lastError
        (isExhausted c.delivery.budgetAttempt settings) delay now row) ∨
    (¬ (row.lockedBy = some c.workerId ∧ row.status = .inFlight) ∧
      failureRow settings c result lastError delay now row = row) := by
  unfold failureRow
  split
  · rename_i hheld
    exact Or.inl ⟨hheld.1, hheld.2, rfl⟩
  · rename_i hheld
    exact Or.inr ⟨hheld, rfl⟩

/-- The failure of another worker's claim leaves a row in flight alone. -/
theorem Inv.failureRow_eq_self {l : Life} (h : l.Inv settings) {c' : Claim}
    (hcur : l.current? = some c') (hworker : c'.workerId ≠ c.workerId) :
    failureRow settings c result lastError delay now l.row = l.row := by
  obtain ⟨_, hholds, _⟩ := h.current hcur
  rcases failureRow_cases with ⟨hlocked, _⟩ | ⟨_, heq⟩
  · exact absurd (Option.some.inj (hholds.lockedBy.symm.trans hlocked)) hworker
  · exact heq

theorem failedRow_status (exhausted : Bool) :
    (failedRow result lastError exhausted delay now row).status =
      if exhausted then .failed else .pending := rfl

end Failure

theorem attemptEntry_outcome_ne (workerId : WorkerId) (claim : ClaimedDelivery)
    (result : AttemptResult) (ms : Int4) (text : Option PgText) (scheduled : Option Instant) :
    (attemptEntry workerId claim result ms text scheduled).outcome ≠ .unknown := by
  unfold attemptEntry
  split <;> simp

/-! ## Every step keeps the invariant -/

theorem Inv.step {settings : Settings} {l l' : Life} {d : Event} (h : l.Inv settings)
    (hstep : Step settings l d l') : l'.Inv settings := by
  cases hstep with
  | advance ht => exact h.advance ht
  | claim hnow hdue hlost => exact h.claimed hnow hdue hlost
  | success _ hnone hc _ _ =>
      refine h.recorded hnone hc (attemptEntry_outcome_ne _ _ _ _ _ _)
        (successRow_wellShaped h.shape) (successRow_target _ _ _)
        (successRow_totalAttempts _ _ _) fun hst => ?_
      simp at hst
  | @failure n c _ _ _ _ _ _ _ _ _ hnone hc _ _ _ _ =>
      refine h.recorded hnone hc (attemptEntry_outcome_ne _ _ _ _ _ _)
        (failureRow_wellShaped h.shape) failureRow_target failureRow_totalAttempts fun hst => ?_
      rcases failureRow_cases with ⟨_, _, heq⟩ | ⟨hfree, heq⟩
      · rw [heq, failedRow_status] at hst
        split at hst <;> cases hst
      · rw [heq] at hst
        refine ⟨heq, ?_⟩
        -- the current claim's own record would have found its worker id on the row
        rintro rfl
        obtain ⟨cur, hcur, hholds, _⟩ := h.held hst
        obtain rfl : cur = c := Option.some.inj (hcur.symm.trans hc)
        exact hfree ⟨hholds.lockedBy, hst⟩
  | requeue _ _ => exact h.requeued

end Life

theorem life_inv {settings : Settings} {ok : Life → Life.Event → Prop} {l : Life}
    (h : (life settings).ReachableBy ok l) : l.Inv settings :=
  h.invariant (fun _ => Life.Inv.of_starts) fun _ _ _ _ hinv _ hstep => hinv.step hstep

/-- The invariant of every delivery in every reachable state. -/
theorem inv_of_reachable {settings : Settings} {ok : Service → Event → Prop} {s : Service}
    (h : (service settings).ReachableBy ok s) {id : DeliveryId} {x : Life}
    (hx : s.life id = some x) : x.Inv settings :=
  life_inv (life_reachable (Service.everywhere_of_reachable h) hx)

/-- Every stored row is well shaped, whatever was done in whatever order. -/
theorem stored_row_wellShaped {settings : Settings} {s : Service}
    (h : (service settings).Reachable s)
    {row : Delivery} (hrow : row ∈ s.db.deliveries.rows) : row.WellShaped :=
  (inv_of_reachable h (Service.life_eq_some_iff.mpr ⟨row, Table.get?_of_mem hrow, rfl⟩)).shape

/-- A row that failed, was retried by hand and is in flight again. -/
theorem stored_row_wellShaped_afterRetry :
    ∃ s row, (service .default).Reachable s ∧ row ∈ s.db.deliveries.rows ∧
      row.status = .inFlight ∧ row.attempts = 1 ∧ row.totalAttempts = 2 ∧ row.WellShaped := by
  obtain ⟨s, hs, hp⟩ := exists_reachable_of_moves .default
    [Move.accept 0 Move.lead, Move.claim .default Move.workerA 1,
      Move.record Move.first 1 Move.timedOut, Move.requeue 0 false,
      Move.claim .default Move.workerB 1]
    (fun s => s.db.deliveries.rows.any fun d =>
      decide (d.status = .inFlight ∧ d.attempts = 1 ∧ d.totalAttempts = 2)) (by decide +kernel)
  obtain ⟨row, hrow, hp⟩ := List.any_eq_true.mp hp
  obtain ⟨hstatus, hone, htwo⟩ := of_decide_eq_true hp
  exact ⟨s, row, hs, hrow, hstatus, hone, htwo, stored_row_wellShaped hs hrow⟩

/-! ## Claims by number -/

/-- The claims of one call are of different deliveries. -/
theorem newClaims_keys_nodup {settings : Settings} {call : ClaimCall} {db : Database}
    (hvalid : call.Valid settings) :
    ((newClaims settings call ((claimedRows call db).map toClaimed)).map Claim.key).Nodup := by
  have hids := claimedRows_nodup hvalid db
  apply List.Nodup.of_map Prod.fst
  simpa [newClaims, Function.comp_def, Claim.key, toClaimed] using hids

/-- A new claim's number has not been handed out before. -/
theorem newClaims_disjoint {settings : Settings} {s : Service} {call : ClaimCall}
    (hs : (service settings).Reachable s) :
    List.Disjoint (s.claims.map Claim.key)
      ((newClaims settings call ((claimedRows call s.db).map toClaimed)).map Claim.key) := by
  intro key hold hnew
  obtain ⟨c', hc', rfl⟩ := List.mem_map.mp hnew
  obtain ⟨row, hrow, rfl⟩ := Service.mem_newClaims.mp hc'
  obtain ⟨c, hc, hkey⟩ := List.mem_map.mp hold
  have hget := (mem_picked (mem_claimedRows.mp hrow).1).1
  have hfree := (inv_of_reachable hs
    (Service.life_eq_some_iff.mpr ⟨row.prev, hget, rfl⟩)).no_next_claim
  exact List.find?_eq_none.mp hfree c hc (decide_eq_true hkey)

/-- No two claims have the same delivery and attempt number. -/
theorem claims_nodup {settings : Settings} {s : Service} (h : (service settings).Reachable s) :
    (s.claims.map Claim.key).Nodup := by
  induction h with
  | init h0 =>
      obtain ⟨clock, rfl⟩ := h0
      exact List.nodup_nil
  | step hs _ hstep ih =>
      rcases Service.step_claims hstep with hsame | ⟨call, db, claimed, _, hvalid, hclaim, happend⟩
      · rw [hsame]
        exact ih
      · obtain ⟨lost, hspec⟩ := claimBatch_spec hclaim
        obtain rfl := hspec.returned
        rw [happend, List.map_append]
        exact ih.append (newClaims_keys_nodup hvalid) (newClaims_disjoint hs)

theorem claim?_of_mem {settings : Settings} {s : Service} (h : (service settings).Reachable s)
    {c : Claim} (hc : c ∈ s.claims) :
    s.claim? c.delivery.deliveryId c.attemptNumber = some c := by
  refine (Service.find?_of_unique hc fun c' hc' hkey => ?_).trans (if_pos (decide_eq_true rfl))
  exact List.inj_on_of_nodup_map (claims_nodup h) hc' hc (of_decide_eq_true hkey)

end LeadQueue
