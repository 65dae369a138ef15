import LeadQueue.Life.Invariant

/-!
# Stale failures

A failure is written only on a row that is in flight and locked by the worker
id of its claim. A worker id does not tell two claims of one worker apart, so a
late failure is fenced off exactly when the delivery is not in flight under
another claim of the same worker id.
-/

namespace LeadQueue

open Relational Transition

namespace Life

/-- The row after a failed record, seen from the claim in force. -/
theorem Inv.failureRow_iff {settings : Settings} {l : Life} (h : l.Inv settings) {n : ℕ}
    {c : Claim} {result : AttemptResult} {lastError : Option PgText} {delay : Duration}
    {now : Instant} :
    (failureRow settings c result lastError delay now l.row = l.row ∨
      (l.row.status = .inFlight ∧ l.row.totalAttempts = n)) ↔
      ∀ c' ∈ l.current?, c'.workerId = c.workerId → c'.attemptNumber = n := by
  constructor
  · rintro hrow c' hc' hworker
    obtain ⟨hflight, hholds, hnumber, _⟩ := h.current hc'
    rw [hnumber]
    rcases hrow with hsame | ⟨_, hn⟩
    · rcases failureRow_cases with ⟨_, _, heq⟩ | ⟨hfree, _⟩
      · -- the row held by this worker id has left the in-flight status
        rw [heq] at hsame
        have hstatus := (failedRow_status _).symm.trans (congrArg Delivery.status hsame)
        rw [hflight] at hstatus
        split at hstatus <;> cases hstatus
      · exact absurd ⟨hworker ▸ hholds.lockedBy, hflight⟩ hfree
    · exact hn
  · intro hcond
    rcases failureRow_cases with ⟨hlocked, hflight, _⟩ | ⟨_, heq⟩
    · obtain ⟨c', hc'⟩ := h.current_of_inFlight hflight
      obtain ⟨_, hholds, hnumber, _⟩ := h.current hc'
      have hworker : c'.workerId = c.workerId :=
        Option.some.inj (hholds.lockedBy.symm.trans hlocked)
      exact Or.inr ⟨hflight, hnumber.symm.trans (hcond c' hc' hworker)⟩
    · exact Or.inl heq

end Life

/-- The row of a delivery before and after a committed failure. -/
theorem row_of_failure {settings : Settings} {s t : Service} {id : DeliveryId} {n : ℕ}
    {result : AttemptResult} {draw : Draw} {now : Instant} {c : Claim}
    (hs : (service settings).Reachable s)
    (hstep : Service.step settings s (.record id n result draw now) = some t)
    (hfail : result.succeeded = false) (hc : s.claim? id n = some c) :
    ∃ x lastError delay, s.life id = some x ∧ t.db.deliveries.get? id =
      some (Life.failureRow settings c result lastError delay now x.row) := by
  obtain ⟨_, _, c', db, hc', hrec, rfl⟩ := Service.step_record.mp hstep
  obtain rfl : c' = c := Option.some.inj (hc'.symm.trans hc)
  obtain ⟨_, hcid, _⟩ := Service.claim?_eq_some hc
  obtain ⟨entry, delay, lastError, hspec⟩ := recordResult_failure hfail hrec
  cases hget : s.db.deliveries.get? id with
  | none =>
      have hfree := (Service.tidy_of_reachable hs id hget n).1
      rw [hc] at hfree
      cases hfree
  | some row =>
      refine ⟨_, lastError, delay, Service.life_eq_some_iff.mpr ⟨row, hget, rfl⟩, ?_⟩
      rw [hspec.deliveries, hget]
      simp only [Option.map_some, heldBy_iff, hcid, Table.key_of_get? hget, true_and,
        Life.failureRow]

/-- A failure leaves the delivery alone, unless it is its current claim's,
exactly when no other claim of the same worker id is in force. -/
theorem failure_fenced_iff {settings : Settings} {s t : Service} {id : DeliveryId} {n : ℕ}
    {result : AttemptResult} {draw : Draw} {now : Instant} {c : Claim}
    (hs : (service settings).Reachable s)
    (hstep : Service.step settings s (.record id n result draw now) = some t)
    (hfail : result.succeeded = false) (hc : s.claim? id n = some c) :
    (t.db.deliveries.get? id = s.db.deliveries.get? id ∨
      ∃ row, s.db.deliveries.get? id = some row ∧ row.status = .inFlight ∧
        row.totalAttempts = c.attemptNumber) ↔
      ∀ c' ∈ s.current? id, c'.workerId = c.workerId → c'.attemptNumber = c.attemptNumber := by
  obtain ⟨x, lastError, delay, hx, hrow⟩ := row_of_failure hs hstep hfail hc
  obtain ⟨_, hget, _⟩ := Service.parts_of_life hx
  have hcurrent : s.current? id = x.current? := by simp [Service.current?, hx]
  rw [hrow, hget, hcurrent]
  simp only [Option.some.injEq, exists_eq_left']
  exact (inv_of_reachable hs hx).failureRow_iff

namespace Fencing

/-- Worker A loses its lease and `next` takes the delivery over. -/
def takenOver (next : WorkerId) : List (Service → Event) :=
  [Move.accept 0 Move.lead, Move.claim .default Move.workerA 1, Move.advance 100000000,
    Move.claim .default next 1]

end Fencing

/-- Taken over by another worker, the delivery is out of reach of A's failure. -/
theorem failure_fenced_otherWorker :
    ∃ s t c, (service .default).Reachable s ∧
      Service.step .default s (Move.record Move.first 1 Move.timedOut s) = some t ∧
      s.claim? Move.first 1 = some c ∧
      (t.db.deliveries.get? Move.first = s.db.deliveries.get? Move.first ∨
        ∃ row, s.db.deliveries.get? Move.first = some row ∧ row.status = .inFlight ∧
          row.totalAttempts = c.attemptNumber) := by
  obtain ⟨s, hs, hp⟩ := exists_reachable_of_moves .default (Fencing.takenOver Move.workerB)
    (fun s => (s.claim? Move.first 1).any (fun c : Claim => c.workerId == Move.workerA) &&
      (s.current? Move.first).all (fun c : Claim => c.workerId == Move.workerB) &&
      (Service.step .default s (Move.record Move.first 1 Move.timedOut s)).isSome)
    (by decide +kernel)
  simp only [Bool.and_eq_true, Option.any_eq_true, beq_iff_eq, Option.all_eq_true] at hp
  obtain ⟨⟨⟨c, hc, hworker⟩, hcurrent⟩, hstep⟩ := hp
  obtain ⟨t, ht⟩ := Option.isSome_iff_exists.mp hstep
  refine ⟨s, t, c, hs, ht, hc, (failure_fenced_iff hs ht rfl hc).mpr fun c' hc' hsame => ?_⟩
  exact absurd ((hcurrent c' hc').symm.trans (hsame.trans hworker)) (by decide)

/-- The first claim's failure puts the delivery back to `pending` while the
second attempt of the same worker is under way. -/
theorem stale_failure_releases_newer_claim :
    ¬ ∀ settings : Settings, settings.Validated → ∀ s t id n result draw now c,
      (service settings).Reachable s →
      Service.step settings s (.record id n result draw now) = some t →
      result.succeeded = false → s.claim? id n = some c →
      t.db.deliveries.get? id = s.db.deliveries.get? id ∨
        ∃ row, s.db.deliveries.get? id = some row ∧ row.status = .inFlight ∧
          row.totalAttempts = c.attemptNumber := by
  intro h
  obtain ⟨s, hs, hp⟩ := exists_reachable_of_moves .default (Fencing.takenOver Move.workerA)
    (fun s => (s.claim? Move.first 1).isSome &&
      (s.db.deliveries.get? Move.first).any (fun row : Delivery => row.totalAttempts == 2) &&
      (Service.step .default s (Move.record Move.first 1 Move.timedOut s)).any
        fun t => t.db.deliveries.get? Move.first != s.db.deliveries.get? Move.first)
    (by decide +kernel)
  simp only [Bool.and_eq_true, Option.any_eq_true, bne_iff_ne, beq_iff_eq] at hp
  obtain ⟨⟨hclaim, row, hrow, htwo⟩, t, ht, hne⟩ := hp
  obtain ⟨c, hc⟩ := Option.isSome_iff_exists.mp hclaim
  rcases h .default Settings.default_validated s t _ _ _ _ _ c hs ht rfl hc with hsame | hcur
  · exact hne hsame
  · obtain ⟨row', hrow', _, htotal⟩ := hcur
    obtain rfl : row = row' := Option.some.inj (hrow.symm.trans hrow')
    have hone := (Service.claim?_eq_some hc).2.2
    omega

end LeadQueue
