import LeadQueue.Life.Invariant

/-!
# The attempt budget

The counter grows when a delivery is claimed, the budget is tested when a
failure is recorded. A reclaim records nothing, so the bound holds exactly as
long as no lease of a last attempt runs out unrecorded, and no late failure of
an earlier claim puts a row back whose last attempt is under way.
-/

namespace LeadQueue

open Relational Transition

namespace Life

/-- Neither is the last attempt of a budget taken over after its lease expired,
nor does an earlier claim's failure, by the same worker id, release it. -/
def KeepsBudget (settings : Settings) (l : Life) : Event → Prop
  | .claim _ _ => l.row.status = .inFlight → l.row.attempts ≠ settings.retryMaxAttempts
  | .record n result _ _ => ∀ c ∈ l.claims n,
      result.succeeded = false → isExhausted c.delivery.budgetAttempt settings = false →
      l.row.status = .inFlight → l.row.lockedBy = some c.workerId → n ≠ l.row.totalAttempts →
      l.row.attempts ≠ settings.retryMaxAttempts
  | _ => True

instance (settings : Settings) (l : Life) (d : Event) : Decidable (l.KeepsBudget settings d) :=
  match d with
  | .claim _ _ | .record _ _ _ _ => by unfold KeepsBudget; infer_instance
  | .advance _ | .requeue _ => .isTrue trivial

/-- A row that waits for its next attempt still has budget. -/
structure InBudget (settings : Settings) (l : Life) : Prop where
  attempts_le : l.row.attempts ≤ settings.retryMaxAttempts
  pending_lt : l.row.status = .pending → l.row.attempts < settings.retryMaxAttempts

theorem InBudget.of_starts {settings : Settings} {l : Life} (h : l.Starts) :
    l.InBudget settings := by
  obtain ⟨now, requestId, id, r, _, hrow, _⟩ := h
  have hattempts : l.row.attempts = 0 := by rw [hrow]; rfl
  exact ⟨by omega, fun _ => hattempts ▸ settings.retryMaxAttempts_pos⟩

theorem InBudget.claimed {settings : Settings} {l : Life} {workerId : WorkerId} {now : Instant}
    {request : Request} {lost : Option Attempt} (h : l.InBudget settings)
    (hok : l.KeepsBudget settings (.claim workerId now)) (hdue : l.row.due now = true) :
    InBudget settings (l.claimed settings workerId now request lost) := by
  have hlt : l.row.attempts < settings.retryMaxAttempts := by
    rcases (Delivery.due_iff.mp hdue).1 with hst | hst
    · exact h.pending_lt hst
    · exact lt_of_le_of_ne h.attempts_le (hok hst)
  exact ⟨hlt, fun hst => by cases hst⟩

theorem InBudget.failed {settings : Settings} {l : Life} {n : ℕ} {c : Claim}
    {result : AttemptResult} {draw : Draw} {now : Instant} {lastError : Option PgText}
    {delay : Duration} {entry : Attempt} (h : l.InBudget settings) (hinv : l.Inv settings)
    (hok : l.KeepsBudget settings (.record n result draw now)) (hc : l.claims n = some c)
    (hs : result.succeeded = false) :
    InBudget settings
      (l.recorded n result (failureRow settings c result lastError delay now l.row) entry) := by
  have hattempts : (failureRow settings c result lastError delay now l.row).attempts =
      l.row.attempts := failureRow_attempts
  refine ⟨hattempts.trans_le h.attempts_le, fun hst => ?_⟩
  show (failureRow settings c result lastError delay now l.row).attempts < _
  change (failureRow settings c result lastError delay now l.row).status = .pending at hst
  rw [hattempts]
  rcases failureRow_cases with ⟨hlocked, hflight, heq⟩ | ⟨_, heq⟩
  · rw [heq, failedRow_status] at hst
    have hleft : isExhausted c.delivery.budgetAttempt settings = false := by
      cases hspent : isExhausted c.delivery.budgetAttempt settings with
      | true => simp [hspent] at hst
      | false => rfl
    by_cases hn : n = l.row.totalAttempts
    · subst hn
      obtain ⟨cur, hcur, hholds, _⟩ := hinv.held hflight
      obtain rfl : cur = c := Option.some.inj (hcur.symm.trans hc)
      rw [hholds.attempts]
      exact isExhausted_eq_false.mp hleft
    · exact lt_of_le_of_ne h.attempts_le (hok c hc hs hleft hflight hlocked hn)
  · rw [heq] at hst
    exact h.pending_lt hst

theorem InBudget.step {settings : Settings} {l l' : Life} {d : Event} (h : l.InBudget settings)
    (hinv : l.Inv settings) (hok : l.KeepsBudget settings d) (hstep : Step settings l d l') :
    l'.InBudget settings := by
  cases hstep with
  | advance _ => exact ⟨h.attempts_le, h.pending_lt⟩
  | claim _ hdue _ => exact h.claimed hok hdue
  | success _ _ _ _ _ =>
      refine ⟨(successRow_attempts _ _ _).trans_le h.attempts_le, fun hst => ?_⟩
      exact absurd ((successRow_status _ _ _).symm.trans hst) (by decide)
  | failure _ _ hc hs _ _ _ => exact h.failed hinv hok hc hs
  | requeue _ _ => exact ⟨Nat.zero_le _, fun _ => settings.retryMaxAttempts_pos⟩

end Life

theorem inBudget_of_reachable {settings : Settings} {l : Life}
    (h : (life settings).ReachableBy (Life.KeepsBudget settings) l) : l.InBudget settings := by
  induction h with
  | init h0 => exact .of_starts h0
  | step hs hok hst ih => exact ih.step (life_inv hs) hok hst

/-- In a run that takes over no spent budget and puts none back, every delivery
stays within its attempt budget. -/
theorem attempts_le_retryMaxAttempts {settings : Settings} {s : Service}
    (h : (service settings).ReachableBy (Service.Everywhere (Life.KeepsBudget settings)) s)
    {id : DeliveryId} {row : Delivery} (hrow : s.db.deliveries.get? id = some row) :
    row.attempts ≤ settings.retryMaxAttempts :=
  (inBudget_of_reachable
    (life_reachable h (Service.life_eq_some_iff.mpr ⟨row, hrow, rfl⟩))).attempts_le

namespace Budget

/-- One attempt for each budget. -/
def oneAttempt : Settings :=
  { Settings.default with retryMaxAttempts := 1, retryMaxAttempts_pos := Nat.one_pos }

/-- A worker that claims and dies, its lease running out, and the next worker. -/
def diesOnce : List (Service → Event) :=
  [Move.accept 0 Move.lead, Move.claim oneAttempt Move.workerA 1, Move.advance 100000000,
    Move.claim oneAttempt Move.workerB 1]

/-- The same lead when the budget has room for the second attempt. -/
def diesOnceOfTwo : List (Service → Event) :=
  [Move.accept 0 Move.lead, Move.claim .default Move.workerA 1, Move.advance 100000000,
    Move.claim .default Move.workerB 1]

end Budget

/-- A delivery that kills its worker is claimed again although its budget is
spent. -/
theorem attempts_exceed_retryMaxAttempts :
    ¬ ∀ settings : Settings, settings.Validated → ∀ s, (service settings).Reachable s →
      ∀ row ∈ s.db.deliveries.rows, row.attempts ≤ settings.retryMaxAttempts := by
  intro h
  obtain ⟨s, hs, hp⟩ := exists_reachable_of_moves Budget.oneAttempt Budget.diesOnce
    (fun s => s.db.deliveries.rows.any fun d => decide (1 < d.attempts)) (by decide +kernel)
  obtain ⟨row, hrow, hlt⟩ := List.any_eq_true.mp hp
  have hle := h Budget.oneAttempt (by decide +kernel) s hs row hrow
  exact absurd (of_decide_eq_true hlt) (not_lt.mpr hle)

/-- Two attempts, the first of them lost, leave the budget of 34 as it should be. -/
theorem attempts_le_retryMaxAttempts_diesOnce :
    ∃ s, (service .default).ReachableBy (Service.Everywhere (Life.KeepsBudget .default)) s ∧
      ∃ row, s.db.deliveries.get? Move.first = some row ∧ row.attempts = 2 ∧
        row.attempts ≤ Settings.default.retryMaxAttempts := by
  obtain ⟨s, hs, hp⟩ := exists_reachableBy_of_moves .default
    (Service.Everywhere (Life.KeepsBudget .default)) Budget.diesOnceOfTwo
    (fun s => (s.db.deliveries.get? Move.first).any fun d : Delivery => decide (d.attempts = 2))
    (by decide +kernel)
  obtain ⟨row, hrow, htwo⟩ := (Option.any_eq_true _ _).mp hp
  exact ⟨s, hs, row, hrow, of_decide_eq_true htwo, attempts_le_retryMaxAttempts hs hrow⟩

end LeadQueue
