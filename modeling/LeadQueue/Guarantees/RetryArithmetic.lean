import LeadQueue.Life.Invariant

/-!
# Recording a failure and the range of a double

The ceiling of the delay is applied to the finished exponential, and the delay
is computed for the last attempt of a budget too, where nothing uses it. So a
failure can be recorded only while `retry_factor ** (attempts_made - 1)` is a
double. A delay also has to fit a `timedelta`. The settings bound neither.
-/

namespace LeadQueue

open Relational Transition

/-! ## The longest delay -/

theorem longestDelay_nonneg (n : ℕ) (settings : Settings) : 0 ≤ longestDelay n settings :=
  le_max_of_le_left (by unfold minDelaySeconds; norm_num)

theorem longestDelay_mono {m n : ℕ} (settings : Settings) (h : m ≤ n) :
    longestDelay m settings ≤ longestDelay n settings := by
  have hratio := settings.retryJitterRatio_nonneg
  apply max_le_max_left
  apply mul_le_mul_of_nonneg_left (cappedDelay_mono settings h)
  linarith

/-- The far end of `random.random()`. -/
def fullJitter : Draw := ⟨1, by decide +kernel, by decide +kernel⟩

/-- The jitter can reach the longest delay. -/
theorem nextDelaySeconds_fullJitter {n : ℕ} {settings : Settings} (hpos : 1 ≤ n)
    (hrange : InRange n settings) :
    nextDelaySeconds n settings fullJitter = .ok (longestDelay n settings) := by
  rw [nextDelaySeconds, baseDelaySeconds_eq_ok_iff.mpr ⟨hpos, hrange, rfl⟩]
  apply congrArg Except.ok
  apply congrArg (max minDelaySeconds)
  split
  · unfold uniform fullJitter
    ring
  · rename_i hzero
    rw [not_not.mp hzero, add_zero, one_mul]

/-- The longest delay of the schedule is at most 999999999 days. -/
def DelaysFit (settings : Settings) : Prop :=
  micros (longestDelay settings.retryMaxAttempts settings) / microsPerDay ≤ 999999999

theorem timedelta_isOk_iff {seconds : ℚ} (h : 0 ≤ seconds) :
    (∃ d, timedelta seconds = .ok d) ↔ micros seconds / microsPerDay ≤ 999999999 := by
  have hdays : 0 ≤ micros seconds / microsPerDay :=
    Int.ediv_nonneg (micros_nonneg h) (by decide)
  rw [timedelta, abs_of_nonneg hdays]
  split <;> simp_all

/-- No draw after any attempt of the budget exceeds the longest delay. -/
theorem DelaysFit.timedelta {settings : Settings} (h : DelaysFit settings) {n : ℕ}
    (hn : n ≤ settings.retryMaxAttempts) {draw : Draw} {seconds : ℚ}
    (hseconds : nextDelaySeconds n settings draw = .ok seconds) :
    ∃ d, timedelta seconds = .ok d := by
  obtain ⟨_, hlow, hhigh⟩ := nextDelaySeconds_mem hseconds
  have hnonneg : 0 ≤ seconds := by
    have hmin : minDelaySeconds ≤ shortestDelay n settings := le_max_left _ _
    unfold minDelaySeconds at hmin
    linarith
  have hle := micros_mono (hhigh.trans (longestDelay_mono settings hn))
  exact (timedelta_isOk_iff hnonneg).mpr ((Int.ediv_le_ediv (by decide) hle).trans h)

/-! ## The failure branch -/

/-- The failure branch returns when the delay can be computed and the excerpt
can be stored. -/
theorem recordFailure_isOk_iff {settings : Settings} {workerId : WorkerId}
    {claim : ClaimedDelivery} {result : AttemptResult} {excerpt : Option PyStr} {draw : Draw}
    {now : Instant} {db : Database} :
    (∃ r, recordFailure settings workerId claim result excerpt draw now db = .ok r) ↔
      (∃ seconds delay, nextDelaySeconds claim.budgetAttempt settings draw = .ok seconds ∧
        timedelta seconds = .ok delay) ∧ ∃ text, textParam? excerpt = .ok text := by
  simp only [recordFailure, Fallible.bind_eq_ok_iff, Fallible.pure_eq_ok_iff]
  constructor
  · rintro ⟨_, seconds, hseconds, delay, hdelay, text, htext, _⟩
    exact ⟨⟨seconds, delay, hseconds, hdelay⟩, text, htext⟩
  · rintro ⟨⟨seconds, delay, hseconds, hdelay⟩, text, htext⟩
    exact ⟨_, seconds, hseconds, delay, hdelay, text, htext, rfl⟩

/-- The row is failed, or waits for the date that was scheduled. -/
def Resolved (scheduled : Option Instant) (row : Delivery) : Prop :=
  (row.status = .failed ∧ scheduled = none) ∨
    (row.status = .pending ∧ scheduled = some row.nextAttemptAt)

/-- A row that the worker holds is resolved by the branch. -/
theorem recordFailure_resolves {settings : Settings} {workerId : WorkerId}
    {claim : ClaimedDelivery} {result : AttemptResult} {excerpt : Option PyStr} {draw : Draw}
    {now : Instant} {db db' : Database} {scheduled : Option Instant} {row : Delivery}
    (h : recordFailure settings workerId claim result excerpt draw now db = .ok (db', scheduled))
    (hrow : db.deliveries.get? claim.deliveryId = some row)
    (hheld : heldBy claim.deliveryId workerId row = true) :
    ∃ row', db'.deliveries.get? claim.deliveryId = some row' ∧ Resolved scheduled row' := by
  unfold recordFailure at h
  obtain ⟨seconds, _, h⟩ := Fallible.bind_eq_ok_iff.mp h
  obtain ⟨delay, _, h⟩ := Fallible.bind_eq_ok_iff.mp h
  obtain ⟨lastError, _, h⟩ := Fallible.bind_eq_ok_iff.mp h
  obtain ⟨hdb, hscheduled⟩ := Prod.mk.inj (Fallible.pure_eq_ok_iff.mp h)
  rw [hdb] at hscheduled
  have hget : db'.deliveries.get? claim.deliveryId = some
      (failedRow result lastError (isExhausted claim.budgetAttempt settings) delay now row) := by
    rw [← hdb]
    refine (db.get?_updateDeliveries now _ (markFailure result lastError _ delay now)
      (fun _ => rfl) _).trans ?_
    rw [hrow, Option.map_some, if_pos hheld]
    rfl
  refine ⟨_, hget, ?_⟩
  rw [← hscheduled, hget, hrow, Option.any_some, if_pos hheld]
  cases isExhausted claim.budgetAttempt settings with
  | true => exact Or.inl ⟨rfl, rfl⟩
  | false => exact Or.inr ⟨rfl, rfl⟩

/-! ## Every failure of a budget -/

/-- No attempt of a budget leads out of the range of the arithmetic: the powers
are doubles, the delays and the window can be computed, and the record of a
failure whose excerpt can be stored returns and resolves the row. -/
structure RecordsEveryFailure (settings : Settings) : Prop where
  power : ∀ n, 1 ≤ n → n ≤ settings.retryMaxAttempts →
    settings.retryFactor ^ (n - 1) < 2 ^ 1024
  delay : ∀ n draw, 1 ≤ n → n ≤ settings.retryMaxAttempts →
    ∃ seconds, nextDelaySeconds n settings draw = .ok seconds
  window : ∃ window, totalRetryWindow settings = .ok window
  record : ∀ workerId (claim : ClaimedDelivery) result excerpt draw now db,
    1 ≤ claim.budgetAttempt → claim.budgetAttempt ≤ settings.retryMaxAttempts →
    (∃ text, textParam? excerpt = .ok text) →
    ∃ db' scheduled,
      recordFailure settings workerId claim result excerpt draw now db = .ok (db', scheduled) ∧
      ∀ row, db.deliveries.get? claim.deliveryId = some row →
        heldBy claim.deliveryId workerId row = true →
        ∃ row', db'.deliveries.get? claim.deliveryId = some row' ∧ Resolved scheduled row'

theorem RecordsEveryFailure.of_inRange {settings : Settings}
    (hrange : InRange settings.retryMaxAttempts settings) (hfit : DelaysFit settings) :
    RecordsEveryFailure settings where
  power n _ hn := hrange.of_le hn
  delay n draw hpos hn := nextDelaySeconds_isOk_iff.mpr ⟨hpos, hrange.of_le hn⟩
  window := ⟨_, totalRetryWindow_eq_ok_iff.mpr ⟨hrange.of_le (Nat.sub_le _ 1), rfl⟩⟩
  record workerId claim result excerpt draw now db hpos hn htext := by
    obtain ⟨seconds, hseconds⟩ :
        ∃ seconds, nextDelaySeconds claim.budgetAttempt settings draw = .ok seconds :=
      nextDelaySeconds_isOk_iff.mpr ⟨hpos, hrange.of_le hn⟩
    obtain ⟨delay, hdelay⟩ := hfit.timedelta hn hseconds
    obtain ⟨⟨db', scheduled⟩, hrecord⟩ :
        ∃ r, recordFailure settings workerId claim result excerpt draw now db = .ok r :=
      recordFailure_isOk_iff.mpr ⟨⟨seconds, delay, hseconds, hdelay⟩, htext⟩
    exact ⟨db', scheduled, hrecord, fun row => recordFailure_resolves hrecord⟩

/-- Some claim is of the `n`-th attempt of a budget. -/
theorem ClaimedDelivery.exists_budgetAttempt (n : ℕ) :
    ∃ claim : ClaimedDelivery, claim.budgetAttempt = n :=
  ⟨⟨0, 0, none, Move.workerA, Move.workerA, n, n, Move.workerA, Move.workerA, 0, ⟨.null, rfl⟩⟩,
    rfl⟩

/-- The arithmetic of every failure stays in range exactly when the exponential
of the last attempt is a double and the longest delay a `timedelta`. -/
theorem records_every_failure_iff (settings : Settings) : RecordsEveryFailure settings ↔
    settings.retryFactor ^ (settings.retryMaxAttempts - 1) < 2 ^ 1024 ∧
      micros (max minDelaySeconds ((1 + settings.retryJitterRatio) *
        min (settings.retryBaseSeconds *
          settings.retryFactor ^ (settings.retryMaxAttempts - 1)) settings.retryCapSeconds)) /
        microsPerDay ≤ 999999999 := by
  have hpos := settings.retryMaxAttempts_pos
  constructor
  · intro h
    have hrange : InRange settings.retryMaxAttempts settings := h.power _ hpos le_rfl
    refine ⟨hrange, (timedelta_isOk_iff (longestDelay_nonneg _ settings)).mp ?_⟩
    -- the last failure of a budget with the whole jitter
    obtain ⟨claim, hclaim⟩ := ClaimedDelivery.exists_budgetAttempt settings.retryMaxAttempts
    obtain ⟨db', scheduled, hrecord, _⟩ := h.record Move.workerA claim Move.timedOut none
      fullJitter 0 .empty (hclaim ▸ hpos) hclaim.le ⟨none, rfl⟩
    obtain ⟨⟨seconds, delay, hseconds, hdelay⟩, _⟩ := recordFailure_isOk_iff.mp ⟨_, hrecord⟩
    rw [hclaim] at hseconds
    obtain rfl : longestDelay settings.retryMaxAttempts settings = seconds :=
      Except.ok.inj ((nextDelaySeconds_fullJitter hpos hrange).symm.trans hseconds)
    exact ⟨delay, hdelay⟩
  · rintro ⟨hrange, hfit⟩
    exact .of_inRange hrange hfit

/-- A failure whose exponential is out of range is not recorded in any state, so
only a takeover of its lease or a manual retry moves the row on. -/
theorem step_record_eq_none {settings : Settings} {s : Service} {id : DeliveryId} {n : ℕ}
    {c : Claim} {result : AttemptResult} {draw : Draw} {now : Instant}
    (hc : s.claim? id n = some c) (hs : result.succeeded = false)
    (hrange : ¬ InRange c.delivery.budgetAttempt settings) :
    Service.step settings s (.record id n result draw now) = none := by
  cases hstep : Service.step settings s (.record id n result draw now) with
  | none => rfl
  | some t =>
      obtain ⟨_, _, c', db, hc', hrecord, _⟩ := Service.step_record.mp hstep
      obtain rfl : c = c' := Option.some.inj (hc.symm.trans hc')
      obtain ⟨_, _, _, hspec⟩ := recordResult_failure hs hrecord
      obtain ⟨seconds, hseconds, _⟩ := hspec.delay_eq
      exact absurd (nextDelaySeconds_mem hseconds).1 hrange

namespace RetryArithmetic

/-- The default schedule with a budget of 1025 attempts. -/
def longBudget : Settings :=
  { Settings.default with retryMaxAttempts := 1025, retryMaxAttempts_pos := by decide }

end RetryArithmetic

/-- After 1025 attempts the factor 2 is raised to 1024. -/
theorem last_failure_overflows :
    ¬ ∀ settings : Settings, settings.Validated → RecordsEveryFailure settings := by
  intro h
  have hall := h RetryArithmetic.longBudget (by decide +kernel)
  exact absurd (hall.power 1025 (by decide) le_rfl) (lt_irrefl _)

end LeadQueue
