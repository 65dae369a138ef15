import LeadQueue.Library.Fallible
import LeadQueue.Settings

/-!
# Retry schedule

Exponential backoff with a ceiling and proportional jitter. The exponential is
computed before the ceiling is applied, so it can leave the range of a double.
-/

namespace LeadQueue

/-- No retry is scheduled closer than this. -/
def minDelaySeconds : ℚ := 1 / 2

/-- A value of `random.random()`; rounding in `uniform` may reach the far end. -/
structure Draw where
  value : ℚ
  nonneg : 0 ≤ value
  le_one : value ≤ 1

def baseDelaySeconds (attemptsMade : ℕ) (settings : Settings) : Except Raised ℚ := do
  if attemptsMade < 1 then throw .valueError
  let power ← floatPow settings.retryFactor (attemptsMade - 1)
  return min (settings.retryBaseSeconds * power) settings.retryCapSeconds

def nextDelaySeconds (attemptsMade : ℕ) (settings : Settings) (draw : Draw) :
    Except Raised ℚ := do
  let delay ← baseDelaySeconds attemptsMade settings
  let spread := delay * settings.retryJitterRatio
  let jittered :=
    if settings.retryJitterRatio ≠ 0 then delay + uniform (-spread) spread draw.value else delay
  return max minDelaySeconds jittered

theorem baseDelaySeconds_mem {n : ℕ} {settings : Settings} {delay : ℚ}
    (h : baseDelaySeconds n settings = .ok delay) :
    0 ≤ delay ∧ delay ≤ settings.retryCapSeconds := by
  unfold baseDelaySeconds at h
  split at h
  · cases h
  · obtain ⟨power, hpower, h⟩ := Fallible.bind_eq_ok_iff.mp h
    cases h
    have hpos : 0 ≤ power := by
      obtain rfl := eq_pow_of_floatPow hpower
      exact pow_nonneg (zero_le_one.trans settings.retryFactor_ge) _
    exact ⟨le_min (mul_nonneg settings.retryBaseSeconds_pos.le hpos)
      settings.retryCapSeconds_pos.le, min_le_right _ _⟩

/-- No retry is scheduled later than the ceiling with its whole jitter. -/
theorem nextDelaySeconds_le {n : ℕ} {settings : Settings} {draw : Draw} {seconds : ℚ}
    (h : nextDelaySeconds n settings draw = .ok seconds) :
    seconds ≤ max minDelaySeconds
      (settings.retryCapSeconds * (1 + settings.retryJitterRatio)) := by
  obtain ⟨delay, hdelay, h⟩ := Fallible.bind_eq_ok_iff.mp h
  cases h
  obtain ⟨hnonneg, hcap⟩ := baseDelaySeconds_mem hdelay
  have hratio := settings.retryJitterRatio_nonneg
  have hspread : 0 ≤ delay * settings.retryJitterRatio := mul_nonneg hnonneg hratio
  have hfull : delay + delay * settings.retryJitterRatio ≤
      settings.retryCapSeconds * (1 + settings.retryJitterRatio) := by
    rw [← mul_one_add]
    exact mul_le_mul_of_nonneg_right hcap (by linarith)
  apply max_le_max le_rfl
  split
  · -- a draw moves the delay by the spread at most
    have hdraw := mul_le_mul_of_nonneg_left draw.le_one hspread
    unfold uniform
    linarith
  · linarith

/-! ## The delay a failure leads to -/

/-- The exponential under its ceiling, wherever it stays in range. -/
def cappedDelay (attemptsMade : ℕ) (settings : Settings) : ℚ :=
  min (settings.retryBaseSeconds * settings.retryFactor ^ (attemptsMade - 1))
    settings.retryCapSeconds

theorem cappedDelay_pos (n : ℕ) (settings : Settings) : 0 < cappedDelay n settings := by
  have hfactor := zero_lt_one.trans_le settings.retryFactor_ge
  exact lt_min (mul_pos settings.retryBaseSeconds_pos (pow_pos hfactor _))
    settings.retryCapSeconds_pos

theorem cappedDelay_mono {m n : ℕ} (settings : Settings) (h : m ≤ n) :
    cappedDelay m settings ≤ cappedDelay n settings := by
  apply min_le_min_right
  apply mul_le_mul_of_nonneg_left _ settings.retryBaseSeconds_pos.le
  exact pow_le_pow_right₀ settings.retryFactor_ge (Nat.sub_le_sub_right h 1)

/-- The exponential of this attempt is a double. -/
def InRange (attemptsMade : ℕ) (settings : Settings) : Prop :=
  settings.retryFactor ^ (attemptsMade - 1) < 2 ^ 1024

instance (n : ℕ) (settings : Settings) : Decidable (InRange n settings) := by
  unfold InRange
  infer_instance

theorem InRange.of_le {m n : ℕ} {settings : Settings} (h : InRange n settings) (hle : m ≤ n) :
    InRange m settings :=
  (pow_le_pow_right₀ settings.retryFactor_ge (Nat.sub_le_sub_right hle 1)).trans_lt h

theorem floatPow_retryFactor_eq_ok_iff {settings : Settings} {k : ℕ} {power : ℚ} :
    floatPow settings.retryFactor k = .ok power ↔
      settings.retryFactor ^ k < 2 ^ 1024 ∧ power = settings.retryFactor ^ k := by
  have hpos : 0 ≤ settings.retryFactor ^ k :=
    pow_nonneg (zero_le_one.trans settings.retryFactor_ge) k
  rw [floatPow, abs_of_nonneg hpos]
  split
  · rename_i hlt
    simp [hlt, eq_comm]
  · rename_i hge
    simp [hge]

theorem baseDelaySeconds_eq_ok_iff {n : ℕ} {settings : Settings} {delay : ℚ} :
    baseDelaySeconds n settings = .ok delay ↔
      1 ≤ n ∧ InRange n settings ∧ delay = cappedDelay n settings := by
  unfold baseDelaySeconds
  split
  · rename_i hzero
    exact iff_of_false (fun h => by cases h) (by omega)
  · rename_i hpos
    simp only [Fallible.bind_eq_ok_iff, Fallible.pure_eq_ok_iff, floatPow_retryFactor_eq_ok_iff]
    constructor
    · rintro ⟨_, ⟨hrange, rfl⟩, rfl⟩
      exact ⟨by omega, hrange, rfl⟩
    · rintro ⟨_, hrange, rfl⟩
      exact ⟨_, ⟨hrange, rfl⟩, rfl⟩

/-- The shortest delay after so many attempts: the jitter is all spent downwards. -/
def shortestDelay (attemptsMade : ℕ) (settings : Settings) : ℚ :=
  max minDelaySeconds ((1 - settings.retryJitterRatio) * cappedDelay attemptsMade settings)

/-- The longest delay after so many attempts. -/
def longestDelay (attemptsMade : ℕ) (settings : Settings) : ℚ :=
  max minDelaySeconds ((1 + settings.retryJitterRatio) * cappedDelay attemptsMade settings)

/-- A draw stays between the two ends. -/
theorem uniform_mem {spread draw : ℚ} (hspread : 0 ≤ spread) (h₀ : 0 ≤ draw) (h₁ : draw ≤ 1) :
    -spread ≤ uniform (-spread) spread draw ∧ uniform (-spread) spread draw ≤ spread := by
  have hlow := mul_nonneg hspread h₀
  have hhigh := mul_le_mul_of_nonneg_left h₁ hspread
  unfold uniform
  constructor <;> linarith

theorem nextDelaySeconds_mem {n : ℕ} {settings : Settings} {draw : Draw} {seconds : ℚ}
    (h : nextDelaySeconds n settings draw = .ok seconds) :
    InRange n settings ∧ shortestDelay n settings ≤ seconds ∧
      seconds ≤ longestDelay n settings := by
  obtain ⟨delay, hdelay, h⟩ := Fallible.bind_eq_ok_iff.mp h
  cases h
  obtain ⟨_, hrange, rfl⟩ := baseDelaySeconds_eq_ok_iff.mp hdelay
  have hspread : 0 ≤ cappedDelay n settings * settings.retryJitterRatio :=
    mul_nonneg (cappedDelay_pos n settings).le settings.retryJitterRatio_nonneg
  refine ⟨hrange, max_le_max le_rfl ?_, max_le_max le_rfl ?_⟩
  all_goals
    obtain ⟨hlow, hhigh⟩ := uniform_mem hspread draw.nonneg draw.le_one
    split <;> linarith

/-- A delay can be computed exactly when the exponential is in range. -/
theorem nextDelaySeconds_isOk_iff {n : ℕ} {settings : Settings} {draw : Draw} :
    (∃ seconds, nextDelaySeconds n settings draw = .ok seconds) ↔ 1 ≤ n ∧ InRange n settings := by
  simp only [nextDelaySeconds, Fallible.bind_eq_ok_iff, Fallible.pure_eq_ok_iff,
    baseDelaySeconds_eq_ok_iff]
  constructor
  · rintro ⟨_, _, ⟨hpos, hrange, _⟩, _⟩
    exact ⟨hpos, hrange⟩
  · rintro ⟨hpos, hrange⟩
    exact ⟨_, _, ⟨hpos, hrange, rfl⟩, rfl⟩

/-! ## The whole schedule -/

/-- Total un-jittered time from the first attempt to the last one. -/
def totalRetryWindow (settings : Settings) : Except Raised ℚ := do
  let delays ← (List.range' 1 (settings.retryMaxAttempts - 1)).mapM (baseDelaySeconds · settings)
  return delays.sum

theorem inRange_zero (settings : Settings) : InRange 0 settings := by
  unfold InRange
  rw [pow_zero]
  exact one_lt_pow₀ one_lt_two (by decide)

/-- The delays of attempts 1 to `k` exist exactly when the last of them does. -/
theorem mapM_schedule_eq_ok_iff {settings : Settings} {k : ℕ} {delays : List ℚ} :
    (List.range' 1 k).mapM (baseDelaySeconds · settings) = .ok delays ↔
      InRange k settings ∧ delays = (List.range' 1 k).map (cappedDelay · settings) := by
  rw [Fallible.mapM_eq_ok_map_iff (p := fun n => 1 ≤ n ∧ InRange n settings)
    fun n value => by rw [baseDelaySeconds_eq_ok_iff, and_assoc]]
  apply and_congr_left'
  constructor
  · intro h
    rcases Nat.eq_zero_or_pos k with rfl | hpos
    · exact inRange_zero settings
    · exact (h k (List.mem_range'_1.mpr ⟨hpos, by omega⟩)).2
  · intro h n hn
    obtain ⟨hpos, hlt⟩ := List.mem_range'_1.mp hn
    exact ⟨hpos, h.of_le (by omega)⟩

theorem totalRetryWindow_eq_ok_iff {settings : Settings} {window : ℚ} :
    totalRetryWindow settings = .ok window ↔ InRange (settings.retryMaxAttempts - 1) settings ∧
      window =
        ((List.range' 1 (settings.retryMaxAttempts - 1)).map (cappedDelay · settings)).sum := by
  simp only [totalRetryWindow, Fallible.bind_eq_ok_iff, Fallible.pure_eq_ok_iff,
    mapM_schedule_eq_ok_iff]
  constructor
  · rintro ⟨_, ⟨hrange, rfl⟩, rfl⟩
    exact ⟨hrange, rfl⟩
  · rintro ⟨hrange, rfl⟩
    exact ⟨_, ⟨hrange, rfl⟩, rfl⟩

/-- True when the budget is spent and the delivery must go to `failed`. -/
def isExhausted (attemptsMade : ℕ) (settings : Settings) : Bool :=
  decide (settings.retryMaxAttempts ≤ attemptsMade)

@[simp] theorem isExhausted_eq_true {n : ℕ} {settings : Settings} :
    isExhausted n settings = true ↔ settings.retryMaxAttempts ≤ n := by
  simp [isExhausted]

@[simp] theorem isExhausted_eq_false {n : ℕ} {settings : Settings} :
    isExhausted n settings = false ↔ n < settings.retryMaxAttempts := by
  simp [isExhausted]

end LeadQueue
