import Mathlib.Algebra.Order.Floor.Ring
import Mathlib.Data.Int.Log
import Mathlib.Data.List.DropRight
import Mathlib.Data.Nat.Digits.Defs
import Mathlib.Data.Rat.Floor
import Mathlib.Tactic.Linarith
import Mathlib.Tactic.Positivity
import Mathlib.Tactic.Ring

/-!
# The Python values the service computes with

A `str` is a sequence of code points and may hold lone surrogates. Instants and
time spans are whole microseconds, the resolution of `datetime`, `timedelta`
and `timestamptz`. Floats are rationals; where the rounding of a double decides
a result it is written out (`float`).
-/

namespace LeadQueue

/-! ## Exceptions -/

/-- What makes an operation stop before it commits: the exceptions of the Python
code, and the two Postgres errors that the values of a statement can cause. -/
inductive Raised where
  | valueError
  | overflowError
  /-- A surrogate in a text that has to be UTF-8. -/
  | unicodeEncodeError
  /-- SQLSTATE 22003: a number does not fit the type it is cast to. -/
  | numericValueOutOfRange
  /-- SQLSTATE 22021: U+0000 in a text parameter. -/
  | characterNotInRepertoire
  /-- SQLSTATE 22P05: a jsonb parameter that jsonb cannot hold. -/
  | untranslatableJson
  /-- SQLSTATE 23505: a primary key that is taken. -/
  | uniqueViolation
deriving DecidableEq, Repr

/-! ## Strings -/

abbrev CodePoint := Fin 0x110000

instance CodePoint.neZero : NeZero 0x110000 := ⟨by decide⟩

instance CodePoint.lawfulBEq : LawfulBEq CodePoint := inferInstance

abbrev PyStr := List CodePoint

instance PyStr.lawfulBEq : LawfulBEq PyStr := inferInstance

namespace PyStr

def ofString (s : String) : PyStr := s.toList.map fun c => Fin.ofNat 0x110000 c.toNat

/-- `str.isspace` of one character. -/
def isSpace (c : CodePoint) : Bool :=
  (0x09 ≤ c.val && c.val ≤ 0x0d) || (0x1c ≤ c.val && c.val ≤ 0x20) || c.val == 0x85 ||
  c.val == 0xa0 || c.val == 0x1680 || (0x2000 ≤ c.val && c.val ≤ 0x200a) ||
  c.val == 0x2028 || c.val == 0x2029 || c.val == 0x202f || c.val == 0x205f || c.val == 0x3000

/-- `str.strip()`. -/
def strip (s : PyStr) : PyStr := (s.dropWhile isSpace).rdropWhile isSpace

/-- The ellipsis character `_truncate` appends. -/
def ellipsis : CodePoint := 0x2026

def digit (d : ℕ) : CodePoint := Fin.ofNat 0x110000 (if d < 10 then 0x30 + d else 0x57 + d)

/-- `str` of a natural number. -/
def ofNat (n : ℕ) : PyStr := if n = 0 then [digit 0] else (Nat.digits 10 n).reverse.map digit

/-- Characters of decimal and hexadecimal digits, the only ones `digit` gives
below sixteen. -/
theorem digit_val {d : ℕ} (h : d < 16) :
    (digit d).val = if d < 10 then 0x30 + d else 0x57 + d := by
  unfold digit
  split <;> simp [Fin.ofNat] <;> omega

theorem mem_ofNat {n : ℕ} {c : CodePoint} (h : c ∈ ofNat n) :
    0x30 ≤ c.val ∧ c.val < 0x3a := by
  have hdigit : ∃ d < 10, digit d = c := by
    unfold ofNat at h
    split at h
    · exact ⟨0, by omega, (List.mem_singleton.mp h).symm⟩
    · obtain ⟨d, hd, rfl⟩ := List.mem_map.mp h
      exact ⟨d, Nat.digits_lt_base (by omega) (List.mem_reverse.mp hd), rfl⟩
  obtain ⟨d, hd, rfl⟩ := hdigit
  rw [digit_val (by omega), if_pos hd]
  omega

/-- The digits can be read back. -/
theorem map_val_digit {ds : List ℕ} (h : ∀ d ∈ ds, d < 10) :
    (ds.map digit).map (fun c : CodePoint => c.val - 0x30) = ds := by
  rw [List.map_map]
  refine (List.map_congr_left fun d hd => ?_).trans (List.map_id ds)
  have hlt := h d hd
  show (digit d).val - 0x30 = d
  rw [digit_val (by omega), if_pos hlt]
  omega

theorem ofNat_eq_digits (n : ℕ) :
    ∃ ds : List ℕ, (∀ d ∈ ds, d < 10) ∧ Nat.ofDigits 10 ds.reverse = n ∧
      ofNat n = ds.map digit := by
  by_cases hn : n = 0
  · exact ⟨[0], by simp, by simp [hn], by simp [ofNat, hn]⟩
  · refine ⟨(Nat.digits 10 n).reverse, fun d hd => ?_, ?_, by simp [ofNat, hn]⟩
    · exact Nat.digits_lt_base (by omega) (List.mem_reverse.mp hd)
    · rw [List.reverse_reverse, Nat.ofDigits_digits]

theorem ofNat_injective : Function.Injective ofNat := by
  intro n m h
  obtain ⟨ds, hds, rfl, hn⟩ := ofNat_eq_digits n
  obtain ⟨es, hes, rfl, hm⟩ := ofNat_eq_digits m
  have hsame := congrArg (List.map fun c : CodePoint => c.val - 0x30) (hn.symm.trans (h.trans hm))
  rw [map_val_digit hds, map_val_digit hes] at hsame
  rw [hsame]

end PyStr

/-! ## UUIDs -/

abbrev Uuid := BitVec 128

instance Uuid.lawfulBEq : LawfulBEq Uuid := inferInstance

namespace Uuid

/-- Hexadecimal digit `i` of 32, the most significant first. -/
def hexDigit (u : Uuid) (i : ℕ) : CodePoint := PyStr.digit (u.toNat / 16 ^ (31 - i) % 16)

def hyphen : CodePoint := 0x2d

/-- `str(uuid)`: 8-4-4-4-12. -/
def str (u : Uuid) : PyStr :=
  let digits (start count : ℕ) : PyStr := (List.range' start count).map (hexDigit u)
  digits 0 8 ++ [hyphen] ++ digits 8 4 ++ [hyphen] ++ digits 12 4 ++ [hyphen] ++
    digits 16 4 ++ [hyphen] ++ digits 20 12

theorem mem_str {u : Uuid} {c : CodePoint} (h : c ∈ str u) :
    c = hyphen ∨ ∃ d < 16, c = PyStr.digit d := by
  have hdigits : ∀ start count, c ∈ (List.range' start count).map (hexDigit u) →
      c = hyphen ∨ ∃ d < 16, c = PyStr.digit d := by
    intro start count hc
    obtain ⟨i, _, rfl⟩ := List.mem_map.mp hc
    exact Or.inr ⟨_, Nat.mod_lt _ (by omega), rfl⟩
  simp only [str, List.mem_append, List.mem_singleton] at h
  rcases h with (((((((h | h) | h) | h) | h) | h) | h) | h) | h
  all_goals first | exact Or.inl h | exact hdigits _ _ h

theorem hexDigit_inj {u v : Uuid} {i : ℕ} (h : hexDigit u i = hexDigit v i) :
    u.toNat / 16 ^ (31 - i) % 16 = v.toNat / 16 ^ (31 - i) % 16 := by
  have hu : u.toNat / 16 ^ (31 - i) % 16 < 16 := Nat.mod_lt _ (by omega)
  have hv : v.toNat / 16 ^ (31 - i) % 16 < 16 := Nat.mod_lt _ (by omega)
  have hval := congrArg Fin.val h
  rw [hexDigit, hexDigit, PyStr.digit_val hu, PyStr.digit_val hv] at hval
  split at hval <;> split at hval <;> omega

/-- Numbers with the same `k` last digits agree modulo `16 ^ k`. -/
theorem mod_pow_eq_of_digits {a b k : ℕ} (h : ∀ i < k, a / 16 ^ i % 16 = b / 16 ^ i % 16) :
    a % 16 ^ k = b % 16 ^ k := by
  induction k with
  | zero => simp [Nat.mod_one]
  | succ k ih =>
      rw [Nat.mod_pow_succ, Nat.mod_pow_succ, ih fun i hi => h i (by omega), h k (by omega)]

theorem str_injective : Function.Injective str := by
  intro u v h
  -- the five groups, from the last
  simp only [str] at h
  obtain ⟨h, h₅⟩ := List.append_inj' h (by simp)
  obtain ⟨h, _⟩ := List.append_inj' h rfl
  obtain ⟨h, h₄⟩ := List.append_inj' h (by simp)
  obtain ⟨h, _⟩ := List.append_inj' h rfl
  obtain ⟨h, h₃⟩ := List.append_inj' h (by simp)
  obtain ⟨h, _⟩ := List.append_inj' h rfl
  obtain ⟨h, h₂⟩ := List.append_inj' h (by simp)
  obtain ⟨h₁, _⟩ := List.append_inj' h rfl
  rw [List.map_inj_left] at h₁ h₂ h₃ h₄ h₅
  simp only [List.mem_range'_1] at h₁ h₂ h₃ h₄ h₅
  have hdigit : ∀ i < 32, hexDigit u i = hexDigit v i := by
    intro i hi
    rcases Nat.lt_or_ge i 8 with h8 | h8
    · exact h₁ i (by omega)
    rcases Nat.lt_or_ge i 12 with h12 | h12
    · exact h₂ i (by omega)
    rcases Nat.lt_or_ge i 16 with h16 | h16
    · exact h₃ i (by omega)
    rcases Nat.lt_or_ge i 20 with h20 | h20
    · exact h₄ i (by omega)
    · exact h₅ i (by omega)
  have hmod : u.toNat % 16 ^ 32 = v.toNat % 16 ^ 32 := by
    apply mod_pow_eq_of_digits
    intro i hi
    have := hexDigit_inj (hdigit (31 - i) (by omega))
    rwa [show 31 - (31 - i) = i by omega] at this
  have hu := u.isLt
  have hv := v.isLt
  apply BitVec.eq_of_toNat_eq
  norm_num at hmod hu hv
  rwa [Nat.mod_eq_of_lt hu, Nat.mod_eq_of_lt hv] at hmod

end Uuid

/-! ## Numbers and time -/

/-- Microseconds since the epoch. -/
abbrev Instant := ℤ

/-- Microseconds. -/
abbrev Duration := ℤ

/-- Round to the nearest integer, ties to even. -/
def roundHalfEven (q : ℚ) : ℤ :=
  let r := q - ⌊q⌋
  if r < 1 / 2 then ⌊q⌋
  else if 1 / 2 < r then ⌊q⌋ + 1
  else if ⌊q⌋ % 2 = 0 then ⌊q⌋ else ⌊q⌋ + 1

theorem roundHalfEven_mem (q : ℚ) : ⌊q⌋ ≤ roundHalfEven q ∧ roundHalfEven q ≤ ⌊q⌋ + 1 := by
  unfold roundHalfEven
  dsimp only
  split
  · omega
  · split
    · omega
    · split <;> omega

theorem roundHalfEven_mono {p q : ℚ} (h : p ≤ q) : roundHalfEven p ≤ roundHalfEven q := by
  rcases (Int.floor_le_floor h).lt_or_eq with hlt | heq
  · calc roundHalfEven p ≤ ⌊p⌋ + 1 := (roundHalfEven_mem p).2
      _ ≤ ⌊q⌋ := hlt
      _ ≤ roundHalfEven q := (roundHalfEven_mem q).1
  · -- between the same integers: only the larger one may be past the middle
    have hfrac : p - ⌊q⌋ ≤ q - ⌊q⌋ := sub_le_sub_right h _
    unfold roundHalfEven
    rw [heq]
    dsimp only
    split
    · exact (roundHalfEven_mem q).1
    · split
      · rw [if_neg (by linarith), if_pos (by linarith)]
      · have hhalf : ¬ q - ⌊q⌋ < 1 / 2 := by linarith
        rw [if_neg hhalf]
        split_ifs <;> omega

/-- The double nearest to a rational in the normal range. -/
def float (q : ℚ) : ℚ :=
  if q = 0 then 0
  else
    let ulp : ℚ := 2 ^ (Int.log 2 |q| - 52)
    roundHalfEven (q / ulp) * ulp

theorem abs_roundHalfEven_sub_le (q : ℚ) : |(roundHalfEven q : ℚ) - q| ≤ 1 / 2 := by
  have hlo := Int.floor_le q
  have hhi := Int.lt_floor_add_one q
  rw [abs_le]
  unfold roundHalfEven
  dsimp only
  split
  · constructor <;> linarith
  · split
    · push_cast
      constructor <;> linarith
    · split <;> push_cast <;> constructor <;> linarith

/-- Rounding to a double changes a value by at most one part in 2^53. -/
theorem abs_float_sub_le (q : ℚ) : |float q - q| ≤ |q| / 2 ^ 53 := by
  unfold float
  split
  · rename_i hq
    simp [hq]
  · rename_i hq
    dsimp only
    set ulp : ℚ := 2 ^ (Int.log 2 |q| - 52) with hulp
    have hpos : 0 < ulp := zpow_pos (by norm_num) _
    have hle : ulp ≤ |q| / 2 ^ 52 := by
      have hlog : ((2 : ℕ) : ℚ) ^ Int.log 2 |q| ≤ |q| :=
        Int.zpow_log_le_self (by norm_num) (abs_pos.mpr hq)
      rw [hulp, zpow_sub₀ (by norm_num)]
      exact div_le_div_of_nonneg_right hlog (by positivity)
    have hround := abs_roundHalfEven_sub_le (q / ulp)
    calc |(roundHalfEven (q / ulp) : ℚ) * ulp - q|
        = |((roundHalfEven (q / ulp) : ℚ) - q / ulp) * ulp| := by
          rw [sub_mul, div_mul_cancel₀ q hpos.ne']
      _ = |(roundHalfEven (q / ulp) : ℚ) - q / ulp| * ulp := by
          rw [abs_mul, abs_of_pos hpos]
      _ ≤ 1 / 2 * (|q| / 2 ^ 52) := by gcongr
      _ = |q| / 2 ^ 53 := by ring

theorem float_le {q : ℚ} (h : 0 ≤ q) : float q ≤ q + q / 2 ^ 53 := by
  have := (abs_le.mp (abs_float_sub_le q)).2
  rw [abs_of_nonneg h] at this
  linarith

theorem le_float {q : ℚ} (h : 0 ≤ q) : q - q / 2 ^ 53 ≤ float q := by
  have := (abs_le.mp (abs_float_sub_le q)).1
  rw [abs_of_nonneg h] at this
  linarith

theorem float_nonpos {q : ℚ} (h : q ≤ 0) : float q ≤ 0 := by
  have := (abs_le.mp (abs_float_sub_le q)).2
  rw [abs_of_nonpos h] at this
  linarith

/-- `int(x)`: drop the fraction. -/
def floatToInt (q : ℚ) : ℤ := if 0 ≤ q then ⌊q⌋ else ⌈q⌉

/-- Microseconds in a day. -/
def microsPerDay : ℤ := 86400 * 1000000

/-- Seconds as whole microseconds. -/
def micros (seconds : ℚ) : Duration := roundHalfEven (seconds * 1000000)

theorem micros_nonneg {seconds : ℚ} (h : 0 ≤ seconds) : 0 ≤ micros seconds := by
  have hround := abs_le.mp (abs_roundHalfEven_sub_le (seconds * 1000000))
  have hlt : (-1 : ℚ) < (micros seconds : ℚ) := by
    unfold micros
    linarith [hround.1]
  have hlt : (-1 : ℤ) < micros seconds := by exact_mod_cast hlt
  exact Int.add_one_le_of_lt hlt

theorem micros_mono {a b : ℚ} (h : a ≤ b) : micros a ≤ micros b :=
  roundHalfEven_mono (mul_le_mul_of_nonneg_right h (by norm_num))

/-- `timedelta(seconds=x)`: `OverflowError` beyond 999999999 days. -/
def timedelta (seconds : ℚ) : Except Raised Duration :=
  if |micros seconds / microsPerDay| ≤ 999999999 then .ok (micros seconds)
  else .error .overflowError

theorem eq_micros_of_timedelta {seconds : ℚ} {d : Duration} (h : timedelta seconds = .ok d) :
    d = micros seconds := by
  unfold timedelta at h
  split at h
  · cases h; rfl
  · cases h

/-- `x ** n` on floats: `OverflowError` beyond the range of a double. -/
def floatPow (x : ℚ) (n : ℕ) : Except Raised ℚ :=
  if |x ^ n| < 2 ^ 1024 then .ok (x ^ n) else .error .overflowError

theorem eq_pow_of_floatPow {x power : ℚ} {n : ℕ} (h : floatPow x n = .ok power) :
    power = x ^ n := by
  unfold floatPow at h
  split at h
  · cases h
    rfl
  · cases h

/-- `random.uniform(a, b)` for a draw of `random.random()`. -/
def uniform (a b draw : ℚ) : ℚ := a + (b - a) * draw

end LeadQueue
