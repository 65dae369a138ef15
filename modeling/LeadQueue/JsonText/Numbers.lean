import LeadQueue.JsonText.Accepts
import Mathlib.Data.Nat.Digits.Lemmas

/-!
# The numbers Python writes

`str` of an `int` and `repr` of a finite float are numbers of standard JSON
(`NumberText`), and the reader takes such a number off the front of a text that
goes on with a comma or a closing bracket.
-/

namespace LeadQueue

namespace Jsonb

/-- Where the text of a value can end. -/
def Stops (rest : PyStr) : Prop := ∀ c ∈ rest.head?, c = 0x2c ∨ c = 0x5d ∨ c = 0x7d

/-- The text neither continues a run of digits nor begins a fraction. -/
def EndsInteger (t : PyStr) : Prop := ∀ c ∈ t.head?, isDigit c = false ∧ c ≠ 0x2e

theorem dropWhile_isDigit {ds t : PyStr} (hds : ∀ d ∈ ds, isDigit d = true)
    (ht : ∀ c ∈ t.head?, isDigit c = false) : (ds ++ t).dropWhile isDigit = t := by
  rw [List.dropWhile_append_of_pos hds]
  cases t with
  | nil => rfl
  | cons c t => rw [List.dropWhile_cons_of_neg (by simp [ht c rfl])]

theorem digits_append {d : CodePoint} {ds t : PyStr} (hd : isDigit d = true)
    (hds : ∀ d ∈ ds, isDigit d = true) (ht : ∀ c ∈ t.head?, isDigit c = false) :
    digits (d :: ds ++ t) = some t := by
  show (if isDigit d then some ((ds ++ t).dropWhile isDigit) else none) = some t
  rw [if_pos hd, dropWhile_isDigit hds ht]

/-- Digits without a leading zero. -/
inductive IntText : PyStr → Prop where
  | zero : IntText [0x30]
  | run {d : CodePoint} {ds : PyStr} : isDigit d = true → d ≠ 0x30 →
      (∀ d ∈ ds, isDigit d = true) → IntText (d :: ds)

inductive FractionText : PyStr → Prop where
  | none : FractionText []
  | some {d : CodePoint} {ds : PyStr} : isDigit d = true → (∀ d ∈ ds, isDigit d = true) →
      FractionText (0x2e :: d :: ds)

inductive ExponentText : PyStr → Prop where
  | none : ExponentText []
  | some {sign d : CodePoint} {ds : PyStr} : sign = 0x2b ∨ sign = 0x2d → isDigit d = true →
      (∀ d ∈ ds, isDigit d = true) → ExponentText (0x65 :: sign :: d :: ds)

theorem intPart_append {i t : PyStr} (hi : IntText i) (ht : ∀ c ∈ t.head?, isDigit c = false) :
    intPart (i ++ t) = some t := by
  cases hi with
  | zero => rfl
  | @run d ds hd hne hds =>
      show (if d = 0x30 then some (ds ++ t) else digits (d :: (ds ++ t))) = some t
      rw [if_neg hne]
      exact digits_append hd hds ht

theorem fraction_append {f t : PyStr} (hf : FractionText f) (ht : EndsInteger t) :
    fraction (f ++ t) = some t := by
  cases hf with
  | none =>
      cases t with
      | nil => rfl
      | cons c t => exact if_neg (ht c rfl).2
  | some hd hds => exact digits_append hd hds fun c hc => (ht c hc).1

theorem exponentPart_append {e rest : PyStr} (he : ExponentText e) (hrest : Stops rest) :
    exponentPart (e ++ rest) = some rest := by
  have hdigit : ∀ c ∈ rest.head?, isDigit c = false := by
    intro c hc
    rcases hrest c hc with rfl | rfl | rfl <;> rfl
  cases he with
  | none =>
      cases rest with
      | nil => rfl
      | cons c t =>
          apply if_neg
          rcases hrest c rfl with rfl | rfl | rfl <;> decide
  | @some sign d ds hsign hd hds =>
      show digits (if sign = 0x2b ∨ sign = 0x2d then d :: ds ++ rest else _) = some rest
      rw [if_pos hsign]
      exact digits_append hd hds hdigit

theorem endsInteger_exponent {e rest : PyStr} (he : ExponentText e) (hrest : Stops rest) :
    EndsInteger (e ++ rest) := by
  intro c hc
  cases he with
  | none =>
      rcases hrest c hc with rfl | rfl | rfl <;> decide
  | some =>
      obtain rfl : (0x65 : CodePoint) = c := by simpa using hc
      decide

inductive UnsignedText : PyStr → Prop where
  | mk {i f e : PyStr} : IntText i → FractionText f → ExponentText e → UnsignedText (i ++ (f ++ e))

inductive NumberText : PyStr → Prop where
  | positive {s : PyStr} : UnsignedText s → NumberText s
  | negative {s : PyStr} : UnsignedText s → NumberText (0x2d :: s)

theorem UnsignedText.head {s : PyStr} (h : UnsignedText s) :
    ∃ c t, s = c :: t ∧ isDigit c = true := by
  obtain ⟨hi, _, _⟩ := h
  cases hi with
  | zero => exact ⟨_, _, rfl, rfl⟩
  | run hd _ _ => exact ⟨_, _, rfl, hd⟩

theorem NumberText.head {s : PyStr} (h : NumberText s) :
    ∃ c t, s = c :: t ∧ (isDigit c = true ∨ c = 0x2d) := by
  cases h with
  | positive h =>
      obtain ⟨c, t, rfl, hc⟩ := h.head
      exact ⟨c, t, rfl, Or.inl hc⟩
  | negative h => exact ⟨_, _, rfl, Or.inr rfl⟩

/-- The parts of a number, read one after the other. -/
theorem UnsignedText.read {s rest : PyStr} (h : UnsignedText s) (hrest : Stops rest) :
    (do
      let t ← intPart (s ++ rest)
      let t ← fraction t
      exponentPart t) = some rest := by
  obtain ⟨hi, hf, he⟩ := h
  rename_i i f e
  have hends := endsInteger_exponent he hrest
  have hfirst : ∀ c ∈ (f ++ (e ++ rest)).head?, isDigit c = false := by
    intro c hc
    cases hf with
    | none => exact (hends c hc).1
    | some =>
        obtain rfl : (0x2e : CodePoint) = c := by simpa using hc
        rfl
  rw [List.append_assoc, List.append_assoc, intPart_append hi hfirst]
  show (fraction (f ++ (e ++ rest)) >>= exponentPart) = some rest
  rw [fraction_append hf hends]
  exact exponentPart_append he hrest

theorem NumberText.number {s rest : PyStr} (h : NumberText s) (hrest : Stops rest) :
    number (s ++ rest) = some rest := by
  cases h with
  | positive h =>
      obtain ⟨c, t, rfl, hc⟩ := h.head
      have hminus : (c :: t ++ rest).head? ≠ some 0x2d := by
        intro hminus
        obtain rfl := Option.some.inj hminus
        cases hc
      unfold Jsonb.number
      rw [if_neg hminus]
      exact h.read hrest
  | negative h => exact h.read hrest

/-! ## Integers and floats -/

theorem isDigit_digit {d : ℕ} (h : d < 10) : isDigit (PyStr.digit d) = true := by
  unfold isDigit
  rw [PyStr.digit_val (by omega), if_pos h]
  simp only [Bool.and_eq_true, decide_eq_true_eq]
  omega

theorem digit_ne_zero {d : ℕ} (h : d < 10) (hd : d ≠ 0) : PyStr.digit d ≠ 0x30 := by
  intro heq
  have hval := congrArg Fin.val heq
  rw [PyStr.digit_val (by omega), if_pos h] at hval
  change 0x30 + d = 0x30 at hval
  omega

/-- A positive number begins with a digit that is not zero. -/
theorem ofNat_pos {m : ℕ} (hm : m ≠ 0) : ∃ c ds, PyStr.ofNat m = c :: ds ∧ isDigit c = true ∧
    c ≠ 0x30 ∧ ∀ d ∈ ds, isDigit d = true := by
  have hlt : ∀ d ∈ (Nat.digits 10 m).reverse, d < 10 := fun d hd =>
    Nat.digits_lt_base (by omega) (List.mem_reverse.mp hd)
  have hnil : Nat.digits 10 m ≠ [] := Nat.digits_ne_nil_iff_ne_zero.mpr hm
  have hlast := Nat.getLast_digit_ne_zero 10 hm
  have hne : (Nat.digits 10 m).reverse ≠ [] := by simpa using hnil
  rw [← List.head_reverse hne] at hlast
  obtain ⟨d, ds, hds⟩ := List.exists_cons_of_ne_nil hne
  simp only [hds, List.head_cons] at hlast
  rw [hds] at hlt
  refine ⟨PyStr.digit d, ds.map PyStr.digit, ?_, ?_, ?_, ?_⟩
  · rw [PyStr.ofNat, if_neg hm, hds, List.map_cons]
  · exact isDigit_digit (hlt d List.mem_cons_self)
  · exact digit_ne_zero (hlt d List.mem_cons_self) hlast
  · intro c hc
    obtain ⟨e, he, rfl⟩ := List.mem_map.mp hc
    exact isDigit_digit (hlt e (List.mem_cons_of_mem _ he))

theorem intText_ofNat (n : ℕ) : IntText (PyStr.ofNat n) := by
  by_cases hn : n = 0
  · subst hn
    exact .zero
  · obtain ⟨c, ds, heq, hc, hne, hds⟩ := ofNat_pos hn
    rw [heq]
    exact .run hc hne hds

theorem ofNat_ne_nil (n : ℕ) : PyStr.ofNat n ≠ [] := by
  intro hnil
  have hint := intText_ofNat n
  rw [hnil] at hint
  cases hint

theorem numberText_ofInt (n : ℤ) : NumberText (PyStr.ofInt n) := by
  have h : UnsignedText (PyStr.ofNat n.natAbs) := by
    simpa using UnsignedText.mk (intText_ofNat n.natAbs) .none .none
  unfold PyStr.ofInt
  split
  · exact .negative h
  · exact .positive h

/-- The digits of a float: the first is not zero. -/
def Significant (digits : PyStr) : Prop :=
  ∃ c ds, digits = c :: ds ∧ isDigit c = true ∧ c ≠ 0x30 ∧ ∀ d ∈ ds, isDigit d = true

theorem Significant.digits {digits : PyStr} (h : Significant digits) :
    ∀ d ∈ digits, isDigit d = true := by
  obtain ⟨c, ds, rfl, hc, _, hds⟩ := h
  exact List.forall_mem_cons.mpr ⟨hc, hds⟩

theorem Significant.intText {digits zeros : PyStr} (h : Significant digits)
    (hzeros : ∀ d ∈ zeros, isDigit d = true) : IntText (digits ++ zeros) := by
  obtain ⟨c, ds, rfl, hc, hne, hds⟩ := h
  refine .run hc hne fun d hd => ?_
  rcases List.mem_append.mp hd with hd | hd
  · exact hds d hd
  · exact hzeros d hd

/-- A run of digits after the point. -/
theorem fractionText {ds : PyStr} (hne : ds ≠ []) (hds : ∀ d ∈ ds, isDigit d = true) :
    FractionText (0x2e :: ds) := by
  obtain ⟨d, ds, rfl⟩ := List.exists_cons_of_ne_nil hne
  rw [List.forall_mem_cons] at hds
  exact .some hds.1 hds.2

theorem exponentText (e : ℤ) : ExponentText (exponent e) := by
  have hall : ∀ d ∈ (if e.natAbs < 10 then [0x30] else []) ++ PyStr.ofNat e.natAbs,
      isDigit d = true := by
    intro d hd
    rcases List.mem_append.mp hd with hd | hd
    · split at hd
      · obtain rfl := List.mem_singleton.mp hd
        rfl
      · cases hd
    · obtain ⟨hlo, hhi⟩ := PyStr.mem_ofNat hd
      unfold isDigit
      simp only [Bool.and_eq_true, decide_eq_true_eq]
      omega
  have hne : (if e.natAbs < 10 then [0x30] else []) ++ PyStr.ofNat e.natAbs ≠ [] := by
    intro hnil
    exact ofNat_ne_nil _ (List.append_eq_nil_iff.mp hnil).2
  obtain ⟨d, ds, heq⟩ := List.exists_cons_of_ne_nil hne
  rw [exponent, List.append_assoc, heq]
  rw [heq, List.forall_mem_cons] at hall
  refine .some ?_ hall.1 hall.2
  split
  · exact Or.inr rfl
  · exact Or.inl rfl

theorem layout_unsigned {digits : PyStr} (h : Significant digits) (point : ℤ) :
    UnsignedText (layout digits point) := by
  have hzero : ∀ n, ∀ d ∈ List.replicate n (0x30 : CodePoint), isDigit d = true := by
    intro n d hd
    obtain rfl := List.eq_of_mem_replicate hd
    rfl
  have hnil : digits ≠ [] := by
    obtain ⟨c, ds, rfl, _⟩ := h
    exact List.cons_ne_nil _ _
  unfold layout
  split
  · split
    · -- 0.00012
      have hf : FractionText (0x2e :: (List.replicate point.natAbs 0x30 ++ digits)) :=
        fractionText (by simp [hnil]) fun d hd =>
          (List.mem_append.mp hd).elim (hzero _ d) (h.digits d)
      simpa using UnsignedText.mk .zero hf .none
    · split
      · -- 1200.0
        have hf : FractionText [0x2e, 0x30] := .some rfl (by simp)
        simpa using UnsignedText.mk (h.intText (hzero (point.toNat - digits.length))) hf .none
      · -- 1.2
        rename_i hpos hlong
        have hi : IntText (digits.take point.toNat) := by
          obtain ⟨c, ds, rfl, hc, hne, hds⟩ := h
          obtain ⟨k, hk⟩ : ∃ k, point.toNat = k + 1 := ⟨point.toNat - 1, by omega⟩
          rw [hk, List.take_succ_cons]
          exact .run hc hne fun d hd => hds d (List.mem_of_mem_take hd)
        have hf : FractionText (0x2e :: digits.drop point.toNat) :=
          fractionText (by simpa using hlong) fun d hd => h.digits d (List.mem_of_mem_drop hd)
        simpa using UnsignedText.mk hi hf .none
  · -- 1.2e+34
    obtain ⟨c, ds, rfl, hc, hne, hds⟩ := h
    have hi : IntText [c] := .run hc hne (by simp)
    have hf : FractionText (if (c :: ds).length ≤ 1 then [] else 0x2e :: (c :: ds).drop 1) := by
      split
      · exact .none
      · rename_i hlong
        refine fractionText ?_ hds
        rintro rfl
        exact hlong le_rfl
    have htext := UnsignedText.mk hi hf (exponentText (point - 1))
    rwa [← List.append_assoc] at htext

theorem shortestDecimal_ne_zero {q : ℚ} (hq : 0 < q) : (shortestDecimal q).1 ≠ 0 := by
  unfold shortestDecimal
  cases hfound : (List.range' 1 17).findSome? (decimal? q) with
  | none =>
      -- seventeen digits, rounded up
      have hpos : 0 < ⌈q / 10 ^ (Int.log 10 q - 16)⌉ :=
        Int.ceil_pos.mpr (div_pos hq (zpow_pos (by norm_num) _))
      show ⌈q / 10 ^ (Int.log 10 q - 16)⌉.natAbs ≠ 0
      omega
  | some found =>
      obtain ⟨p, _, hp⟩ := List.exists_of_findSome?_eq_some hfound
      obtain ⟨m, hm, rfl⟩ := Option.map_eq_some_iff.mp hp
      have hreads := List.find?_some hm
      rw [decide_eq_true_eq] at hreads
      show m.natAbs ≠ 0
      intro hzero
      rw [Int.natAbs_eq_zero.mp hzero] at hreads
      simp [nearestDouble] at hreads
      exact hq.ne hreads

/-- Without the zeros at its end a positive number still begins as it did. -/
theorem significant_ofNat {m : ℕ} (hm : m ≠ 0) :
    Significant ((PyStr.ofNat m).rdropWhile fun c => decide (c = 0x30)) := by
  obtain ⟨c, ds, heq, hc, hne, hds⟩ := ofNat_pos hm
  rw [heq]
  have hprefix := List.rdropWhile_prefix (fun c : CodePoint => decide (c = 0x30)) (c :: ds)
  generalize hkept : (c :: ds).rdropWhile (fun c => decide (c = 0x30)) = kept at hprefix
  cases kept with
  | nil =>
      have hall := List.rdropWhile_eq_nil_iff.mp hkept c List.mem_cons_self
      exact absurd (of_decide_eq_true hall) hne
  | cons e es =>
      obtain ⟨rfl, hes⟩ := List.cons_prefix_cons.mp hprefix
      exact ⟨e, es, rfl, hc, hne, fun d hd => hds d (hes.subset hd)⟩

theorem numberText_floatRepr (q : ℚ) : NumberText (floatRepr q) := by
  unfold floatRepr
  split
  · have hf : FractionText [0x2e, 0x30] := .some rfl (by simp)
    exact .positive (@UnsignedText.mk _ _ [] .zero hf .none)
  · rename_i hq
    have hdigits := significant_ofNat (shortestDecimal_ne_zero (abs_pos.mpr hq))
    have h := layout_unsigned hdigits
      ((PyStr.ofNat (shortestDecimal |q|).1).length + (shortestDecimal |q|).2)
    show NumberText ((if q < 0 then [0x2d] else []) ++ layout _ _)
    split
    · exact .negative h
    · exact .positive h

end Jsonb

end LeadQueue
