import LeadQueue.Queue.Requeue
import Mathlib.Data.List.Infix

/-!
# `LIKE` and substrings

The bulk filter looks for a text by matching it between two `%`. That finds the
text itself as long as it has none of the three characters `LIKE` reads in its
own way, and otherwise it finds something else as well.
-/

namespace LeadQueue

namespace Like

def percent : CodePoint := 0x25

def underscore : CodePoint := 0x5f

def backslash : CodePoint := 0x5c

/-- None of the characters that are special in a pattern. -/
def Plain (s : PyStr) : Prop := ∀ c ∈ s, c ≠ percent ∧ c ≠ underscore ∧ c ≠ backslash

instance decidablePlain (s : PyStr) : Decidable (Plain s) := by unfold Plain; infer_instance

theorem plain_cons {c : CodePoint} {s : PyStr} :
    Plain (c :: s) ↔ (c ≠ percent ∧ c ≠ underscore ∧ c ≠ backslash) ∧ Plain s :=
  List.forall_mem_cons

/-! ## One pattern character -/

theorem like_nil (u : PyStr) : like [] u = u.isEmpty := by rw [like.eq_def]

theorem like_percent {ps u : PyStr} :
    like (percent :: ps) u = true ↔ ∃ t, t <:+ u ∧ like ps t = true := by
  rw [like.eq_def]
  show (if percent = percent then _ else _) = true ↔ _
  rw [if_pos rfl, List.any_eq_true]
  simp only [List.mem_tails]

theorem like_escape {c : CodePoint} {ps u : PyStr} :
    like (backslash :: c :: ps) (c :: u) = like ps u := by
  rw [like.eq_def]
  simp [backslash]

theorem like_underscore {c : CodePoint} {ps u : PyStr} :
    like (underscore :: ps) (c :: u) = like ps u := by
  rw [like.eq_def]
  simp [underscore]

theorem like_plain {p : CodePoint} (hpercent : p ≠ percent) (hunder : p ≠ underscore)
    (hescape : p ≠ backslash) {ps u : PyStr} :
    like (p :: ps) u = true ↔ ∃ t, u = p :: t ∧ like ps t = true := by
  cases u with
  | nil =>
      rw [like.eq_def]
      show (if p = percent then _ else _) = true ↔ _
      rw [if_neg hpercent]
      simp
  | cons c t =>
      rw [like.eq_def]
      show (if p = percent then _ else if p = backslash then _ else _) = true ↔ _
      rw [if_neg hpercent, if_neg hescape, Bool.and_eq_true, Bool.or_eq_true]
      constructor
      · rintro ⟨hp | hp, hrest⟩
        · exact absurd (eq_of_beq hp) hunder
        · exact ⟨t, by rw [eq_of_beq hp], hrest⟩
      · rintro ⟨t', heq, hrest⟩
        obtain ⟨rfl, rfl⟩ := List.cons.inj heq
        exact ⟨Or.inr (beq_self_eq_true c), hrest⟩

/-! ## Plain texts -/

/-- A plain text before a final `%` is a prefix. -/
theorem like_plain_percent {s : PyStr} (hs : Plain s) {u : PyStr} :
    like (s ++ [percent]) u = true ↔ s <+: u := by
  induction s generalizing u with
  | nil =>
      rw [List.nil_append, like_percent]
      exact iff_of_true ⟨[], List.nil_suffix, by rw [like_nil]; rfl⟩ List.nil_prefix
  | cons c s ih =>
      obtain ⟨⟨hpercent, hunder, hescape⟩, hrest⟩ := plain_cons.mp hs
      rw [List.cons_append, like_plain hpercent hunder hescape]
      constructor
      · rintro ⟨t, rfl, ht⟩
        exact List.cons_prefix_cons.mpr ⟨rfl, (ih hrest).mp ht⟩
      · intro hprefix
        obtain ⟨t, rfl, ht⟩ := List.cons_prefix_iff.mp hprefix
        exact ⟨t, rfl, (ih hrest).mpr ht⟩

/-- A plain text between two `%` is a substring. -/
theorem like_plain_iff_isInfix {s : PyStr} (hs : Plain s) {u : PyStr} :
    like ([percent] ++ s ++ [percent]) u = true ↔ s <:+: u := by
  rw [List.append_assoc, List.singleton_append, like_percent, List.infix_iff_prefix_suffix]
  constructor
  · rintro ⟨t, ht, hlike⟩
    exact ⟨t, (like_plain_percent hs).mp hlike, ht⟩
  · rintro ⟨t, hprefix, ht⟩
    exact ⟨t, ht, (like_plain_percent hs).mpr hprefix⟩

/-! ## Other texts -/

/-- A text the pattern matches: nothing for `%`, a letter for `_`, and the
character itself after a `\`. -/
def sample : PyStr → PyStr
  | [] => []
  | p :: ps =>
      if p = percent then sample ps
      else if p = underscore then 0x61 :: sample ps
      else if p = backslash then
        match ps with
        | [] => [percent]
        | c :: cs => c :: sample cs
      else p :: sample ps

theorem like_sample (s : PyStr) : like (s ++ [percent]) (sample s) = true := by
  fun_induction sample s with
  | case1 => exact (like_plain_percent (List.forall_mem_nil _)).mpr List.nil_prefix
  | case2 ps ih => exact like_percent.mpr ⟨sample ps, List.suffix_rfl, ih⟩
  | case3 ps _ ih => exact like_underscore.trans ih
  | case4 => exact like_escape.trans (like_nil [])
  | case5 c cs _ _ ih => exact like_escape.trans ih
  | case6 p ps hpercent hunder hescape ih =>
      exact (like_plain hpercent hunder hescape).mpr ⟨sample ps, rfl, ih⟩

theorem length_sample_le (s : PyStr) : (sample s).length ≤ s.length := by
  fun_induction sample s with
  | case1 => exact le_rfl
  | case2 ps ih => exact ih.trans (Nat.le_succ _)
  | case3 ps _ ih => exact Nat.succ_le_succ ih
  | case4 => exact le_rfl
  | case5 c cs _ _ ih => exact Nat.succ_le_succ (ih.trans (Nat.le_succ _))
  | case6 p ps _ _ _ ih => exact Nat.succ_le_succ ih

/-- Only a plain text is its own sample: each special character is lost or
becomes another one. -/
theorem plain_of_sample_eq {s : PyStr} (h : sample s = s) : Plain s := by
  fun_induction sample s with
  | case1 => exact List.forall_mem_nil _
  | case2 ps ih =>
      have hlen := length_sample_le ps
      rw [h, List.length_cons] at hlen
      omega
  | case3 ps hne ih => cases (List.cons.inj h).1
  | case4 => cases (List.cons.inj h).1
  | case5 c cs _ _ ih =>
      have hlen := length_sample_le cs
      rw [(List.cons.inj h).2, List.length_cons] at hlen
      omega
  | case6 p ps hpercent hunder hescape ih =>
      exact plain_cons.mpr ⟨⟨hpercent, hunder, hescape⟩, ih (List.cons.inj h).2⟩

/-- A text that is not plain finds a text it is no part of. -/
theorem exists_like_not_isInfix {s : PyStr} (hs : ¬ Plain s) :
    like ([percent] ++ s ++ [percent]) (sample s) = true ∧ ¬ s <:+: sample s := by
  constructor
  · rw [List.append_assoc, List.singleton_append]
    exact like_percent.mpr ⟨sample s, List.suffix_rfl, like_sample s⟩
  · intro hpart
    exact hs (plain_of_sample_eq (hpart.eq_of_length_le (length_sample_le s)).symm)

/-- No character comes in that a column cannot hold. -/
theorem noNul_sample {s : PyStr} (hs : (0 : CodePoint) ∉ s) : (0 : CodePoint) ∉ sample s := by
  fun_induction sample s with
  | case1 => exact hs
  | case2 ps ih => exact ih (List.not_mem_of_not_mem_cons hs)
  | case3 ps _ ih =>
      exact List.not_mem_cons_of_ne_of_not_mem (by decide) (ih (List.not_mem_of_not_mem_cons hs))
  | case4 => decide
  | case5 c cs _ _ ih =>
      have hrest := List.not_mem_of_not_mem_cons hs
      exact List.not_mem_cons_of_ne_of_not_mem (List.ne_of_not_mem_cons hrest)
        (ih (List.not_mem_of_not_mem_cons hrest))
  | case6 p ps _ _ _ ih =>
      exact List.not_mem_cons_of_ne_of_not_mem (List.ne_of_not_mem_cons hs)
        (ih (List.not_mem_of_not_mem_cons hs))

end Like

end LeadQueue
