import Mathlib.Data.Finset.Card
import Mathlib.Data.List.Induction
import Mathlib.Data.List.Sort

/-!
# Ranks and prefixes of sorted lists

The rank of an element is the number of elements up to and including itself.
Whatever order equal keys are left in, a prefix of a sorted list holds every
element with few enough elements before or beside it; what a prefix consists of
is said by the elements that come before all others; and of a set that is
downward closed the ranks are the first numbers, each once.
-/

namespace Ranking

variable {α β : Type*} [LinearOrder β] {f : α → β} {l l' : List α}

/-! ## Prefixes -/

/-- What comes strictly before a member of a prefix is in it. -/
theorem mem_take_of_lt (hsorted : l.Pairwise fun a b => f a ≤ f b) {n : ℕ} {a b : α}
    (ha : a ∈ l.take n) (hb : b ∈ l) (hlt : f b < f a) : b ∈ l.take n := by
  rw [← List.take_append_drop n l, List.mem_append] at hb
  rcases hb with hb | hb
  · exact hb
  · rw [← List.take_append_drop n l, List.pairwise_append] at hsorted
    exact absurd (hsorted.2.2 a ha b hb) (not_le.mpr hlt)

/-- A member with at most `n` members before or beside it is among the first `n`. -/
theorem mem_take_of_countP_le (hsorted : l.Pairwise fun a b => f a ≤ f b) {n : ℕ} {a : α}
    (ha : a ∈ l) (hcount : l.countP (fun b => decide (f b ≤ f a)) ≤ n) : a ∈ l.take n := by
  have hsplit := List.take_append_drop n l
  by_contra hnot
  have hdrop : a ∈ l.drop n := by
    rw [← hsplit, List.mem_append] at ha
    exact ha.resolve_left hnot
  rw [← hsplit, List.pairwise_append] at hsorted
  -- the whole prefix is before `a`, and `a` comes after it
  have hall : (l.take n).countP (fun b => decide (f b ≤ f a)) = (l.take n).length := by
    rw [List.countP_eq_length]
    intro b hb
    exact decide_eq_true (hsorted.2.2 b hb a hdrop)
  have hself : 0 < (l.drop n).countP (fun b => decide (f b ≤ f a)) :=
    List.countP_pos_iff.mpr ⟨a, hdrop, decide_eq_true le_rfl⟩
  have hlong : n < l.length := by
    by_contra hshort
    rw [List.drop_eq_nil_of_le (not_lt.mp hshort)] at hdrop
    cases hdrop
  rw [← hsplit, List.countP_append, hall, List.length_take] at hcount
  omega

/-- Of two members of a list without repetitions, the one before the other is in
every split that ends with the other. -/
theorem mem_of_sublist_split {u v : List α} {a x : α} (hnodup : (u ++ a :: v).Nodup)
    (h : [x, a].Sublist (u ++ a :: v)) : x ∈ u := by
  have hafter : a ∉ v := (List.nodup_cons.mp (List.nodup_append.mp hnodup).2.1).1
  obtain ⟨l₁, l₂, hsplit, hl₁, hl₂⟩ := List.sublist_append_iff.mp h
  rcases l₁ with _ | ⟨y, l₁⟩
  · -- both would be in the tail, which has the other once only
    obtain rfl : l₂ = [x, a] := hsplit.symm
    rcases List.sublist_cons_iff.mp hl₂ with hv | ⟨r, hr, hv⟩
    · exact absurd (hv.subset (by simp)) hafter
    · obtain ⟨_, rfl⟩ := List.cons.inj hr
      exact absurd (hv.subset (by simp)) hafter
  · obtain ⟨rfl, _⟩ := List.cons.inj hsplit
    exact hl₁.subset List.mem_cons_self

/-- The order in which two members come has to be the one in which their keys come
in a longer list of keys. -/
theorem pair_sublist_iff {κ : Type*} {key : α → κ} {m : List κ} (hsub : (l.map key).Sublist m)
    (hnodup : m.Nodup) {a b : α} (ha : a ∈ l) (hb : b ∈ l) (hne : a ≠ b) :
    [a, b].Sublist l ↔ [key a, key b].Sublist m := by
  refine ⟨fun h => (h.map key).trans hsub, fun h => ?_⟩
  obtain ⟨u, v, rfl⟩ := List.append_of_mem hb
  rcases List.mem_append.mp ha with hu | hv
  · exact (List.singleton_sublist.mpr hu).append (List.singleton_sublist.mpr List.mem_cons_self)
  · -- the keys would come the other way round as well
    have hv := (List.mem_cons.mp hv).resolve_left hne
    have hafter : [key b, key a].Sublist m := by
      refine .trans ?_ hsub
      rw [List.map_append, List.map_cons]
      exact ((List.singleton_sublist.mpr (List.mem_map_of_mem hv)).cons_cons _).trans
        (List.sublist_append_right _ _)
    obtain ⟨u₁, v₁, rfl⟩ := List.append_of_mem (h.subset (List.mem_cons_of_mem _
      (List.mem_singleton_self (key b))))
    obtain ⟨u₂, v₂, rfl⟩ := List.append_of_mem (mem_of_sublist_split hnodup h)
    rw [List.append_assoc, List.cons_append] at hafter hnodup
    have hbefore := mem_of_sublist_split hnodup hafter
    exact absurd rfl ((List.nodup_append.mp hnodup).2.2 _ hbefore _ (by simp))

/-- The first `n` members all have a property exactly when `n` members have it
and come before every member that has not. -/
theorem forall_take_iff (hnodup : l.Nodup) {p : α → Prop} {n : ℕ} :
    (n ≤ l.length ∧ ∀ a ∈ l.take n, p a) ↔
      ∃ s : Finset α, s.card = n ∧
        ∀ a ∈ s, a ∈ l ∧ p a ∧ ∀ b ∈ l, ¬ p b → [a, b].Sublist l := by
  classical
  constructor
  · rintro ⟨hlength, hall⟩
    refine ⟨(l.take n).toFinset, ?_, fun a ha => ?_⟩
    · rw [List.toFinset_card_of_nodup hnodup.take, List.length_take, min_eq_left hlength]
    · have ha := List.mem_toFinset.mp ha
      refine ⟨List.mem_of_mem_take ha, hall a ha, fun b hb hnot => ?_⟩
      have hdrop : b ∈ l.drop n := by
        rw [← List.take_append_drop n l, List.mem_append] at hb
        exact hb.resolve_left fun htake => hnot (hall b htake)
      rw [← List.take_append_drop n l]
      exact (List.singleton_sublist.mpr ha).append (List.singleton_sublist.mpr hdrop)
  · rintro ⟨s, rfl, hs⟩
    have hsub : s ⊆ l.toFinset := fun a ha => List.mem_toFinset.mpr (hs a ha).1
    refine ⟨(Finset.card_le_card hsub).trans (List.toFinset_card_le l), fun a ha => ?_⟩
    by_contra hnot
    obtain ⟨u, w, htake⟩ := List.append_of_mem ha
    have hsplit : l = u ++ a :: (w ++ l.drop s.card) := by
      rw [← List.cons_append, ← List.append_assoc, ← htake, List.take_append_drop]
    -- the whole set would have to come before `a`, where there is no room for it
    have hbefore : s ⊆ u.toFinset := by
      intro x hx
      have hxa := (hs x hx).2.2 a (List.mem_of_mem_take ha) hnot
      rw [hsplit] at hxa hnodup
      exact List.mem_toFinset.mpr (mem_of_sublist_split hnodup hxa)
    have hcard := (Finset.card_le_card hbefore).trans (List.toFinset_card_le u)
    have hroom : u.length < s.card := by
      have hle : (l.take s.card).length ≤ s.card := List.length_take_le _ _
      rw [htake, List.length_append, List.length_cons] at hle
      omega
    omega

/-! ## Ranks -/

/-- The elements up to and including `a`. -/
def rank (f : α → β) (l : List α) (a : α) : ℕ := l.countP fun b => decide (f b ≤ f a)

theorem rank_perm (h : l.Perm l') (a : α) : rank f l a = rank f l' a := h.countP_eq _

theorem rank_mono (l : List α) {a b : α} (h : f a ≤ f b) : rank f l a ≤ rank f l b :=
  List.countP_mono_left fun _ _ hle =>
    decide_eq_true ((of_decide_eq_true hle).trans h)

theorem countP_rank_le_of_sorted (hsorted : l.Pairwise fun a b => f a < f b) (m : ℕ) :
    l.countP (fun a => decide (rank f l a ≤ m)) = min m l.length := by
  induction l using List.reverseRecOn with
  | nil => rw [List.countP_nil, List.length_nil, Nat.min_zero]
  | append_singleton l a ih =>
      obtain ⟨hl, _, hlast⟩ := List.pairwise_append.mp hsorted
      have hbefore : ∀ b ∈ l, f b < f a := fun b hb => hlast b hb a (List.mem_singleton_self a)
      -- the greatest element has the greatest rank and no part in the others'
      have hrank : ∀ b ∈ l, rank f (l ++ [a]) b = rank f l b := by
        intro b hb
        unfold rank
        rw [List.countP_append, List.countP_singleton, if_neg, Nat.add_zero]
        simpa using hbefore b hb
      have hlength : rank f (l ++ [a]) a = l.length + 1 := by
        unfold rank
        rw [List.countP_append, List.countP_singleton, if_pos (decide_eq_true le_rfl),
          List.countP_eq_length.mpr]
        intro b hb
        exact decide_eq_true (hbefore b hb).le
      have hsame : l.countP (fun b => decide (rank f (l ++ [a]) b ≤ m)) =
          l.countP (fun b => decide (rank f l b ≤ m)) :=
        List.countP_congr fun b hb => by rw [hrank b hb]
      rw [List.countP_append, List.countP_singleton, hsame, ih hl, hlength, List.length_append,
        List.length_singleton]
      simp only [decide_eq_true_eq]
      split <;> omega

/-- The ranks are the first numbers, each once. -/
theorem countP_rank_le (hnodup : (l.map f).Nodup) (m : ℕ) :
    l.countP (fun a => decide (rank f l a ≤ m)) = min m l.length := by
  have htotal : Std.Total (fun a b : α => f a ≤ f b) := ⟨fun a b => le_total (f a) (f b)⟩
  have htrans : IsTrans α (fun a b => f a ≤ f b) := ⟨fun _ _ _ => le_trans⟩
  have hperm := List.perm_insertionSort (fun a b : α => f a ≤ f b) l
  have hsorted := List.pairwise_insertionSort (fun a b : α => f a ≤ f b) l
  have hne : (l.insertionSort fun a b => f a ≤ f b).Pairwise fun a b => f a ≠ f b :=
    List.pairwise_map.mp ((hperm.map f).nodup_iff.mpr hnodup)
  have hstrict : (l.insertionSort fun a b => f a ≤ f b).Pairwise fun a b => f a < f b :=
    (hsorted.and hne).imp fun h => lt_of_le_of_ne h.1 h.2
  have hcount := countP_rank_le_of_sorted hstrict m
  rw [hperm.length_eq, hperm.countP_eq] at hcount
  rw [← hcount]
  exact List.countP_congr fun a _ => by rw [rank_perm hperm]

/-- A downward closed part keeps its ranks. -/
theorem rank_filter {p : α → Bool}
    (hdown : ∀ a ∈ l, ∀ b ∈ l, p a = true → f b ≤ f a → p b = true) {a : α} (ha : a ∈ l)
    (hp : p a = true) : rank f (l.filter p) a = rank f l a := by
  unfold rank
  rw [List.countP_filter]
  apply List.countP_congr
  intro b hb
  simp only [Bool.and_eq_true, decide_eq_true_eq]
  exact and_iff_left_of_imp fun hle => hdown a ha b hb hp hle

/-- Of a downward closed part, as many elements have a rank up to `m` as there
are, and `m` at most. -/
theorem countP_rank_le_and (hnodup : (l.map f).Nodup) {p : α → Bool}
    (hdown : ∀ a ∈ l, ∀ b ∈ l, p a = true → f b ≤ f a → p b = true) (m : ℕ) :
    l.countP (fun a => p a && decide (rank f l a ≤ m)) = min m (l.countP p) := by
  have hfilter : ((l.filter p).map f).Nodup := hnodup.sublist (List.filter_sublist.map f)
  have hpart := countP_rank_le hfilter m
  rw [← List.countP_eq_length_filter, List.countP_filter] at hpart
  rw [← hpart]
  apply List.countP_congr
  intro a ha
  simp only [Bool.and_eq_true, decide_eq_true_eq]
  constructor
  · rintro ⟨hp, hle⟩
    exact ⟨(rank_filter hdown ha hp).trans_le hle, hp⟩
  · rintro ⟨hle, hp⟩
    exact ⟨hp, (rank_filter hdown ha hp).symm.trans_le hle⟩

end Ranking
