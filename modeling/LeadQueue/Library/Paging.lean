import Mathlib.Data.List.Flatten
import Mathlib.Data.List.Nodup
import Mathlib.Data.List.Sort

/-!
# Paging through a sorted list

`ORDER BY key LIMIT n OFFSET k`, one query for each page. Rows with equal keys
may come in any order, and in another one in the next query. The pages together
hold every row exactly once, whatever the orders, exactly when no rows with
equal keys lie on both sides of the border of a page.
-/

namespace Paging

variable {α β κ : Type*} [LinearOrder κ] {key : α → κ} {rows scan scan' : List α}

/-- An order of the rows that `ORDER BY key` permits. -/
structure Ordered (key : α → κ) (rows scan : List α) : Prop where
  perm : scan.Perm rows
  sorted : scan.Pairwise fun a b => key a ≤ key b

instance decidableOrdered [DecidableEq α] (key : α → κ) (rows scan : List α) :
    Decidable (Ordered key rows scan) :=
  decidable_of_iff (scan.Perm rows ∧ scan.Pairwise fun a b => key a ≤ key b)
    ⟨fun ⟨a, b⟩ => ⟨a, b⟩, fun ⟨a, b⟩ => ⟨a, b⟩⟩

theorem exists_ordered (key : α → κ) (rows : List α) :
    Ordered key rows (rows.insertionSort fun a b => key a ≤ key b) := by
  have htotal : Std.Total (fun a b : α => key a ≤ key b) := ⟨fun a b => le_total (key a) (key b)⟩
  have htrans : IsTrans α (fun a b => key a ≤ key b) := ⟨fun _ _ _ => le_trans⟩
  exact ⟨List.perm_insertionSort _ _, List.pairwise_insertionSort _ _⟩

/-- `LIMIT limit OFFSET offset`. -/
def page (limit offset : ℕ) (scan : List α) : List α := (scan.drop offset).take limit

/-- Page `i` is read from the order `scan i`. -/
def pages (limit n : ℕ) (scan : ℕ → List α) : List α :=
  (List.range n).flatMap fun i => page limit (i * limit) (scan i)

theorem pages_succ (limit n : ℕ) (scan : ℕ → List α) :
    pages limit (n + 1) scan = pages limit n scan ++ page limit (n * limit) (scan n) := by
  unfold pages
  rw [List.range_succ, List.flatMap_append, List.flatMap_singleton]

/-- No rows that tie lie on both sides of the border of a page. -/
def TiesWithinPages (key : α → κ) (limit : ℕ) (rows : List α) : Prop :=
  ∀ a ∈ rows, ∀ i, ¬ (rows.countP (fun b => decide (key b < key a)) < i * limit ∧
    i * limit < rows.countP fun b => decide (key b ≤ key a))

/-! ## Downward closed parts -/

section Closed

variable {p : α → Bool}

/-- A downward closed part of a sorted list comes first. -/
theorem filter_append_filter (hdown : ∀ a b, key a ≤ key b → p b = true → p a = true)
    (hsorted : scan.Pairwise fun a b => key a ≤ key b) :
    scan.filter p ++ scan.filter (fun a => !p a) = scan := by
  induction scan with
  | nil => rfl
  | cons a rest ih =>
      obtain ⟨hfirst, hrest⟩ := List.pairwise_cons.mp hsorted
      cases hp : p a with
      | true =>
          rw [List.filter_cons_of_pos hp, List.filter_cons_of_neg (by simp [hp]), List.cons_append,
            ih hrest]
      | false =>
          -- nothing after `a` belongs to the part
          have hnone : ∀ b ∈ rest, p b = false := by
            intro b hb
            by_contra hpb
            have hpa := hdown a b (hfirst b hb) (Bool.not_eq_false _ ▸ hpb)
            rw [hp] at hpa
            cases hpa
          rw [List.filter_cons_of_neg (by simp [hp]), List.filter_cons_of_pos (by simp [hp]),
            List.filter_eq_nil_iff.mpr fun b hb => by simp [hnone b hb],
            List.filter_eq_self.mpr fun b hb => by simp [hnone b hb], List.nil_append]

theorem take_countP (hdown : ∀ a b, key a ≤ key b → p b = true → p a = true)
    (hsorted : scan.Pairwise fun a b => key a ≤ key b) :
    scan.take (scan.countP p) = scan.filter p := by
  have hsplit := filter_append_filter hdown hsorted
  calc scan.take (scan.countP p)
      = (scan.filter p ++ scan.filter fun a => !p a).take (scan.filter p).length := by
        rw [hsplit, List.countP_eq_length_filter]
    _ = scan.filter p := List.take_left

/-- The part holds the positions below its size. -/
theorem getElem_iff (hdown : ∀ a b, key a ≤ key b → p b = true → p a = true)
    (hsorted : scan.Pairwise fun a b => key a ≤ key b) {m : ℕ} (hm : m < scan.length) :
    p scan[m] = true ↔ m < scan.countP p := by
  have hsplit := filter_append_filter hdown hsorted
  rw [List.countP_eq_length_filter]
  constructor
  · intro hp
    by_contra hge
    have hmem : scan[m] ∈ scan.filter fun a => !p a := by
      rw [List.getElem_of_eq hsplit.symm hm, List.getElem_append_right (not_lt.mp hge)]
      exact List.getElem_mem _
    simp [hp] at hmem
  · intro hlt
    have hmem : scan[m] ∈ scan.filter p := by
      rw [List.getElem_of_eq hsplit.symm hm, List.getElem_append_left hlt]
      exact List.getElem_mem _
    exact (List.mem_filter.mp hmem).2

end Closed

theorem lt_closed (k : κ) (a b : α) (hle : key a ≤ key b) (h : decide (key b < k) = true) :
    decide (key a < k) = true := decide_eq_true (hle.trans_lt (of_decide_eq_true h))

theorem le_closed (k : κ) (a b : α) (hle : key a ≤ key b) (h : decide (key b ≤ k) = true) :
    decide (key a ≤ k) = true := decide_eq_true (hle.trans (of_decide_eq_true h))

/-! ## Ties within the pages -/

/-- The rows before a border are those with a key below the row at the border. -/
theorem TiesWithinPages.countP_eq {limit : ℕ} (h : TiesWithinPages key limit rows)
    (hscan : Ordered key rows scan) {i : ℕ} (hi : i * limit < scan.length) :
    rows.countP (fun b => decide (key b < key scan[i * limit])) = i * limit := by
  have hnotlt : ¬ i * limit < scan.countP fun b => decide (key b < key scan[i * limit]) := by
    rw [← getElem_iff (lt_closed _) hscan.sorted hi]
    simp
  have hle : i * limit < scan.countP fun b => decide (key b ≤ key scan[i * limit]) := by
    rw [← getElem_iff (le_closed _) hscan.sorted hi]
    exact decide_eq_true le_rfl
  have hclear := h scan[i * limit] (hscan.perm.mem_iff.mp (List.getElem_mem hi)) i
  rw [hscan.perm.countP_eq] at hnotlt hle
  omega

/-- Two permitted orders have the same rows before every border. -/
theorem TiesWithinPages.take_perm {limit : ℕ} (h : TiesWithinPages key limit rows)
    (hscan : Ordered key rows scan) (hscan' : Ordered key rows scan') (i : ℕ) :
    (scan.take (i * limit)).Perm (scan'.take (i * limit)) := by
  have hperm : scan.Perm scan' := hscan.perm.trans hscan'.perm.symm
  by_cases hi : i * limit < scan.length
  · have hcount := h.countP_eq hscan hi
    have htake : ∀ {s : List α}, Ordered key rows s →
        s.take (i * limit) = s.filter fun b => decide (key b < key scan[i * limit]) := by
      intro s hs
      rw [← take_countP (lt_closed _) hs.sorted, hs.perm.countP_eq, hcount]
    rw [htake hscan, htake hscan']
    exact hperm.filter _
  · rw [List.take_of_length_le (not_lt.mp hi),
      List.take_of_length_le (hperm.length_eq ▸ not_lt.mp hi)]
    exact hperm

theorem TiesWithinPages.pages_perm_take {limit : ℕ} (h : TiesWithinPages key limit rows)
    {scans : ℕ → List α} (hscans : ∀ i, Ordered key rows (scans i))
    (hscan : Ordered key rows scan) (n : ℕ) :
    (pages limit n scans).Perm (scan.take (n * limit)) := by
  induction n with
  | zero => simp [pages]
  | succ n ih =>
      have hnext : (scan.take ((n + 1) * limit)).Perm ((scans n).take ((n + 1) * limit)) :=
        h.take_perm hscan (hscans n) (n + 1)
      rw [pages_succ]
      refine List.Perm.trans ?_ hnext.symm
      rw [Nat.succ_mul, List.take_add]
      exact (ih.trans (h.take_perm hscan (hscans n) n)).append_right _

/-! ## A tie across a border -/

/-- Two neighbours that tie may be exchanged. -/
theorem Ordered.exchange {before after : List α} {a b : α}
    (h : Ordered key rows (before ++ a :: b :: after)) (htie : key a = key b) :
    Ordered key rows (before ++ b :: a :: after) := by
  refine ⟨((List.Perm.swap a b after).append_left before).trans h.perm, ?_⟩
  have hmap : ((before ++ a :: b :: after).map key).Pairwise (· ≤ ·) :=
    List.pairwise_map.mpr h.sorted
  apply List.pairwise_map.mp
  rw [List.map_append, List.map_cons, List.map_cons, htie] at hmap
  rw [List.map_append, List.map_cons, List.map_cons, htie]
  exact hmap

/-- The two rows at a border that splits a tie. -/
theorem exists_tie_of_split {limit i : ℕ} {a : α} (hscan : Ordered key rows scan)
    (hlow : rows.countP (fun b => decide (key b < key a)) < i * limit)
    (hhigh : i * limit < rows.countP fun b => decide (key b ≤ key a)) :
    ∃ before x y after, scan = before ++ x :: y :: after ∧ before.length + 1 = i * limit ∧
      key x = key y := by
  rw [← hscan.perm.countP_eq] at hlow hhigh
  have hlen : i * limit < scan.length := hhigh.trans_le List.countP_le_length
  have hprev : i * limit - 1 < scan.length := by omega
  have hkey : ∀ m (hm : m < scan.length), i * limit - 1 ≤ m → m ≤ i * limit →
      key scan[m] = key a := by
    intro m hm hge hle
    have hnot : ¬ key scan[m] < key a := by
      have hiff := getElem_iff (lt_closed (key a)) hscan.sorted hm
      simp only [decide_eq_true_eq] at hiff
      rw [hiff]
      omega
    have hiff := getElem_iff (le_closed (key a)) hscan.sorted hm
    simp only [decide_eq_true_eq] at hiff
    exact le_antisymm (hiff.mpr (by omega)) (not_lt.mp hnot)
  refine ⟨scan.take (i * limit - 1), scan[i * limit - 1], scan[i * limit],
    scan.drop (i * limit + 1), ?_, ?_, ?_⟩
  · conv_lhs => rw [← List.take_append_drop (i * limit - 1) scan]
    rw [List.drop_eq_getElem_cons hprev, List.drop_eq_getElem_cons (by omega)]
    congr 3
    · congr 1
      omega
    · congr 1
      omega
  · rw [List.length_take]
    omega
  · rw [hkey _ hprev le_rfl (by omega), hkey _ hlen (by omega) le_rfl]

theorem mem_page_of_getElem? {limit offset m : ℕ} {x : α} (hx : scan[m]? = some x)
    (hlow : offset ≤ m) (hhigh : m < offset + limit) : x ∈ page limit offset scan := by
  unfold page
  apply List.mem_iff_getElem?.mpr
  refine ⟨m - offset, ?_⟩
  rw [List.getElem?_take_of_lt (by omega), List.getElem?_drop, Nat.add_sub_cancel' hlow]
  exact hx

/-- A tie across a border: some orders show a row on both pages. -/
theorem exists_repeat {limit i : ℕ} {a : α} (hlimit : 0 < limit)
    (hlow : rows.countP (fun b => decide (key b < key a)) < i * limit)
    (hhigh : i * limit < rows.countP fun b => decide (key b ≤ key a)) :
    ∃ scans : ℕ → List α, (∀ j, Ordered key rows (scans j)) ∧
      ∃ x j, j + 1 = i ∧ x ∈ page limit (j * limit) (scans j) ∧
        x ∈ page limit (i * limit) (scans i) := by
  have hordered := exists_ordered key rows
  obtain ⟨before, x, y, after, hscan, hlen, htie⟩ := exists_tie_of_split hordered hlow hhigh
  rw [hscan] at hordered
  obtain ⟨j, rfl⟩ : ∃ j, i = j + 1 := by
    cases i with
    | zero => omega
    | succ j => exact ⟨j, rfl⟩
  rw [Nat.succ_mul] at hlen
  refine ⟨fun k => if k ≤ j then before ++ x :: y :: after else before ++ y :: x :: after,
    fun k => ?_, x, j, rfl, ?_, ?_⟩
  · dsimp only
    split
    · exact hordered
    · exact hordered.exchange htie
  · show x ∈ page limit (j * limit) (if j ≤ j then _ else _)
    rw [if_pos le_rfl]
    exact mem_page_of_getElem? (m := before.length) (by simp) (by omega) (by omega)
  · show x ∈ page limit ((j + 1) * limit) (if j + 1 ≤ j then _ else _)
    rw [if_neg (by omega), Nat.succ_mul]
    exact mem_page_of_getElem? (m := before.length + 1) (by simp) (by omega) (by omega)

/-! ## The pages together -/

/-- Rows are told apart by `f`. The pages cover them exactly once, whatever
orders they are read from, exactly when no tie crosses a border. -/
theorem pages_perm_iff {f : α → β} {limit n : ℕ} (hnodup : (rows.map f).Nodup)
    (hlimit : 0 < limit) (hn : rows.length ≤ n * limit) :
    (∀ scans : ℕ → List α, (∀ i, Ordered key rows (scans i)) →
      ((pages limit n scans).map f).Perm (rows.map f)) ↔ TiesWithinPages key limit rows := by
  constructor
  · intro hall a _ i hsplit
    obtain ⟨hlow, hhigh⟩ := hsplit
    obtain ⟨scans, hscans, x, j, rfl, hx, hx'⟩ := exists_repeat hlimit hlow hhigh
    have hpages : (pages limit n scans).Nodup :=
      List.Nodup.of_map f ((hall scans hscans).nodup_iff.mpr hnodup)
    have hin : (j + 1) * limit < n * limit :=
      hhigh.trans_le (List.countP_le_length.trans hn)
    have hj : j + 1 < n := Nat.lt_of_mul_lt_mul_right hin
    have hdisjoint := List.pairwise_iff_getElem.mp (List.nodup_flatMap.mp hpages).2 j (j + 1)
      (by simpa using by omega) (by simpa using hj) (by omega)
    simp only [List.getElem_range, Function.onFun] at hdisjoint
    exact hdisjoint hx hx'
  · intro h scans hscans
    have hcover := h.pages_perm_take hscans (exists_ordered key rows) n
    rw [List.take_of_length_le (by rwa [(exists_ordered key rows).perm.length_eq])] at hcover
    exact (hcover.trans (exists_ordered key rows).perm).map f

end Paging
