import LeadQueue.Library.Machine
import Mathlib.Algebra.Order.BigOperators.Group.Finset
import Mathlib.Data.Finset.Lattice.Basic
import Mathlib.Logic.Function.Basic
import Mathlib.Data.Fintype.Card
import Mathlib.Data.Set.Finite.Basic
import Mathlib.Order.WellFounded

/-!
# Transactions that insert unique keys

Any number of transactions run side by side, each inserting the keys of its own
list in order. A key that is stored is passed over. A key that another open
transaction has inserted makes the transaction wait until that one commits. Any
other key is inserted, and is stored when its transaction commits. A transaction
that is rolled back leaves nothing behind and is not counted among them.

The lists alone decide whether transactions can wait for each other in a cycle:
they can exactly when the lists cross (`Crossing`).
-/

namespace KeyWaits

open Transition

variable {ι κ : Type}

/-- An open transaction: the keys still to insert, and the keys inserted. -/
structure Tx (κ : Type) where
  todo : List κ
  held : List κ

structure State (ι κ : Type) where
  stored : Finset κ
  /-- `none` once it has committed. -/
  txs : ι → Option (Tx κ)

inductive Label (ι : Type) where
  | next (i : ι)
  | commit (i : ι)

/-- Another open transaction has inserted the key. -/
def HeldByOther (s : State ι κ) (i : ι) (k : κ) : Prop :=
  ∃ j tx, j ≠ i ∧ s.txs j = some tx ∧ k ∈ tx.held

/-- The next key of `i` is one that `j` has inserted. -/
def Waits (s : State ι κ) (i j : ι) : Prop :=
  ∃ k todo held tx, s.txs i = some ⟨k :: todo, held⟩ ∧ k ∉ s.stored ∧ j ≠ i ∧
    s.txs j = some tx ∧ k ∈ tx.held

/-- Some transactions wait for each other in a cycle. -/
def Deadlocked (s : State ι κ) : Prop := ∃ i, Relation.TransGen (Waits s) i i

/-- All transactions are open at first and have inserted nothing. -/
def initial (lists : ι → List κ) (stored : Finset κ) : State ι κ :=
  ⟨stored, fun i => some ⟨lists i, []⟩⟩

section Rules

variable [DecidableEq ι]

/-- Change one open transaction. -/
def State.set (s : State ι κ) (i : ι) (tx : Tx κ) : State ι κ :=
  { s with txs := Function.update s.txs i (some tx) }

@[simp] theorem txs_set_self (s : State ι κ) (i : ι) (tx : Tx κ) :
    (s.set i tx).txs i = some tx := Function.update_self ..

theorem txs_set_of_ne {s : State ι κ} {i j : ι} (h : j ≠ i) (tx : Tx κ) :
    (s.set i tx).txs j = s.txs j := Function.update_of_ne h ..

theorem heldByOther_set {s : State ι κ} {i : ι} {k : κ} (tx : Tx κ) :
    HeldByOther (s.set i tx) i k ↔ HeldByOther s i k := by
  constructor
  · rintro ⟨j, other, hne, hj, hk⟩
    exact ⟨j, other, hne, (txs_set_of_ne hne tx).symm.trans hj, hk⟩
  · rintro ⟨j, other, hne, hj, hk⟩
    exact ⟨j, other, hne, (txs_set_of_ne hne tx).trans hj, hk⟩

theorem set_set (s : State ι κ) (i : ι) (tx tx' : Tx κ) :
    (s.set i tx).set i tx' = s.set i tx' := by
  simp [State.set]

/-- What a lookup finds after one transaction has moved on. -/
theorem lookup_set {s : State ι κ} {i j : ι} {tx tx' : Tx κ} (h : (s.set i tx).txs j = some tx') :
    (j = i ∧ tx' = tx) ∨ (j ≠ i ∧ s.txs j = some tx') := by
  by_cases hj : j = i
  · subst hj
    rw [txs_set_self] at h
    exact Or.inl ⟨rfl, (Option.some.inj h).symm⟩
  · rw [txs_set_of_ne hj] at h
    exact Or.inr ⟨hj, h⟩

theorem lookup_set_none {s : State ι κ} {i j : ι} {tx old : Tx κ} (hi : s.txs i = some old) :
    (s.set i tx).txs j = none ↔ s.txs j = none := by
  by_cases hj : j = i
  · subst hj
    simp [hi]
  · rw [txs_set_of_ne hj]

inductive Step [DecidableEq κ] : State ι κ → Label ι → State ι κ → Prop where
  | skip {s : State ι κ} {i : ι} {k : κ} {todo held : List κ} :
      s.txs i = some ⟨k :: todo, held⟩ → k ∈ s.stored → Step s (.next i) (s.set i ⟨todo, held⟩)
  | insert {s : State ι κ} {i : ι} {k : κ} {todo held : List κ} :
      s.txs i = some ⟨k :: todo, held⟩ → k ∉ s.stored → ¬ HeldByOther s i k →
      Step s (.next i) (s.set i ⟨todo, k :: held⟩)
  | commit {s : State ι κ} {i : ι} {held : List κ} :
      s.txs i = some ⟨[], held⟩ →
      Step s (.commit i) ⟨s.stored ∪ held.toFinset, Function.update s.txs i none⟩

def machine [DecidableEq κ] (lists : ι → List κ) (stored : Finset κ) :
    Machine (State ι κ) (Label ι) where
  init s := s = initial lists stored
  step := Step

/-! ## The invariant -/

/-- A transaction holds the keys it has come by that are not stored; nobody else
holds them; and what is stored was so at first or is a committed list's. -/
structure Inv (lists : ι → List κ) (stored : Finset κ) (s : State ι κ) : Prop where
  held : ∀ i tx, s.txs i = some tx → ∃ done, lists i = done ++ tx.todo ∧
    ∀ k, k ∈ tx.held ↔ k ∈ done ∧ k ∉ s.stored
  apart : ∀ i j tx tx', i ≠ j → s.txs i = some tx → s.txs j = some tx' →
    List.Disjoint tx.held tx'.held
  stored_iff : ∀ k, k ∈ s.stored ↔ k ∈ stored ∨ ∃ i, s.txs i = none ∧ k ∈ lists i

/-- A transaction that passes its next key, with the key or without it. -/
theorem Inv.next {lists : ι → List κ} {stored : Finset κ} {s : State ι κ} {i : ι} {k : κ}
    {todo held held' : List κ} (h : Inv lists stored s) (hi : s.txs i = some ⟨k :: todo, held⟩)
    (hheld : ∀ x, x ∈ held' ↔ x ∈ held ∨ (x = k ∧ k ∉ s.stored))
    (hfree : k ∉ s.stored → ¬ HeldByOther s i k) :
    Inv lists stored (s.set i ⟨todo, held'⟩) where
  held j tx hj := by
    rcases lookup_set hj with ⟨rfl, rfl⟩ | ⟨_, hold⟩
    · obtain ⟨done, hlist, hdone⟩ := h.held j _ hi
      refine ⟨done ++ [k], by rw [hlist, List.append_assoc]; rfl, fun x => ?_⟩
      have hx := hdone x
      show x ∈ held' ↔ x ∈ done ++ [k] ∧ x ∉ s.stored
      rw [hheld, hx, List.mem_append, List.mem_singleton]
      constructor
      · rintro (⟨hmem, hnew⟩ | ⟨rfl, hnew⟩)
        · exact ⟨Or.inl hmem, hnew⟩
        · exact ⟨Or.inr rfl, hnew⟩
      · rintro ⟨hmem | rfl, hnew⟩
        · exact Or.inl ⟨hmem, hnew⟩
        · exact Or.inr ⟨rfl, hnew⟩
    · exact h.held j tx hold
  apart a b tx tx' hne ha hb := by
    -- only the key just passed is new, and nobody else holds it
    have hnew : ∀ c other, c ≠ i → s.txs c = some other → List.Disjoint held' other.held := by
      intro c other hc hother x hx hx'
      rcases (hheld x).mp hx with hx | ⟨rfl, hx⟩
      · exact h.apart i c _ other hc.symm hi hother hx hx'
      · exact hfree hx ⟨c, other, hc, hother, hx'⟩
    rcases lookup_set ha with ⟨rfl, rfl⟩ | ⟨hai, holda⟩
    · rcases lookup_set hb with ⟨rfl, _⟩ | ⟨hbi, holdb⟩
      · exact absurd rfl hne
      · exact hnew b tx' hbi holdb
    · rcases lookup_set hb with ⟨rfl, rfl⟩ | ⟨_, holdb⟩
      · exact (hnew a tx hai holda).symm
      · exact h.apart a b tx tx' hne holda holdb
  stored_iff x := by
    rw [show (s.set i ⟨todo, held'⟩).stored = s.stored from rfl, h.stored_iff x]
    simp only [lookup_set_none hi]

theorem lookup_commit {s : State ι κ} {i j : ι} {tx : Tx κ}
    (h : Function.update s.txs i none j = some tx) : j ≠ i ∧ s.txs j = some tx := by
  by_cases hj : j = i
  · subst hj
    rw [Function.update_self] at h
    cases h
  · rw [Function.update_of_ne hj] at h
    exact ⟨hj, h⟩

theorem lookup_commit_none {s : State ι κ} {i j : ι} :
    Function.update s.txs i none j = none ↔ j = i ∨ s.txs j = none := by
  by_cases hj : j = i
  · subst hj
    simp
  · simp [hj]

variable [DecidableEq κ]

theorem Inv.commit {lists : ι → List κ} {stored : Finset κ} {s : State ι κ} {i : ι}
    {held : List κ} (h : Inv lists stored s) (hi : s.txs i = some ⟨[], held⟩) :
    Inv lists stored ⟨s.stored ∪ held.toFinset, Function.update s.txs i none⟩ where
  held j tx hj := by
    obtain ⟨hne, hold⟩ := lookup_commit hj
    obtain ⟨done, hlist, hdone⟩ := h.held j tx hold
    refine ⟨done, hlist, fun k => ?_⟩
    rw [hdone, Finset.mem_union, not_or, List.mem_toFinset]
    constructor
    · rintro ⟨hmem, hnew⟩
      refine ⟨hmem, hnew, fun hk => ?_⟩
      exact h.apart i j _ tx hne.symm hi hold hk ((hdone k).mpr ⟨hmem, hnew⟩)
    · rintro ⟨hmem, hnew, _⟩
      exact ⟨hmem, hnew⟩
  apart a b tx tx' hne ha hb :=
    h.apart a b tx tx' hne (lookup_commit ha).2 (lookup_commit hb).2
  stored_iff k := by
    obtain ⟨done, hlist, hdone⟩ := h.held i _ hi
    rw [List.append_nil] at hlist
    subst hlist
    show k ∈ s.stored ∪ held.toFinset ↔ k ∈ stored ∨
      ∃ j, Function.update s.txs i none j = none ∧ k ∈ lists j
    simp only [lookup_commit_none, or_and_right, exists_or, exists_eq_left]
    rw [Finset.mem_union, List.mem_toFinset, hdone, or_left_comm, ← h.stored_iff k]
    tauto

theorem Inv.step {lists : ι → List κ} {stored : Finset κ} {s t : State ι κ} {e : Label ι}
    (h : Inv lists stored s) (hstep : Step s e t) : Inv lists stored t := by
  cases hstep with
  | skip hi hk =>
      apply h.next hi
      · intro x
        exact ⟨Or.inl, fun hx => hx.elim id fun hx => absurd hk hx.2⟩
      · exact fun hnew => absurd hk hnew
  | insert hi hk hfree =>
      apply h.next hi
      · intro x
        rw [List.mem_cons, or_comm]
        simp [hk]
      · exact fun _ => hfree
  | commit hi => exact h.commit hi

theorem inv_of_reachable {lists : ι → List κ} {stored : Finset κ} {s : State ι κ}
    (h : (machine lists stored).Reachable s) : Inv lists stored s := by
  refine h.invariant (fun s hs => ?_) fun _ _ _ _ hinv _ hstep => hinv.step hstep
  subst hs
  constructor
  · rintro i tx ⟨⟩
    exact ⟨[], rfl, by simp⟩
  · rintro i j tx tx' _ ⟨⟩ _
    exact List.disjoint_nil_left _
  · simp [initial]

end Rules

/-! ## Cycles -/

/-- A finite set in which everything has a successor has a cycle. -/
theorem exists_cycle {α : Type} [Finite α] {R : α → α → Prop} {D : Set α} (hne : D.Nonempty)
    (h : ∀ a ∈ D, ∃ b ∈ D, R a b) : ∃ a, Relation.TransGen R a a := by
  by_contra hnone
  push Not at hnone
  -- without a cycle some element of `D` would be last
  have hirrefl : Std.Irrefl (Relation.TransGen (Function.swap R)) :=
    ⟨fun a hcycle => hnone a (Relation.transGen_swap.mp hcycle)⟩
  have hwf : WellFounded (Relation.TransGen (Function.swap R)) :=
    Finite.wellFounded_of_trans_of_irrefl _
  obtain ⟨a, ha, hlast⟩ := hwf.has_min D hne
  obtain ⟨b, hb, hab⟩ := h a ha
  exact hlast b hb (.single hab)

/-- The elements of a cycle, each with its successor. -/
theorem successor_of_cycle {α : Type} {R : α → α → Prop} {a b : α}
    (hab : Relation.TransGen R a b) (hba : Relation.TransGen R b a) :
    ∃ c, (Relation.TransGen R a c ∧ Relation.TransGen R c a) ∧ R b c := by
  obtain ⟨c, hbc, hca⟩ := Relation.TransGen.head'_iff.mp hba
  exact ⟨c, ⟨hab.tail hbc, .trans_right hca (hab.trans hba)⟩, hbc⟩

/-! ## Lists that cross -/

/-- The transaction has come by the key, which was neither stored nor in a list
of `S`. -/
def Passed (lists : ι → List κ) (stored : Finset κ) (S : Set ι) (cut : ι → ℕ) (i : ι)
    (k : κ) : Prop :=
  k ∈ (lists i).take (cut i) ∧ k ∉ stored ∧ ∀ j ∈ S, k ∉ lists j

/-- After the lists of `S` the lists of `D` can be cut so that no two beginnings
share a new key, and the key after each beginning is in another beginning. -/
structure CrossAt (lists : ι → List κ) (stored : Finset κ) (S D : Set ι) (cut : ι → ℕ) :
    Prop where
  nonempty : D.Nonempty
  apart : ∀ i ∈ D, i ∉ S
  disjoint : ∀ i ∈ D, ∀ j ∈ D, i ≠ j → ∀ k, Passed lists stored S cut i k →
    ¬ Passed lists stored S cut j k
  blocked : ∀ i ∈ D, ∃ k, (lists i)[cut i]? = some k ∧
    ∃ j ∈ D, j ≠ i ∧ Passed lists stored S cut j k

def Crossing (lists : ι → List κ) (stored : Finset κ) : Prop :=
  ∃ S D cut, CrossAt lists stored S D cut

/-- The key a transaction waits for is new, and held by the other one. -/
theorem Inv.crossing_of_deadlocked {lists : ι → List κ} {stored : Finset κ} {s : State ι κ}
    (h : Inv lists stored s) (hdead : Deadlocked s) : Crossing lists stored := by
  obtain ⟨i₀, hcycle⟩ := hdead
  -- how far each open transaction has come
  set cut : ι → ℕ := fun i =>
    (lists i).length - ((s.txs i).map fun tx => tx.todo.length).getD 0 with hcut
  have hheld : ∀ i tx, s.txs i = some tx → ∀ k,
      k ∈ tx.held ↔ Passed lists stored {j | s.txs j = none} cut i k := by
    intro i tx hi k
    obtain ⟨done, hlist, hdone⟩ := h.held i tx hi
    have htake : (lists i).take (cut i) = done := by
      rw [hcut]
      simp [hi, hlist]
    rw [hdone, Passed, htake, h.stored_iff k]
    push Not
    rfl
  refine ⟨{j | s.txs j = none},
    {j | Relation.TransGen (Waits s) i₀ j ∧ Relation.TransGen (Waits s) j i₀}, cut,
    ⟨i₀, hcycle, hcycle⟩, ?_, ?_, ?_⟩
  · rintro i ⟨_, hi⟩ hnone
    obtain ⟨_, ⟨_, _, _, _, hopen, _⟩, _⟩ := Relation.TransGen.head'_iff.mp hi
    cases hopen.symm.trans hnone
  · rintro i ⟨_, hi⟩ j ⟨_, hj⟩ hne k hki hkj
    obtain ⟨_, ⟨_, _, _, _, hopeni, _⟩, _⟩ := Relation.TransGen.head'_iff.mp hi
    obtain ⟨_, ⟨_, _, _, _, hopenj, _⟩, _⟩ := Relation.TransGen.head'_iff.mp hj
    exact h.apart i j _ _ hne hopeni hopenj ((hheld i _ hopeni k).mpr hki)
      ((hheld j _ hopenj k).mpr hkj)
  · rintro i ⟨hi₀, hi⟩
    obtain ⟨j, hj, k, todo, held, tx, hopen, _, hne, hother, hk⟩ := successor_of_cycle hi₀ hi
    obtain ⟨done, hlist, _⟩ := h.held i _ hopen
    refine ⟨k, ?_, j, hj, hne, (hheld j tx hother k).mp hk⟩
    have hlength : cut i = done.length := by
      rw [hcut]
      simp [hopen, hlist]
    rw [hlength, hlist, List.getElem?_append_right le_rfl, Nat.sub_self]
    rfl

/-- Two lists that begin with the same two new keys, the other way round. -/
theorem crossing_of_swapped {lists : ι → List κ} {stored : Finset κ} {i j : ι} {x y : κ}
    {l l' : List κ} (hne : i ≠ j) (hxy : x ≠ y) (hi : lists i = x :: y :: l)
    (hj : lists j = y :: x :: l') (hx : x ∉ stored) (hy : y ∉ stored) :
    Crossing lists stored := by
  have hfirst : ∀ (c : ι) (a k : κ) (rest : List κ), lists c = a :: rest →
      (Passed lists stored ∅ (fun _ => 1) c k ↔ k = a ∧ k ∉ stored) := by
    intro c a k rest hc
    simp [Passed, hc]
  refine ⟨∅, {i, j}, fun _ => 1, ⟨i, Or.inl rfl⟩, fun _ _ h => h, ?_, ?_⟩
  · rintro a (rfl | rfl) b (rfl | rfl) hab k hka hkb
    · exact hab rfl
    · exact hxy (((hfirst _ _ _ _ hi).mp hka).1.symm.trans ((hfirst _ _ _ _ hj).mp hkb).1)
    · exact hxy (((hfirst _ _ _ _ hi).mp hkb).1.symm.trans ((hfirst _ _ _ _ hj).mp hka).1)
    · exact hab rfl
  · rintro a (rfl | rfl)
    · exact ⟨y, by rw [hi]; rfl, j, Or.inr rfl, hne.symm, (hfirst j y y _ hj).mpr ⟨rfl, hy⟩⟩
    · exact ⟨x, by rw [hj]; rfl, i, Or.inl rfl, hne, (hfirst i x x _ hi).mpr ⟨rfl, hx⟩⟩

/-- The key `i` stops at ranks below the one `j` stops at. -/
def StopsBelow {α : Type} [LT α] (rank : κ → α) (lists : ι → List κ) (cut : ι → ℕ) (i j : ι) :
    Prop :=
  ∃ a b, (lists i)[cut i]? = some a ∧ (lists j)[cut j]? = some b ∧ rank a < rank b

theorem StopsBelow.trans {α : Type} [Preorder α] {rank : κ → α} {lists : ι → List κ}
    {cut : ι → ℕ} {i j c : ι} (h : StopsBelow rank lists cut i j)
    (h' : StopsBelow rank lists cut j c) : StopsBelow rank lists cut i c := by
  obtain ⟨a, b, ha, hb, hab⟩ := h
  obtain ⟨b', d, hb', hd, hbd⟩ := h'
  obtain rfl : b = b' := Option.some.inj (hb.symm.trans hb')
  exact ⟨a, d, ha, hd, hab.trans hbd⟩

/-- Lists that all follow one order of the keys do not cross. -/
theorem not_crossing_of_sorted [Finite ι] {α : Type} [Preorder α] (rank : κ → α)
    {lists : ι → List κ} {stored : Finset κ}
    (h : ∀ i, (lists i).Pairwise fun a b => rank a < rank b) : ¬ Crossing lists stored := by
  rintro ⟨S, D, cut, hcross⟩
  have hsucc : ∀ i ∈ D, ∃ j ∈ D, StopsBelow rank lists cut i j := by
    intro i hi
    obtain ⟨k, hk, j, hj, _, hpassed⟩ := hcross.blocked i hi
    obtain ⟨k', hk', _⟩ := hcross.blocked j hj
    refine ⟨j, hj, k, k', hk, hk', ?_⟩
    -- what `i` stops at, `j` has passed
    obtain ⟨n, hn, rfl⟩ := List.mem_take_iff_getElem.mp hpassed.1
    obtain ⟨hlt, rfl⟩ := List.getElem?_eq_some_iff.mp hk'
    exact List.pairwise_iff_getElem.mp (h j) n (cut j) (by omega) hlt (by omega)
  obtain ⟨i, hcycle⟩ := exists_cycle hcross.nonempty hsucc
  have hbelow : ∀ j, Relation.TransGen (StopsBelow rank lists cut) i j →
      StopsBelow rank lists cut i j := by
    intro j hij
    induction hij with
    | single hstep => exact hstep
    | tail _ hstep ih => exact ih.trans hstep
  obtain ⟨a, b, ha, hb, hab⟩ := hbelow i hcycle
  obtain rfl : a = b := Option.some.inj (ha.symm.trans hb)
  exact lt_irrefl _ hab

section Runs

variable [DecidableEq ι] [DecidableEq κ]

/-- A transaction gets past keys that nobody else holds. -/
theorem passes {lists : ι → List κ} {stored : Finset κ} {s : State ι κ} {i : ι}
    (hs : (machine lists stored).Reachable s) (keys : List κ) {rest held : List κ}
    (hi : s.txs i = some ⟨keys ++ rest, held⟩)
    (hfree : ∀ k ∈ keys, k ∉ s.stored → ¬ HeldByOther s i k) :
    ∃ held', (machine lists stored).Reachable (s.set i ⟨rest, held'⟩) ∧
      ∀ k, k ∈ held' ↔ k ∈ held ∨ (k ∈ keys ∧ k ∉ s.stored) := by
  induction keys generalizing s held with
  | nil =>
      refine ⟨held, ?_, by simp⟩
      have hsame : s.set i ⟨rest, held⟩ = s := by
        rw [State.set, ← (show s.txs i = some ⟨rest, held⟩ from hi), Function.update_eq_self]
      rwa [hsame]
  | cons k keys ih =>
      obtain ⟨hk, hkeys⟩ := List.forall_mem_cons.mp hfree
      by_cases hstored : k ∈ s.stored
      · have hstep := hs.step trivial (.skip hi hstored)
        obtain ⟨held', hreach, hheld⟩ := ih hstep (txs_set_self ..)
          fun x hx hnew => mt (heldByOther_set _).mp (hkeys x hx hnew)
        rw [set_set] at hreach
        refine ⟨held', hreach, fun x => (hheld x).trans (or_congr_right ?_)⟩
        rw [List.mem_cons]
        constructor
        · rintro ⟨hx, hnew⟩
          exact ⟨Or.inr hx, hnew⟩
        · rintro ⟨rfl | hx, hnew⟩
          · exact absurd hstored hnew
          · exact ⟨hx, hnew⟩
      · have hstep := hs.step trivial (.insert hi hstored (hk hstored))
        obtain ⟨held', hreach, hheld⟩ := ih hstep (txs_set_self ..)
          fun x hx hnew => mt (heldByOther_set _).mp (hkeys x hx hnew)
        rw [set_set] at hreach
        refine ⟨held', hreach, fun x => (hheld x).trans ?_⟩
        rw [List.mem_cons, List.mem_cons]
        constructor
        · rintro ((rfl | hx) | ⟨hx, hnew⟩)
          · exact Or.inr ⟨Or.inl rfl, hstored⟩
          · exact Or.inl hx
          · exact Or.inr ⟨Or.inr hx, hnew⟩
        · rintro (hx | ⟨rfl | hx, hnew⟩)
          · exact Or.inl (Or.inr hx)
          · exact Or.inl (Or.inl rfl)
          · exact Or.inr ⟨hx, hnew⟩

/-- The transactions of `S` have committed, the others have not begun. -/
structure Served (lists : ι → List κ) (stored : Finset κ) (S : Finset ι) (s : State ι κ) :
    Prop where
  reachable : (machine lists stored).Reachable s
  stored_iff : ∀ k, k ∈ s.stored ↔ k ∈ stored ∨ ∃ i ∈ S, k ∈ lists i
  committed : ∀ i ∈ S, s.txs i = none
  waiting : ∀ i ∉ S, s.txs i = some ⟨lists i, []⟩

/-- Any set of transactions can be run to the end, one after the other. -/
theorem exists_served (lists : ι → List κ) (stored : Finset κ) (S : Finset ι) :
    ∃ s, Served lists stored S s := by
  induction S using Finset.induction_on with
  | empty =>
      refine ⟨initial lists stored, .init rfl, by simp [initial], ?_, fun _ _ => rfl⟩
      exact fun _ h => absurd h (Finset.notMem_empty _)
  | insert a S ha ih =>
      obtain ⟨s, hs⟩ := ih
      have hopen : s.txs a = some ⟨lists a ++ [], []⟩ := by
        rw [List.append_nil]
        exact hs.waiting a ha
      -- nobody holds anything
      have hfree : ∀ k, ¬ HeldByOther s a k := by
        rintro k ⟨j, tx, _, hj, hk⟩
        by_cases hjS : j ∈ S
        · cases hj.symm.trans (hs.committed j hjS)
        · cases hj.symm.trans (hs.waiting j hjS)
          cases hk
      obtain ⟨held, hreach, hheld⟩ := passes hs.reachable (lists a) hopen fun k _ _ => hfree k
      have hcommit := hreach.step trivial (.commit (txs_set_self ..))
      refine ⟨_, hcommit, fun k => ?_, fun i hi => ?_, fun i hi => ?_⟩
      · show k ∈ s.stored ∪ held.toFinset ↔ _
        have hk := hheld k
        have hold := hs.stored_iff k
        simp only [Finset.mem_union, List.mem_toFinset, Finset.mem_insert, exists_eq_or_imp]
        simp only [List.not_mem_nil, false_or] at hk
        rw [hk, or_left_comm, ← hold]
        tauto
      · rcases Finset.mem_insert.mp hi with rfl | hi
        · exact Function.update_self ..
        · have hne : i ≠ a := fun heq => ha (heq ▸ hi)
          refine (Function.update_of_ne hne ..).trans ((txs_set_of_ne hne _).trans ?_)
          exact hs.committed i hi
      · rw [Finset.mem_insert, not_or] at hi
        refine (Function.update_of_ne hi.1 ..).trans ((txs_set_of_ne hi.1 _).trans ?_)
        exact hs.waiting i hi.2

/-- Where the lists cross, the transactions of `D` can each be run up to their
cut. -/
theorem CrossAt.exists_halted {lists : ι → List κ} {stored : Finset κ} {S : Finset ι} {D : Set ι}
    {cut : ι → ℕ} (h : CrossAt lists stored S D cut) {s₀ : State ι κ}
    (hs₀ : Served lists stored S s₀) (E : Finset ι) (hE : ∀ i ∈ E, i ∈ D) :
    ∃ s, (machine lists stored).Reachable s ∧ s.stored = s₀.stored ∧
      (∀ i ∈ E, ∃ held, s.txs i = some ⟨(lists i).drop (cut i), held⟩ ∧
        ∀ k, k ∈ held ↔ Passed lists stored S cut i k) ∧
      ∀ i ∉ E, s.txs i = s₀.txs i := by
  have hpassed : ∀ i k, k ∈ (lists i).take (cut i) ∧ k ∉ s₀.stored ↔
      Passed lists stored S cut i k := by
    intro i k
    rw [hs₀.stored_iff k, Passed]
    push Not
    rfl
  induction E using Finset.induction_on with
  | empty => exact ⟨s₀, hs₀.reachable, rfl, by simp, fun _ _ => rfl⟩
  | insert a E ha ih =>
      obtain ⟨s, hs, hstored, hhalted, hrest⟩ := ih fun i hi => hE i (Finset.mem_insert_of_mem hi)
      have haD := hE a (Finset.mem_insert_self a E)
      have hopen : s.txs a = some ⟨(lists a).take (cut a) ++ (lists a).drop (cut a), []⟩ := by
        rw [List.take_append_drop, hrest a ha]
        exact hs₀.waiting a (h.apart a haD)
      have hfree : ∀ k ∈ (lists a).take (cut a), k ∉ s.stored → ¬ HeldByOther s a k := by
        rintro k hk hnew ⟨j, tx, hne, hj, hmem⟩
        by_cases hjE : j ∈ E
        · obtain ⟨held, hj', hheld⟩ := hhalted j hjE
          cases hj.symm.trans hj'
          refine h.disjoint a haD j (hE j (Finset.mem_insert_of_mem hjE)) hne.symm k ?_
            ((hheld k).mp hmem)
          exact (hpassed a k).mp ⟨hk, hstored ▸ hnew⟩
        · rw [hrest j hjE] at hj
          by_cases hjS : j ∈ S
          · cases hj.symm.trans (hs₀.committed j hjS)
          · cases hj.symm.trans (hs₀.waiting j hjS)
            cases hmem
      obtain ⟨held, hreach, hheld⟩ := passes hs _ hopen hfree
      refine ⟨_, hreach, hstored, fun i hi => ?_, fun i hi => ?_⟩
      · rcases Finset.mem_insert.mp hi with rfl | hi
        · refine ⟨held, txs_set_self .., fun k => (hheld k).trans ?_⟩
          rw [← hpassed, hstored]
          simp
        · have hne : i ≠ a := fun heq => ha (heq ▸ hi)
          obtain ⟨held', hi', hheld'⟩ := hhalted i hi
          exact ⟨held', (txs_set_of_ne hne _).trans hi', hheld'⟩
      · rw [Finset.mem_insert, not_or] at hi
        exact (txs_set_of_ne hi.1 _).trans (hrest i hi.2)

/-- Lists that cross can be run into a cycle of waits. -/
theorem exists_deadlocked [Finite ι] {lists : ι → List κ} {stored : Finset κ}
    (h : Crossing lists stored) :
    ∃ s, (machine lists stored).Reachable s ∧ Deadlocked s := by
  obtain ⟨S, D, cut, h⟩ := h
  lift S to Finset ι using S.toFinite
  lift D to Finset ι using D.toFinite
  obtain ⟨s₀, hs₀⟩ := exists_served lists stored S
  obtain ⟨s, hs, hstored, hhalted, _⟩ := h.exists_halted hs₀ D fun i hi => hi
  refine ⟨s, hs, exists_cycle h.nonempty fun i hi => ?_⟩
  obtain ⟨k, hnext, j, hj, hne, hpassed⟩ := h.blocked i hi
  obtain ⟨held, hopen, _⟩ := hhalted i hi
  obtain ⟨held', hopen', hheld'⟩ := hhalted j hj
  obtain ⟨hlt, rfl⟩ := List.getElem?_eq_some_iff.mp hnext
  refine ⟨j, hj, _, (lists i).drop (cut i + 1), held, _, ?_, ?_, hne, hopen',
    (hheld' _).mpr hpassed⟩
  · rw [hopen, List.drop_eq_getElem_cons hlt]
  · rw [hstored, hs₀.stored_iff]
    rintro (hk | ⟨c, hc, hk⟩)
    · exact hpassed.2.1 hk
    · exact hpassed.2.2 c hc hk

end Runs

/-! ## Every transaction commits -/

section Commit

variable [Fintype ι]

/-- What one transaction has still to do. -/
def Tx.work (tx : Option (Tx κ)) : ℕ := (tx.map fun tx => tx.todo.length + 1).getD 0

/-- What is still to do. -/
def State.work (s : State ι κ) : ℕ := ∑ i, Tx.work (s.txs i)

variable [DecidableEq ι]

theorem work_update_lt {s : State ι κ} {i : ι} {tx : Option (Tx κ)}
    (h : Tx.work tx < Tx.work (s.txs i)) (stored : Finset κ) :
    State.work ⟨stored, Function.update s.txs i tx⟩ < s.work := by
  apply Finset.sum_lt_sum
  · intro j _
    by_cases hj : j = i
    · subst hj
      simpa using h.le
    · simp [hj]
  · exact ⟨i, Finset.mem_univ i, by simpa using h⟩

variable [DecidableEq κ]

theorem Step.work_lt {s t : State ι κ} {e : Label ι} (h : Step s e t) : t.work < s.work := by
  cases h with
  | skip hi _ => exact work_update_lt (by rw [hi]; simp [Tx.work]) _
  | insert hi _ _ => exact work_update_lt (by rw [hi]; simp [Tx.work]) _
  | commit hi => exact work_update_lt (by rw [hi]; simp [Tx.work]) _

/-- Without a cycle somebody can go on. -/
theorem progress {s : State ι κ} (hlive : ¬ Deadlocked s) {i : ι} {tx : Tx κ}
    (hi : s.txs i = some tx) : ∃ e t, Step s e t := by
  by_contra hstuck
  push Not at hstuck
  refine hlive (exists_cycle (D := {j | ∃ tx, s.txs j = some tx}) ⟨i, tx, hi⟩ ?_)
  rintro j ⟨⟨todo, held⟩, hj⟩
  cases todo with
  | nil => exact absurd (.commit hj) (hstuck _ _)
  | cons k todo =>
      have hnew : k ∉ s.stored := fun hk => hstuck _ _ (.skip hj hk)
      have hheld : HeldByOther s j k := by
        by_contra hfree
        exact hstuck _ _ (.insert hj hnew hfree)
      obtain ⟨c, other, hne, hc, hk⟩ := hheld
      exact ⟨c, ⟨other, hc⟩, k, todo, held, other, hj, hnew, hne, hc, hk⟩

/-- No run leads into a cycle of waits; and however a run goes on, it comes to
an end, and has committed every transaction there. -/
structure AllCommit (lists : ι → List κ) (stored : Finset κ) : Prop where
  acyclic : ∀ s, (machine lists stored).Reachable s → ¬ Deadlocked s
  bounded : ∀ s, (machine lists stored).Reachable s → ∀ e t, Step s e t → t.work < s.work
  committed : ∀ s, (machine lists stored).Reachable s → (∀ e t, ¬ Step s e t) →
    ∀ i, s.txs i = none

/-- The transactions always commit exactly when their lists do not cross. -/
theorem allCommit_iff (lists : ι → List κ) (stored : Finset κ) :
    AllCommit lists stored ↔ ¬ Crossing lists stored := by
  constructor
  · intro h hcross
    obtain ⟨s, hs, hdead⟩ := exists_deadlocked hcross
    exact h.acyclic s hs hdead
  · intro hcross
    have hlive : ∀ s, (machine lists stored).Reachable s → ¬ Deadlocked s :=
      fun s hs hdead => hcross ((inv_of_reachable hs).crossing_of_deadlocked hdead)
    refine ⟨hlive, fun s _ e t hstep => hstep.work_lt, fun s hs hstuck i => ?_⟩
    by_contra hopen
    obtain ⟨tx, hi⟩ := Option.ne_none_iff_exists'.mp hopen
    obtain ⟨e, t, hstep⟩ := progress (hlive s hs) hi
    exact hstuck e t hstep

end Commit

end KeyWaits
