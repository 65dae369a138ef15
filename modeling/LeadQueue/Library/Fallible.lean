import Mathlib.Data.List.Forall2

/-!
# Computations that may raise

Inversion rules for `Except`: what a sequence, and a traversal of a list, did
when it returned.
-/

namespace Fallible

variable {α β ε : Type}

theorem bind_eq_ok_iff {x : Except ε α} {f : α → Except ε β} {b : β} :
    (x >>= f) = .ok b ↔ ∃ a, x = .ok a ∧ f a = .ok b := by
  cases x <;> simp [bind, Except.bind]

theorem map_eq_ok_iff {x : Except ε α} {f : α → β} {b : β} :
    x.map f = .ok b ↔ ∃ a, x = .ok a ∧ f a = b := by
  cases x <;> simp [Except.map]

theorem pure_eq_ok_iff {a b : α} : (pure a : Except ε α) = .ok b ↔ a = b := by
  simp [pure, Except.pure]

/-- A value that was returned and passes a test. -/
theorem exists_ok_of_any {x : Except ε α} {p : α → Bool} (h : x.toOption.any p = true) :
    ∃ a, x = .ok a ∧ p a = true := by
  cases x with
  | error e => cases h
  | ok a => exact ⟨a, rfl, h⟩

/-- A traversal returns exactly when every element does, with the elements'
results in order. -/
theorem mapM_eq_ok_iff (f : α → Except ε β) (xs : List α) (ys : List β) :
    xs.mapM f = .ok ys ↔ List.Forall₂ (fun x y => f x = .ok y) xs ys := by
  induction xs generalizing ys with
  | nil => cases ys <;> simp [pure, Except.pure]
  | cons x xs ih =>
      simp only [List.mapM_cons, bind_eq_ok_iff, pure_eq_ok_iff]
      constructor
      · rintro ⟨y, hy, rest, hrest, rfl⟩
        exact .cons hy ((ih rest).mp hrest)
      · rintro (_ | ⟨hy, hrest⟩)
        exact ⟨_, hy, _, (ih _).mpr hrest, rfl⟩

theorem mapM_isOk_iff {f : α → Except ε β} {xs : List α} :
    (∃ ys, xs.mapM f = .ok ys) ↔ ∀ x ∈ xs, ∃ y, f x = .ok y := by
  induction xs with
  | nil => simp [pure, Except.pure]
  | cons x xs ih =>
      simp only [List.mapM_cons, bind_eq_ok_iff, pure_eq_ok_iff, List.forall_mem_cons]
      constructor
      · rintro ⟨_, y, hy, ys, hys, _⟩
        exact ⟨⟨y, hy⟩, ih.mp ⟨ys, hys⟩⟩
      · rintro ⟨⟨y, hy⟩, hrest⟩
        obtain ⟨ys, hys⟩ := ih.mpr hrest
        exact ⟨_, y, hy, ys, hys, rfl⟩

/-- A function that returns `g x` exactly where `p x` holds, along a list. -/
theorem mapM_eq_ok_map_iff {f : α → Except ε β} {g : α → β} {p : α → Prop}
    (h : ∀ x y, f x = .ok y ↔ p x ∧ y = g x) {xs : List α} {ys : List β} :
    xs.mapM f = .ok ys ↔ (∀ x ∈ xs, p x) ∧ ys = xs.map g := by
  rw [mapM_eq_ok_iff]
  constructor
  · intro hall
    induction hall with
    | nil => exact ⟨List.forall_mem_nil _, rfl⟩
    | cons hxy _ ih =>
        obtain ⟨hp, rfl⟩ := (h _ _).mp hxy
        exact ⟨List.forall_mem_cons.mpr ⟨hp, ih.1⟩, congrArg _ ih.2⟩
  · rintro ⟨hp, rfl⟩
    induction xs with
    | nil => exact .nil
    | cons x xs ih =>
        obtain ⟨hx, hxs⟩ := List.forall_mem_cons.mp hp
        exact .cons ((h _ _).mpr ⟨hx, rfl⟩) (ih hxs)

theorem exists_of_mem_mapM {f : α → Except ε β} {xs : List α} {ys : List β}
    (h : xs.mapM f = .ok ys) {y : β} (hy : y ∈ ys) : ∃ x ∈ xs, f x = .ok y := by
  have hall := (mapM_eq_ok_iff f xs ys).mp h
  induction hall with
  | nil => cases hy
  | @cons x z xs zs hz _ ih =>
      rcases List.mem_cons.mp hy with rfl | hy
      · exact ⟨x, List.mem_cons_self, hz⟩
      · obtain ⟨x', hx', hfx⟩ := ih ((mapM_eq_ok_iff f xs zs).mpr ‹_›) hy
        exact ⟨x', List.mem_cons_of_mem _ hx', hfx⟩

theorem exists_mem_of_mapM {f : α → Except ε β} {xs : List α} {ys : List β}
    (h : xs.mapM f = .ok ys) {x : α} (hx : x ∈ xs) : ∃ y ∈ ys, f x = .ok y := by
  have hall := (mapM_eq_ok_iff f xs ys).mp h
  induction hall with
  | nil => cases hx
  | @cons z y zs ys hz _ ih =>
      rcases List.mem_cons.mp hx with rfl | hx
      · exact ⟨y, List.mem_cons_self, hz⟩
      · obtain ⟨y', hy', hfy⟩ := ih ((mapM_eq_ok_iff f zs ys).mpr ‹_›) hx
        exact ⟨y', List.mem_cons_of_mem _ hy', hfy⟩

/-- A preorder kept by every step of a fold relates its two ends. -/
theorem foldlM_rel (R : β → β → Prop) {f : β → α → Except ε β} (hrefl : ∀ b, R b b)
    (htrans : ∀ a b c, R a b → R b c → R a c) (hstep : ∀ b a b', f b a = .ok b' → R b b')
    {xs : List α} : ∀ {b b' : β}, xs.foldlM f b = .ok b' → R b b' := by
  induction xs with
  | nil =>
      intro b b' h
      cases h
      exact hrefl b
  | cons x xs ih =>
      intro b b' h
      rw [List.foldlM_cons] at h
      obtain ⟨mid, hmid, hrest⟩ := bind_eq_ok_iff.mp h
      exact htrans _ _ _ (hstep _ _ _ hmid) (ih hrest)

/-- A change of the state that every step of a fold commutes with. -/
theorem foldlM_commute {f : β → α → Except ε β} (φ : β → β)
    (hstep : ∀ b a b', f b a = .ok b' → f (φ b) a = .ok (φ b')) {xs : List α} :
    ∀ {b b' : β}, xs.foldlM f b = .ok b' → xs.foldlM f (φ b) = .ok (φ b') := by
  induction xs with
  | nil =>
      intro b b' h
      cases h
      rfl
  | cons x xs ih =>
      intro b b' h
      rw [List.foldlM_cons] at h ⊢
      obtain ⟨mid, hmid, hrest⟩ := bind_eq_ok_iff.mp h
      exact bind_eq_ok_iff.mpr ⟨φ mid, hstep _ _ _ hmid, ih hrest⟩

/-! ## Checks that report every problem -/

/-- Two checks; what either of them refuses is reported. -/
def both (x : Except (List ε) α) (y : Except (List ε) β) : Except (List ε) (α × β) :=
  match x, y with
  | .ok a, .ok b => .ok (a, b)
  | .ok _, .error es => .error es
  | .error es, .ok _ => .error es
  | .error es, .error fs => .error (es ++ fs)

theorem both_eq_ok_iff {x : Except (List ε) α} {y : Except (List ε) β} {p : α × β} :
    both x y = .ok p ↔ x = .ok p.1 ∧ y = .ok p.2 := by
  obtain ⟨a, b⟩ := p
  cases x <;> cases y <;> simp [both]

/-- The check of every element, `i` the index of the first. -/
def collect (f : ℕ → α → Except (List ε) β) (i : ℕ) : List α → Except (List ε) (List β)
  | [] => .ok []
  | x :: xs => (both (f i x) (collect f (i + 1) xs)).map fun p => p.1 :: p.2

/-- What a check reports. -/
def problems : Except (List ε) α → List ε
  | .ok _ => []
  | .error es => es

end Fallible
