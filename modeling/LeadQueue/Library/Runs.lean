import LeadQueue.Library.Machine
import Mathlib.Algebra.BigOperators.Group.List.Basic
import Mathlib.Algebra.GroupWithZero.Nat
import Mathlib.Tactic.Common

/-!
# Counting the steps of a run

A run that keeps its steps, each with the state it was taken in. The rule is
the one of amortised accounting: if every step pays for its gain out of its
cost and a potential, the gains of a whole run are paid for out of its costs and
the potential it started with.
-/

namespace Transition.Machine

variable {σ ε : Type*} {M : Machine σ ε}

/-- `t` is reached from `s` by the steps of `trace`. -/
inductive Run (M : Machine σ ε) (s : σ) : List (σ × ε) → σ → Prop where
  | nil : Run M s [] s
  | snoc {trace : List (σ × ε)} {t u : σ} {e : ε} :
      Run M s trace t → M.step t e u → Run M s (trace ++ [(t, e)]) u

namespace Run

variable {s t u : σ} {trace trace' : List (σ × ε)}

theorem append (h : M.Run s trace t) (h' : M.Run t trace' u) :
    M.Run s (trace ++ trace') u := by
  induction h' with
  | nil => simpa using h
  | snoc _ hst ih =>
      rw [← List.append_assoc]
      exact .snoc ih hst

theorem reachable (h : M.Run s trace t) (hs : M.Reachable s) : M.Reachable t := by
  induction h with
  | nil => exact hs
  | snoc _ hst ih => exact .step ih trivial hst

/-- Every step of a run meets `ok` when its trace does. -/
theorem laterBy {ok : σ → ε → Prop} (h : M.Run s trace t) (hok : ∀ x ∈ trace, ok x.1 x.2) :
    M.LaterBy ok s t := by
  induction h with
  | nil => exact .refl
  | snoc _ hst ih =>
      refine .step (ih fun x hx => hok x (List.mem_append_left _ hx)) ?_ hst
      exact hok _ (List.mem_append_right _ (List.mem_singleton_self _))

/-- A state's future is a run. -/
theorem exists_of_laterBy {ok : σ → ε → Prop} (h : M.LaterBy ok s t) :
    ∃ trace, M.Run s trace t ∧ ∀ x ∈ trace, ok x.1 x.2 := by
  induction h with
  | refl => exact ⟨[], .nil, by simp⟩
  | step _ hok hst ih =>
      obtain ⟨trace, hrun, hall⟩ := ih
      refine ⟨_, .snoc hrun hst, fun x hx => ?_⟩
      rcases List.mem_append.mp hx with hx | hx
      · exact hall x hx
      · rw [List.mem_singleton.mp hx]
        exact hok

/-- Gains are paid for out of costs and potential, in every run whose states keep `I`. -/
theorem account {I : σ → Prop} {μ : σ → ℕ} {gain cost : σ × ε → ℕ} (h : M.Run s trace t)
    (h0 : I s) (hstep : ∀ s e t, I s → M.step s e t →
      I t ∧ gain (s, e) + μ t ≤ cost (s, e) + μ s) :
    I t ∧ (trace.map gain).sum + μ t ≤ (trace.map cost).sum + μ s := by
  induction h with
  | nil => exact ⟨h0, by simp⟩
  | snoc hrun hst ih =>
      obtain ⟨hI, hle⟩ := ih
      obtain ⟨hI', hone⟩ := hstep _ _ _ hI hst
      refine ⟨hI', ?_⟩
      simp only [List.map_append, List.sum_append, List.map_singleton, List.sum_singleton]
      omega

theorem sum_map_toNat {α : Type*} (p : α → Bool) (xs : List α) :
    (xs.map fun x => (p x).toNat).sum = xs.countP p := by
  induction xs with
  | nil => rfl
  | cons x xs ih =>
      rw [List.map_cons, List.sum_cons, ih, List.countP_cons, Nat.add_comm]
      cases p x <;> rfl

/-- Steps that lower a potential are no more than the steps that raise it by
one and what it was at first. -/
theorem countP_le {I : σ → Prop} {μ : σ → ℕ} {p q : σ × ε → Bool} (h : M.Run s trace t)
    (h0 : I s) (hstep : ∀ s e t, I s → M.step s e t →
      I t ∧ (p (s, e)).toNat + μ t ≤ (q (s, e)).toNat + μ s) :
    I t ∧ trace.countP p + μ t ≤ trace.countP q + μ s := by
  have haccount := @account σ ε M s t trace I μ (fun x => (p x).toNat) (fun x => (q x).toNat)
    h h0 hstep
  rwa [sum_map_toNat, sum_map_toNat] at haccount

end Run

/-! ## Computed runs -/

/-- The steps of a computed run, up to the first label that is refused. -/
def steps (f : σ → ε → Option σ) : σ → List (σ → ε) → List (σ × ε)
  | _, [] => []
  | s, m :: ms => (s, m s) :: (f s (m s)).elim [] fun t => steps f t ms

theorem Run.of_play {init : σ → Prop} {f : σ → ε → Option σ} {moves : List (σ → ε)} {s t : σ}
    (h : play f (fun _ _ => True) s moves = some t) :
    (ofFun init f).Run s (steps f s moves) t := by
  induction moves generalizing s with
  | nil =>
      cases h
      exact .nil
  | cons m ms ih =>
      rw [play, if_pos trivial] at h
      obtain ⟨u, hu, hrest⟩ := Option.bind_eq_some_iff.mp h
      have hfirst : (ofFun init f).Run s ([] ++ [(s, m s)]) u := .snoc .nil hu
      rw [steps, hu]
      exact hfirst.append (ih hrest)

/-- A computed run and the steps of its second part. -/
theorem exists_run_of_play {init : σ → Prop} {f : σ → ε → Option σ} {s : σ}
    {moves moves' : List (σ → ε)} {p : σ → List (σ × ε) → Bool} (hs : init s)
    (h : ((play f (fun _ _ => True) s moves).any fun t =>
      (play f (fun _ _ => True) t moves').isSome && p t (steps f t moves')) = true) :
    ∃ t trace u, (ofFun init f).Reachable t ∧ (ofFun init f).Run t trace u ∧ p t trace = true := by
  obtain ⟨t, ht, hp⟩ := exists_reachableBy_of_play hs h
  obtain ⟨hsome, hp⟩ := Bool.and_eq_true_iff.mp hp
  obtain ⟨u, hu⟩ := Option.isSome_iff_exists.mp hsome
  exact ⟨t, steps f t moves', u, ht, .of_play hu, hp⟩

end Transition.Machine
