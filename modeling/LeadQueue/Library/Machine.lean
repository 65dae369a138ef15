import Mathlib.Logic.Basic

/-!
# Labelled machines and their runs

A machine is a set of initial states and a labelled step relation. Its
reachable states are those of runs whose every step meets a condition on the
state before it and the label; the unrestricted runs are the case in which the
condition always holds. A projection follows one component of the state
through a run of a second, smaller machine.
-/

namespace Transition

structure Machine (σ ε : Type*) where
  init : σ → Prop
  step : σ → ε → σ → Prop

namespace Machine

variable {σ ε τ δ : Type*} {M : Machine σ ε}

/-- States of the runs in which every step `s -e->` has `ok s e`. -/
inductive ReachableBy (M : Machine σ ε) (ok : σ → ε → Prop) : σ → Prop where
  | init {s : σ} : M.init s → ReachableBy M ok s
  | step {s t : σ} {e : ε} :
      ReachableBy M ok s → ok s e → M.step s e t → ReachableBy M ok t

/-- States of all runs. -/
abbrev Reachable (M : Machine σ ε) : σ → Prop := M.ReachableBy (fun _ _ => True)

/-- What holds initially and is kept by every step taken from a reachable state
holds of every reachable state. -/
theorem ReachableBy.invariant {ok : σ → ε → Prop} {I : σ → Prop}
    (hinit : ∀ s, M.init s → I s)
    (hstep : ∀ s e t, M.ReachableBy ok s → I s → ok s e → M.step s e t → I t)
    {s : σ} (h : M.ReachableBy ok s) : I s := by
  induction h with
  | init h0 => exact hinit _ h0
  | step hs hok hst ih => exact hstep _ _ _ hs ih hok hst

theorem ReachableBy.mono {ok ok' : σ → ε → Prop} (hsub : ∀ s e, ok s e → ok' s e)
    {s : σ} (h : M.ReachableBy ok s) : M.ReachableBy ok' s := by
  induction h with
  | init h0 => exact .init h0
  | step _ hok hst ih => exact .step ih (hsub _ _ hok) hst

theorem ReachableBy.reachable {ok : σ → ε → Prop} {s : σ} (h : M.ReachableBy ok s) :
    M.Reachable s :=
  h.mono fun _ _ _ => trivial

/-! ## Later states -/

/-- `t` is reached from `s` by steps that all meet `ok`. -/
inductive LaterBy (M : Machine σ ε) (ok : σ → ε → Prop) (s : σ) : σ → Prop where
  | refl : LaterBy M ok s s
  | step {t u : σ} {e : ε} : LaterBy M ok s t → ok t e → M.step t e u → LaterBy M ok s u

abbrev Later (M : Machine σ ε) : σ → σ → Prop := M.LaterBy (fun _ _ => True)

theorem LaterBy.mono {ok ok' : σ → ε → Prop} (hsub : ∀ s e, ok s e → ok' s e) {s t : σ}
    (h : M.LaterBy ok s t) : M.LaterBy ok' s t := by
  induction h with
  | refl => exact .refl
  | step _ hok hst ih => exact .step ih (hsub _ _ hok) hst

/-- A state after a reachable one is reachable. -/
theorem LaterBy.reachableBy {ok : σ → ε → Prop} {s t : σ} (h : M.LaterBy ok s t)
    (hs : M.ReachableBy ok s) : M.ReachableBy ok t := by
  induction h with
  | refl => exact hs
  | step _ hok hst ih => exact .step ih hok hst

theorem LaterBy.reachable {ok : σ → ε → Prop} {s t : σ} (h : M.LaterBy ok s t)
    (hs : M.Reachable s) : M.Reachable t :=
  (h.mono fun _ _ _ => trivial : M.Later s t).reachableBy hs

theorem LaterBy.trans {ok : σ → ε → Prop} {s t u : σ} (h : M.LaterBy ok s t)
    (h' : M.LaterBy ok t u) : M.LaterBy ok s u := by
  induction h' with
  | refl => exact h
  | step _ hok hst ih => exact .step ih hok hst

/-- What holds of a reachable state and is kept by every step after it holds of
every later state. -/
theorem LaterBy.keeps {ok : σ → ε → Prop} {I : σ → Prop} {s t : σ} (h : M.LaterBy ok s t)
    (hs : M.Reachable s) (h0 : I s)
    (hstep : ∀ t e u, M.Reachable t → I t → ok t e → M.step t e u → I u) : I t := by
  induction h with
  | refl => exact h0
  | step hlater hok hst ih => exact hstep _ _ _ (hlater.reachable hs) ih hok hst

/-! ## Machines given by a function

With the label fixed the step is often a function that may refuse, and a run is
then computed from its labels. A label may be chosen from the state it is
performed in. -/

/-- The machine of a step function: `none` means the label is not enabled. -/
def ofFun (init : σ → Prop) (f : σ → ε → Option σ) : Machine σ ε where
  init := init
  step s e t := f s e = some t

/-- The state after the moves, all of whose labels meet `ok`. -/
def play (f : σ → ε → Option σ) (ok : σ → ε → Prop) [∀ s e, Decidable (ok s e)] :
    σ → List (σ → ε) → Option σ
  | s, [] => some s
  | s, m :: ms => if ok s (m s) then (f s (m s)).bind fun t => play f ok t ms else none

theorem laterBy_of_play {init : σ → Prop} {f : σ → ε → Option σ} {ok : σ → ε → Prop}
    [∀ s e, Decidable (ok s e)] {moves : List (σ → ε)} :
    ∀ {s t u : σ}, (ofFun init f).LaterBy ok s t → play f ok t moves = some u →
      (ofFun init f).LaterBy ok s u := by
  induction moves with
  | nil =>
      intro s t u hst h
      cases h
      exact hst
  | cons m ms ih =>
      intro s t u hst h
      rw [play] at h
      split at h
      · rename_i hok
        obtain ⟨v, hv, hu⟩ := Option.bind_eq_some_iff.mp h
        exact ih (.step hst hok hv) hu
      · cases h

theorem reachableBy_of_play {init : σ → Prop} {f : σ → ε → Option σ} {ok : σ → ε → Prop}
    [∀ s e, Decidable (ok s e)] {moves : List (σ → ε)} {s t : σ}
    (hs : (ofFun init f).ReachableBy ok s) (h : play f ok s moves = some t) :
    (ofFun init f).ReachableBy ok t :=
  (laterBy_of_play .refl h).reachableBy hs

/-- A computed run that ends in a state with a decidable property is a
reachable state with that property. -/
theorem exists_reachableBy_of_play {init : σ → Prop} {f : σ → ε → Option σ} {ok : σ → ε → Prop}
    [∀ s e, Decidable (ok s e)] {s : σ} {moves : List (σ → ε)} {p : σ → Bool} (hs : init s)
    (h : (play f ok s moves).any p = true) :
    ∃ t, (ofFun init f).ReachableBy ok t ∧ p t = true := by
  cases hrun : play f ok s moves with
  | none => simp [hrun] at h
  | some t => exact ⟨t, reachableBy_of_play (.init hs) hrun, by simpa [hrun] using h⟩

/-- A computed run, cut in two. -/
theorem exists_laterBy_of_play {init : σ → Prop} {f : σ → ε → Option σ} {ok ok' : σ → ε → Prop}
    [∀ s e, Decidable (ok s e)] [∀ s e, Decidable (ok' s e)] {s : σ} {moves moves' : List (σ → ε)}
    {p : σ → σ → Bool} (hs : init s)
    (h : ((play f ok s moves).any fun t => (play f ok' t moves').any (p t)) = true) :
    ∃ t u, (ofFun init f).ReachableBy ok t ∧ (ofFun init f).LaterBy ok' t u ∧ p t u = true := by
  obtain ⟨t, ht, hp⟩ := exists_reachableBy_of_play hs h
  cases hrun : play f ok' t moves' with
  | none => simp [hrun] at hp
  | some u => exact ⟨t, u, ht, laterBy_of_play .refl hrun, by simpa [hrun] using hp⟩

/-! ## Projections -/

/-- `view` follows a component of an `M`-state (`none` while it does not exist
yet) and every `ok`-step of `M` leaves it alone, creates it, or is an `ok'`-step
of `N` on it. -/
structure Projection (M : Machine σ ε) (N : Machine τ δ)
    (ok : σ → ε → Prop) (ok' : τ → δ → Prop) where
  view : σ → Option τ
  init : ∀ s x, M.init s → view s = some x → N.init x
  step : ∀ s e t y, M.ReachableBy ok s → ok s e → M.step s e t → view t = some y →
    view s = some y ∨ (view s = none ∧ N.init y) ∨
      ∃ x d, view s = some x ∧ ok' x d ∧ N.step x d y

/-- The component of a reachable state is a reachable state of the small
machine, along a run that meets the projected condition. -/
theorem Projection.reachable {N : Machine τ δ} {ok : σ → ε → Prop} {ok' : τ → δ → Prop}
    (P : Projection M N ok ok') {s : σ} (h : M.ReachableBy ok s) :
    ∀ x, P.view s = some x → N.ReachableBy ok' x := by
  induction h with
  | init h0 => exact fun x hx => .init (P.init _ x h0 hx)
  | step hs hok hst ih =>
      intro y hy
      rcases P.step _ _ _ y hs hok hst hy with hsame | ⟨_, hnew⟩ | ⟨x, d, hx, hd, hstep⟩
      · exact ih y hsame
      · exact .init hnew
      · exact .step (ih x hx) hd hstep

end Machine

end Transition
