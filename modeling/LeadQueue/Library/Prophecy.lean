import LeadQueue.Library.Machine

/-!
# Simulation with a guess

A concrete machine often settles late what an abstract one has to know early:
which of the operations under way will be carried through. The relation between
the two then takes a guess at that, and a step of the concrete machine is
matched backwards in the guess: for every guess that is sound after the step
there is one before it, from whose abstract state the step can be followed.
-/

namespace Transition.Machine

variable {σ ε τ δ π : Type*} {M : Machine σ ε} {N : Machine τ δ}

/-- `rel s p t`: if the guess `p` comes true, `t` stands for `s`. -/
structure Guided (M : Machine σ ε) (N : Machine τ δ) (inv : σ → Prop) (valid : σ → π → Prop)
    (rel : σ → π → τ → Prop) : Prop where
  init : ∀ s, M.init s → inv s ∧ ∀ p, valid s p → ∃ t, N.init t ∧ rel s p t
  step : ∀ s e s', inv s → (∀ p, valid s p → ∃ t, N.Reachable t ∧ rel s p t) → M.step s e s' →
    inv s' ∧ ∀ p', valid s' p' → ∃ p, valid s p ∧
      ∀ t, N.Reachable t → rel s p t → ∃ t', N.Later t t' ∧ rel s' p' t'

namespace Guided

variable {inv : σ → Prop} {valid : σ → π → Prop} {rel : σ → π → τ → Prop} {s s' : σ}

/-- Every sound guess at a reachable state has its abstract state. -/
theorem reachable (G : Guided M N inv valid rel) (h : M.Reachable s) :
    inv s ∧ ∀ p, valid s p → ∃ t, N.Reachable t ∧ rel s p t := by
  induction h with
  | init h0 =>
      obtain ⟨hinv, hall⟩ := G.init _ h0
      refine ⟨hinv, fun p hp => ?_⟩
      obtain ⟨t, ht, hrel⟩ := hall p hp
      exact ⟨t, .init ht, hrel⟩
  | step _ _ hst ih =>
      obtain ⟨hinv, hstep⟩ := G.step _ _ _ ih.1 ih.2 hst
      refine ⟨hinv, fun p' hp' => ?_⟩
      obtain ⟨p, hp, hmatch⟩ := hstep p' hp'
      obtain ⟨t, ht, hrel⟩ := ih.2 p hp
      obtain ⟨t', hlater, hrel'⟩ := hmatch t ht hrel
      exact ⟨t', hlater.reachable ht, hrel'⟩

/-- A run is followed from the abstract state of a guess that is sound where it
starts. -/
theorem later (G : Guided M N inv valid rel) (hs : M.Reachable s) (h : M.Later s s') :
    ∀ p', valid s' p' → ∃ p, valid s p ∧
      ∀ t, N.Reachable t → rel s p t → ∃ t', N.Later t t' ∧ rel s' p' t' := by
  induction h with
  | refl => exact fun p' hp' => ⟨p', hp', fun t _ hrel => ⟨t, .refl, hrel⟩⟩
  | step hlater _ hst ih =>
      intro p' hp'
      obtain ⟨hinv, hall⟩ := G.reachable (hlater.reachable hs)
      obtain ⟨q, hq, hmatch⟩ := (G.step _ _ _ hinv hall hst).2 p' hp'
      obtain ⟨p, hp, hbefore⟩ := ih q hq
      refine ⟨p, hp, fun t ht hrel => ?_⟩
      obtain ⟨u, hu, hrelu⟩ := hbefore t ht hrel
      obtain ⟨t', ht', hrel'⟩ := hmatch u (hu.reachable ht) hrelu
      exact ⟨t', hu.trans ht', hrel'⟩

end Guided

end Transition.Machine
