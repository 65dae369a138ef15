import LeadQueue.Life.Invariant

/-!
# The journal keeps what it knows

An entry is never removed. A known outcome is final, and a placeholder gives way
once, to what the worker of the claim reports. A reclaim and a late record may
meet the same entry in either order; the final entry is the reported one.
-/

namespace LeadQueue

open Relational Transition

/-- The entry says what the worker of claim `c` reported. -/
structure Attempt.Reports (a : Attempt) (c : Claim) (result : AttemptResult) : Prop where
  outcome : a.outcome = if result.succeeded then .success else .failure
  errorKind : a.errorKind = result.errorKind
  statusCode : a.statusCode = result.statusCode
  workerId : a.workerId = c.workerId

namespace Life

/-- The insert of a record, over nothing or over a placeholder. -/
theorem journalAfter_reports {c : Claim} {result : AttemptResult} {ms : Int4}
    {text : Option PgText} {scheduled : Option Instant} {old : Option Attempt}
    (hold : ∀ a, old = some a → a.outcome = .unknown) :
    (journalAfter (attemptEntry c.workerId c.delivery result ms text scheduled) old).Reports
      c result := by
  cases old with
  | none => exact ⟨rfl, rfl, rfl, rfl⟩
  | some a =>
      show (replaceUnknown _ a).Reports c result
      rw [replaceUnknown, if_pos (hold a rfl)]
      exact ⟨rfl, rfl, rfl, rfl⟩

/-! ## What a recorded result leaves -/

/-- The entry of every recorded result says what was reported. -/
def Faithful (l : Life) : Prop :=
  ∀ n result, l.results n = some result →
    ∃ c a, l.claims n = some c ∧ l.journal n = some a ∧ a.Reports c result

theorem Faithful.of_starts {l : Life} (h : l.Starts) : l.Faithful := by
  obtain ⟨_, _, _, _, _, _, _, hresults, _⟩ := h
  intro n result hn
  rw [hresults] at hn
  cases hn

theorem Faithful.claimed {settings : Settings} {l : Life} {workerId : WorkerId} {now : Instant}
    {request : Request} {lost : Option Attempt} (h : l.Faithful) :
    Faithful (l.claimed settings workerId now request lost) := by
  intro n result hn
  obtain ⟨c, a, hc, ha, hreports⟩ := h n result hn
  exact ⟨c, a, addNew_of_some _ _ hc, addNew_of_some _ _ ha, hreports⟩

theorem Faithful.recorded {settings : Settings} {l : Life} {n : ℕ} {c : Claim}
    {result : AttemptResult} {row : Delivery} {ms : Int4} {text : Option PgText}
    {scheduled : Option Instant} (h : l.Faithful) (hinv : l.Inv settings)
    (hnone : l.results n = none) (hc : l.claims n = some c) :
    Faithful (l.recorded n result row
      (attemptEntry c.workerId c.delivery result ms text scheduled)) := by
  intro k reported hk
  rcases eq_some_of_addNew hk with hold | ⟨_, rfl, hnew⟩
  · obtain ⟨c', a, hc', ha, hreports⟩ := h k reported hold
    have hne : k ≠ n := by
      rintro rfl
      rw [hnone] at hold
      cases hold
    exact ⟨c', a, hc', (journal_recorded_of_ne hne).trans ha, hreports⟩
  · obtain rfl : result = reported := Option.some.inj hnew
    refine ⟨c, _, hc, journal_recorded_self, ?_⟩
    exact journalAfter_reports fun a ha => hinv.unrecorded hnone ha

theorem Faithful.step {settings : Settings} {l l' : Life} {d : Event} (h : l.Faithful)
    (hinv : l.Inv settings) (hstep : Step settings l d l') : l'.Faithful := by
  cases hstep with
  | advance _ => exact h
  | claim _ _ _ => exact h.claimed
  | success _ hnone hc _ _ => exact h.recorded hinv hnone hc
  | failure _ hnone hc _ _ _ _ => exact h.recorded hinv hnone hc
  | requeue _ _ => exact h

/-! ## What a step can do to an entry -/

theorem Step.results {settings : Settings} {l l' : Life} {d : Event}
    (hstep : Step settings l d l') {n : ℕ} (hn : (l.results n).isSome) :
    (l'.results n).isSome := by
  cases hstep with
  | success _ _ _ _ _ => exact (isSome_addNew _ _ _ _).mpr (Or.inl hn)
  | failure _ _ _ _ _ _ _ => exact (isSome_addNew _ _ _ _).mpr (Or.inl hn)
  | _ => exact hn

/-- A record changes the entry of its own attempt, which is a placeholder. -/
theorem recorded_journal {settings : Settings} {l : Life} {n k : ℕ} {result : AttemptResult}
    {row : Delivery} {entry a : Attempt} (hinv : l.Inv settings) (hnone : l.results n = none)
    (ha : l.journal k = some a) :
    (l.recorded n result row entry).journal k = some a ∨
      (a.outcome = .unknown ∧ ((l.recorded n result row entry).results k).isSome) := by
  by_cases hk : k = n
  · subst hk
    exact Or.inr ⟨hinv.unrecorded hnone ha, (isSome_addNew _ _ _ _).mpr (Or.inr ⟨rfl, rfl⟩)⟩
  · exact Or.inl ((journal_recorded_of_ne hk).trans ha)

theorem Step.journal {settings : Settings} {l l' : Life} {d : Event} (hinv : l.Inv settings)
    (hstep : Step settings l d l') {n : ℕ} {a : Attempt} (ha : l.journal n = some a) :
    l'.journal n = some a ∨ (a.outcome = .unknown ∧ (l'.results n).isSome) := by
  cases hstep with
  | advance _ => exact Or.inl ha
  | claim _ _ _ => exact Or.inl (addNew_of_some _ _ ha)
  | success _ hnone _ _ _ => exact recorded_journal hinv hnone ha
  | failure _ hnone _ _ _ _ _ => exact recorded_journal hinv hnone ha
  | requeue _ _ => exact Or.inl ha

end Life

theorem faithful_of_reachable {settings : Settings} {l : Life}
    (h : (life settings).Reachable l) : l.Faithful :=
  h.invariant (fun _ => Life.Faithful.of_starts)
    fun _ _ _ hs hfaithful _ hstep => hfaithful.step (life_inv hs) hstep

/-- An entry stays as it is, or it was a placeholder and the result is known. -/
theorem journal_later {settings : Settings} {l l' : Life} (hl : (life settings).Reachable l)
    (h : (life settings).Later l l') {n : ℕ} {a : Attempt} (ha : l.journal n = some a) :
    l'.journal n = some a ∨ (a.outcome = .unknown ∧ (l'.results n).isSome) := by
  induction h with
  | refl => exact Or.inl ha
  | step hlater _ hstep ih =>
      rcases ih with hsame | ⟨hunknown, hresult⟩
      · exact Life.Step.journal (life_inv (hlater.reachable hl)) hstep hsame
      · exact Or.inr ⟨hunknown, Life.Step.results hstep hresult⟩

/-- A known outcome is final. -/
theorem known_later {settings : Settings} {l l' : Life} (hl : (life settings).Reachable l)
    (h : (life settings).Later l l') {n : ℕ} {a : Attempt} (ha : l.journal n = some a)
    (hknown : a.outcome ≠ .unknown) : l'.journal n = some a :=
  (journal_later hl h ha).resolve_right fun hunknown => hknown hunknown.1

/-- A placeholder stays, or gives way to what was reported. -/
theorem placeholder_later {settings : Settings} {l l' : Life} (hl : (life settings).Reachable l)
    (h : (life settings).Later l l') {n : ℕ} {a : Attempt} (ha : l.journal n = some a) :
    l'.journal n = some a ∨ ∃ c result b, l'.claims n = some c ∧ l'.results n = some result ∧
      l'.journal n = some b ∧ b.Reports c result := by
  rcases journal_later hl h ha with hsame | ⟨_, hresult⟩
  · exact Or.inl hsame
  · obtain ⟨result, hresult⟩ := Option.isSome_iff_exists.mp hresult
    obtain ⟨c, b, hc, hb, hreports⟩ := faithful_of_reachable (h.reachable hl) n result hresult
    exact Or.inr ⟨c, result, b, hc, hresult, hb, hreports⟩

theorem Attempt.Reports.known {a : Attempt} {c : Claim} {result : AttemptResult}
    (h : a.Reports c result) : a.outcome ≠ .unknown := by
  rw [h.outcome]
  split <;> simp

/-! ## The service's journal -/

/-- An entry belongs to a delivery, and its later entry to the later delivery. -/
theorem lives_of_entry {settings : Settings} {s t : Service} (hs : (service settings).Reachable s)
    (h : (service settings).Later s t) {id : DeliveryId} {n : ℕ} {a : Attempt}
    (ha : s.db.deliveryAttempts.get? (id, n) = some a) :
    ∃ x y, s.life id = some x ∧ t.life id = some y ∧ (life settings).Reachable x ∧
      (life settings).Later x y ∧ x.journal n = some a := by
  cases hrow : s.db.deliveries.get? id with
  | none =>
      have hfree := (Service.tidy_of_reachable hs id hrow n).2.2
      rw [ha] at hfree
      cases hfree
  | some row =>
      have hx := Service.life_eq_some_iff.mpr ⟨row, hrow, rfl⟩
      obtain ⟨y, hy, hxy⟩ := life_later hs (Service.everywhere_of_later h) hx
      exact ⟨_, y, hx, hy, life_of_reachable hs hx, hxy, ha⟩

theorem result?_life {settings : Settings} {s : Service} (hs : (service settings).Reachable s)
    {id : DeliveryId} {n : ℕ} {result : AttemptResult} (h : s.result? id n = some result) :
    ∃ x, s.life id = some x ∧ x.results n = some result := by
  cases hrow : s.db.deliveries.get? id with
  | none =>
      have hfree := (Service.tidy_of_reachable hs id hrow n).2.1
      rw [h] at hfree
      cases hfree
  | some row => exact ⟨_, Service.life_eq_some_iff.mpr ⟨row, hrow, rfl⟩, h⟩

/-- Over every run: a known entry is never changed; a placeholder is kept, or
gives way for good to the result of the claim's own worker; and the entry of a
committed result carries that result. -/
theorem journal_keeps_known {settings : Settings} {s t u : Service}
    (hs : (service settings).Reachable s) (hst : (service settings).Later s t)
    (htu : (service settings).Later t u) :
    (∀ id n a, s.db.deliveryAttempts.get? (id, n) = some a → a.outcome ≠ .unknown →
      t.db.deliveryAttempts.get? (id, n) = some a) ∧
    (∀ id n a, s.db.deliveryAttempts.get? (id, n) = some a → a.outcome = .unknown →
      t.db.deliveryAttempts.get? (id, n) = some a ∨
      ∃ c result b, t.claim? id n = some c ∧ t.result? id n = some result ∧
        t.db.deliveryAttempts.get? (id, n) = some b ∧ b.Reports c result ∧
        u.db.deliveryAttempts.get? (id, n) = some b) ∧
    (∀ id n result, t.result? id n = some result →
      ∃ c b, t.claim? id n = some c ∧ t.db.deliveryAttempts.get? (id, n) = some b ∧
        b.Reports c result) := by
  have ht := hst.reachable hs
  refine ⟨?_, ?_, ?_⟩
  · intro id n a ha hknown
    obtain ⟨x, y, _, hy, hx, hxy, hxa⟩ := lives_of_entry hs hst ha
    obtain ⟨_, _, _, _, _, hjournal⟩ := Service.parts_of_life hy
    rw [← hjournal]
    exact known_later hx hxy hxa hknown
  · intro id n a ha _
    obtain ⟨x, y, _, hy, hx, hxy, hxa⟩ := lives_of_entry hs hst ha
    obtain ⟨_, _, _, hclaims, hresults, hjournal⟩ := Service.parts_of_life hy
    rcases placeholder_later hx hxy hxa with hsame | ⟨c, result, b, hc, hresult, hb, hreports⟩
    · exact Or.inl ((hjournal n).symm.trans hsame)
    · rw [hjournal] at hb
      refine Or.inr ⟨c, result, b, hclaims ▸ hc, hresults ▸ hresult, hb, hreports, ?_⟩
      obtain ⟨_, z, _, hz, hy', hyz, hyb⟩ := lives_of_entry ht htu hb
      obtain ⟨_, _, _, _, _, hjournal'⟩ := Service.parts_of_life hz
      rw [← hjournal']
      exact known_later hy' hyz hyb hreports.known
  · intro id n result hresult
    obtain ⟨y, hy, hyresult⟩ := result?_life ht hresult
    obtain ⟨_, _, _, hclaims, _, hjournal⟩ := Service.parts_of_life hy
    obtain ⟨c, b, hc, hb, hreports⟩ :=
      faithful_of_reachable (life_of_reachable ht hy) n result hyresult
    exact ⟨c, b, hclaims ▸ hc, (hjournal n).symm.trans hb, hreports⟩

/-- The reclaim's placeholder for attempt 1 gives way to A's late answer. -/
theorem journal_keeps_known_lateAnswer :
    ∃ s t a b, (service .default).Reachable s ∧ (service .default).Later s t ∧
      s.db.deliveryAttempts.get? (Move.first, 1) = some a ∧ a.outcome = .unknown ∧
      t.db.deliveryAttempts.get? (Move.first, 1) = some b ∧ b.outcome = .success := by
  obtain ⟨s, t, hs, hst, hp⟩ := exists_later_of_moves .default (fun _ _ => True)
    [Move.accept 0 Move.lead, Move.claim .default Move.workerA 1, Move.advance 100000000,
      Move.claim .default Move.workerB 1]
    [Move.record Move.first 1 Move.confirmed]
    (fun s t => (s.db.deliveryAttempts.get? (Move.first, 1)).any
        (fun a : Attempt => decide (a.outcome = .unknown)) &&
      decide (t.result? Move.first 1 = some Move.confirmed)) (by decide +kernel)
  simp only [Bool.and_eq_true, Option.any_eq_true, decide_eq_true_eq] at hp
  obtain ⟨⟨a, ha, hunknown⟩, hresult⟩ := hp
  obtain ⟨c, b, _, hb, hreports⟩ := (journal_keeps_known hs hst .refl).2.2 _ _ _ hresult
  exact ⟨s, t, a, b, hs, hst, ha, hunknown, hb, hreports.outcome⟩

end LeadQueue
