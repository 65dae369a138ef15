import LeadQueue.Guarantees.JournalHistory

/-!
# Who made an attempt

An entry is written by the worker of its claim, or as a placeholder by the claim
that takes the row over. Both know the lead, the URL and the place in the budget.
But a placeholder is signed by the worker that writes it, so the journal names
the workers that made the attempts exactly while none takes over a lease of
another.
-/

namespace LeadQueue

open Relational Transition

/-- The entry is about the attempt of claim `c`. -/
structure Attempt.About (a : Attempt) (c : Claim) : Prop where
  requestId : a.requestId = c.delivery.requestId
  recipientUrl : a.recipientUrl = c.delivery.recipientUrl
  budgetAttempt : a.budgetAttempt = c.delivery.budgetAttempt

theorem Attempt.key_eq_iff {a : Attempt} {id : DeliveryId} {n : ℕ} :
    a.key = (id, n) ↔ a.deliveryId = id ∧ a.attemptNumber = n := Prod.ext_iff

namespace Life

/-- A lapsed lease is taken over by the worker that held it. -/
def TakesOverOwn (l : Life) : Event → Prop
  | .claim workerId _ => l.row.status = .inFlight → l.row.lockedBy = some workerId
  | _ => True

instance (l : Life) (d : Event) : Decidable (l.TakesOverOwn d) :=
  match d with
  | .claim _ _ => by unfold TakesOverOwn; infer_instance
  | .advance _ | .record _ _ _ _ | .requeue _ => .isTrue trivial

/-- Every entry is about its claim. The worker of the claim signs a known entry,
a worker that `signs` allows signs a placeholder. -/
def Traced (signs : Claim → WorkerId → Prop) (l : Life) : Prop :=
  ∀ n a, l.journal n = some a → ∃ c, l.claims n = some c ∧ a.About c ∧
    (a.outcome ≠ .unknown → a.workerId = c.workerId) ∧
    (a.outcome = .unknown → signs c a.workerId)

/-- The placeholder is made from the row as the claim taken over left it. -/
theorem lostEntry_about {settings : Settings} {clock : Instant} {workerId : WorkerId}
    {now : Instant} {row : Delivery} {a : Attempt} {n : ℕ} {c : Claim}
    (h : lostEntry workerId now row = .ok (some a)) (hfits : c.Fits settings clock row n)
    (hholds : c.Holds row) : a.About c ∧ a.workerId = workerId := by
  unfold lostEntry at h
  split at h
  · obtain ⟨a', ha', heq⟩ := Fallible.map_eq_ok_iff.mp h
    cases heq
    unfold lostAttempt at ha'
    obtain ⟨ms, _, ha'⟩ := Fallible.bind_eq_ok_iff.mp ha'
    cases ha'
    exact ⟨⟨hfits.requestId.symm, hfits.recipientUrl.symm, hholds.attempts⟩, rfl⟩
  · cases h

/-- A record signs the entry, and leaves a placeholder's account of the attempt. -/
theorem journalAfter_about {c : Claim} {result : AttemptResult} {ms : Int4}
    {text : Option PgText} {scheduled : Option Instant} {old : Option Attempt}
    (hold : ∀ a, old = some a → a.outcome = .unknown ∧ a.About c) :
    (journalAfter (attemptEntry c.workerId c.delivery result ms text scheduled) old).About c ∧
      (journalAfter (attemptEntry c.workerId c.delivery result ms text scheduled) old).workerId =
        c.workerId := by
  cases old with
  | none => exact ⟨⟨rfl, rfl, rfl⟩, rfl⟩
  | some a =>
      obtain ⟨hunknown, habout⟩ := hold a rfl
      show (replaceUnknown _ a).About c ∧ (replaceUnknown _ a).workerId = c.workerId
      rw [replaceUnknown, if_pos hunknown]
      exact ⟨⟨habout.requestId, habout.recipientUrl, habout.budgetAttempt⟩, rfl⟩

section Traced

variable {settings : Settings} {signs : Claim → WorkerId → Prop} {l l' : Life}

theorem Traced.of_starts (h : l.Starts) : l.Traced signs := by
  obtain ⟨_, _, _, _, _, _, _, _, hjournal⟩ := h
  intro n a ha
  rw [hjournal] at ha
  cases ha

theorem Traced.claimed {workerId : WorkerId} {now : Instant} {request : Request}
    {lost : Option Attempt} (h : l.Traced signs) (hinv : l.Inv settings)
    (hlost : lostEntry workerId now l.row = .ok lost)
    (hsigns : l.row.status = .inFlight → ∀ c : Claim, c.Holds l.row → signs c workerId) :
    Traced signs (l.claimed settings workerId now request lost) := by
  intro n a ha
  rcases eq_some_of_addNew ha with hold | ⟨_, rfl, rfl⟩
  · obtain ⟨c, hc, habout⟩ := h n a hold
    exact ⟨c, addNew_of_some _ _ hc, habout⟩
  · -- the attempt taken over is that of the claim the row was held by
    obtain ⟨hflight, _, hunknown⟩ := lostEntry_some hlost
    obtain ⟨c, hc, hholds, _⟩ := hinv.held hflight
    obtain ⟨habout, hworker⟩ := lostEntry_about hlost (hinv.fits _ c hc) hholds
    refine ⟨c, addNew_of_some _ _ hc, habout, fun hknown => absurd hunknown hknown, fun _ => ?_⟩
    rw [hworker]
    exact hsigns hflight c hholds

theorem Traced.recorded {n : ℕ} {c : Claim} {result : AttemptResult} {row : Delivery} {ms : Int4}
    {text : Option PgText} {scheduled : Option Instant} (h : l.Traced signs)
    (hinv : l.Inv settings) (hnone : l.results n = none) (hc : l.claims n = some c) :
    Traced signs (l.recorded n result row
      (attemptEntry c.workerId c.delivery result ms text scheduled)) := by
  intro k a ha
  by_cases hk : k = n
  · subst hk
    obtain rfl : _ = a := Option.some.inj (journal_recorded_self.symm.trans ha)
    have hold : ∀ b, l.journal k = some b → b.outcome = .unknown ∧ b.About c := by
      intro b hb
      obtain ⟨c', hc', habout, _⟩ := h k b hb
      obtain rfl : c' = c := Option.some.inj (hc'.symm.trans hc)
      exact ⟨hinv.unrecorded hnone hb, habout⟩
    obtain ⟨habout, hworker⟩ := @journalAfter_about c result ms text scheduled _ hold
    refine ⟨c, hc, habout, fun _ => hworker, fun hunknown => ?_⟩
    rw [journalAfter_outcome fun b hb => (hold b hb).1] at hunknown
    exact absurd hunknown (attemptEntry_outcome_ne _ _ _ _ _ _)
  · exact h k a ((journal_recorded_of_ne hk).symm.trans ha)

theorem Traced.step {d : Event} (h : l.Traced signs) (hinv : l.Inv settings)
    (hsigns : ∀ workerId now, d = .claim workerId now → l.row.status = .inFlight →
      ∀ c : Claim, c.Holds l.row → signs c workerId)
    (hstep : Step settings l d l') : l'.Traced signs := by
  cases hstep with
  | advance _ => exact h
  | claim _ _ hlost => exact h.claimed hinv hlost (hsigns _ _ rfl)
  | success _ hnone hc _ _ => exact h.recorded hinv hnone hc
  | failure _ hnone hc _ _ _ _ => exact h.recorded hinv hnone hc
  | requeue _ _ => exact h

end Traced

end Life

/-- In every run an entry is about its claim, and a known one is signed by its
worker. -/
theorem traced_of_reachable {settings : Settings} {l : Life} (h : (life settings).Reachable l) :
    l.Traced fun _ _ => True :=
  h.invariant (fun _ => Life.Traced.of_starts) fun _ _ _ hs htraced _ hstep =>
    htraced.step (life_inv hs) (fun _ _ _ _ _ _ => trivial) hstep

/-- Where workers take over their own leases only, a placeholder is signed by
the right worker as well. -/
theorem traced_of_takesOverOwn {settings : Settings} {l : Life}
    (h : (life settings).ReachableBy Life.TakesOverOwn l) :
    l.Traced fun c workerId => workerId = c.workerId := by
  apply h.invariant (fun _ => Life.Traced.of_starts)
  intro l d l' hs htraced hok hstep
  apply htraced.step (life_inv hs) _ hstep
  rintro workerId now rfl hflight c hholds
  exact Option.some.inj ((hok hflight).symm.trans hholds.lockedBy)

/-- The claim that takes a row over signs the entry of the attempt it ends. -/
theorem Life.Step.signs {settings : Settings} {l l' : Life} {workerId : WorkerId} {now : Instant}
    (hstep : Step settings l (.claim workerId now) l') (hinv : l.Inv settings)
    (hflight : l.row.status = .inFlight) :
    ∃ c a, l'.claims l.row.totalAttempts = some c ∧ c.Holds l.row ∧
      l'.journal l.row.totalAttempts = some a ∧ a.workerId = workerId := by
  obtain ⟨c, hc, hholds, hnone⟩ := hinv.held hflight
  have hfree : l.journal l.row.totalAttempts = none := by
    by_contra hsome
    obtain ⟨a, ha⟩ := Option.ne_none_iff_exists'.mp hsome
    exact absurd (hinv.unknown_lt _ a ha (hinv.unrecorded hnone ha)).2 (lt_irrefl _)
  cases hstep with
  | @claim _ _ request lost _ _ hlost =>
      have hpos := (hinv.claims_iff _).mp (Option.isSome_iff_exists.mpr ⟨c, hc⟩)
      have hrec : reclaimed l.row = true := by
        simp only [reclaimed, hflight, beq_self_eq_true, Bool.true_and, decide_eq_true_eq]
        exact hpos.1
      have hentry := hlost
      rw [lostEntry, if_pos hrec] at hentry
      obtain ⟨a, _, rfl⟩ := Fallible.map_eq_ok_iff.mp hentry
      refine ⟨c, a, addNew_of_some _ _ hc, hholds, ?_, (lostEntry_about hlost (hinv.fits _ c hc)
        hholds).2⟩
      show addNew l.journal l.row.totalAttempts (some a) l.row.totalAttempts = some a
      rw [addNew_same, hfree, Option.none_or]

/-! ## The service's journal -/

/-- The entry is about the claim of its number and names the claim's worker. -/
def Service.Attributes (s : Service) (a : Attempt) : Prop :=
  ∃ c, s.claim? a.deliveryId a.attemptNumber = some c ∧ a.About c ∧ a.workerId = c.workerId

def Service.JournalAttributed (s : Service) : Prop :=
  ∀ a ∈ s.db.deliveryAttempts.rows, s.Attributes a

theorem Service.JournalAttributed.of_get? {s : Service} (h : s.JournalAttributed)
    {id : DeliveryId} {n : ℕ} {a : Attempt}
    (ha : s.db.deliveryAttempts.get? (id, n) = some a) :
    ∃ c, s.claim? id n = some c ∧ a.About c ∧ a.workerId = c.workerId := by
  obtain ⟨hid, hnumber⟩ := Attempt.key_eq_iff.mp (Table.key_of_get? ha)
  have hc := h a (Table.mem_of_get? ha)
  rwa [Service.Attributes, hid, hnumber] at hc

/-- The delivery an entry belongs to. -/
theorem life_of_entry {settings : Settings} {ok : Service → Event → Prop} {s : Service}
    (hs : (service settings).ReachableBy ok s) {a : Attempt}
    (ha : a ∈ s.db.deliveryAttempts.rows) :
    ∃ x, s.life a.deliveryId = some x ∧ x.journal a.attemptNumber = some a ∧
      x.claims = s.claim? a.deliveryId ∧ x.results = s.result? a.deliveryId := by
  have hget : s.db.deliveryAttempts.get? (a.deliveryId, a.attemptNumber) = some a :=
    Table.get?_of_mem ha
  obtain ⟨x, _, hx, _, _, _, hxa⟩ := lives_of_entry hs.reachable .refl hget
  obtain ⟨_, _, _, hclaims, hresults, _⟩ := Service.parts_of_life hx
  exact ⟨x, hx, hxa, hclaims, hresults⟩

/-- A takeover of another worker's lease is signed by the wrong worker at once. -/
theorem not_attributed_of_takeover {settings : Settings} {s t : Service} {e : Event}
    (hs : (service settings).Reachable s) (hstep : Service.step settings s e = some t)
    (h : ¬ Service.Everywhere Life.TakesOverOwn s e) : ¬ t.JournalAttributed := by
  simp only [Service.Everywhere, not_forall] at h
  obtain ⟨id, x, hx, d, hd, hbad⟩ := h
  obtain ⟨y, hy, hlife⟩ := Service.exists_life_step hs hstep hx hd
  cases d with
  | claim workerId now =>
      have hbad : ¬ (x.row.status = .inFlight → x.row.lockedBy = some workerId) := hbad
      rw [Classical.not_imp] at hbad
      obtain ⟨hflight, hother⟩ := hbad
      obtain ⟨c, a, hc, hholds, ha, hsigned⟩ := hlife.signs (inv_of_reachable hs hx) hflight
      obtain ⟨_, _, _, hclaims, _, hjournal⟩ := Service.parts_of_life hy
      rw [hjournal] at ha
      intro hall
      obtain ⟨c', hc', _, hworker⟩ := hall.of_get? ha
      rw [← hclaims] at hc'
      obtain rfl : c' = c := Option.some.inj (hc'.symm.trans hc)
      exact hother (by rw [← hsigned, hworker, hholds.lockedBy])
  | advance _ | record _ _ _ _ | requeue _ => exact absurd trivial hbad

/-- Over every run: an entry is about the claim of its number, and a known one
names its worker. All entries do so as long as every lapsed lease is taken over
by the worker that held it; any other takeover leaves an entry that does not. -/
theorem journal_attributed_iff (settings : Settings) :
    (∀ s, (service settings).Reachable s → ∀ a ∈ s.db.deliveryAttempts.rows,
      ∃ c, s.claim? a.deliveryId a.attemptNumber = some c ∧ a.About c ∧
        (a.outcome ≠ .unknown → a.workerId = c.workerId)) ∧
    (∀ s, (service settings).ReachableBy (Service.Everywhere Life.TakesOverOwn) s →
      s.JournalAttributed) ∧
    ∀ s e t, (service settings).Reachable s → Service.step settings s e = some t →
      ¬ Service.Everywhere Life.TakesOverOwn s e → ¬ t.JournalAttributed := by
  refine ⟨?_, ?_, fun s e t hs hstep => not_attributed_of_takeover hs hstep⟩
  · intro s hs a ha
    obtain ⟨x, hx, hxa, hclaims, _⟩ := life_of_entry hs ha
    obtain ⟨c, hc, habout, hknown, _⟩ := traced_of_reachable (life_of_reachable hs hx) _ a hxa
    exact ⟨c, hclaims ▸ hc, habout, hknown⟩
  · intro s hs a ha
    obtain ⟨x, hx, hxa, hclaims, _⟩ := life_of_entry hs ha
    obtain ⟨c, hc, habout, hknown, hunknown⟩ :=
      traced_of_takesOverOwn (life_reachable hs hx) _ a hxa
    refine ⟨c, hclaims ▸ hc, habout, ?_⟩
    by_cases hout : a.outcome = .unknown
    · exact hunknown hout
    · exact hknown hout

namespace JournalAttribution

/-- A worker dies with a claim, and `workerId` takes its lapsed lease over. -/
def takenOverBy (workerId : WorkerId) : List (Service → Event) :=
  [Move.accept 0 Move.lead, Move.claim .default Move.workerA 1, Move.advance 100000000,
    Move.claim .default workerId 1]

/-- The first attempt's placeholder is signed by `workerId`, its claim by the first worker. -/
def signedBy (workerId : WorkerId) (s : Service) : Bool :=
  (s.db.deliveryAttempts.get? (Move.first, 1)).any
    (fun a : Attempt => decide (a.outcome = .unknown ∧ a.workerId = workerId)) &&
  (s.claim? Move.first 1).any fun c : Claim => decide (c.workerId = Move.workerA)

end JournalAttribution

/-- A worker that takes over its own lease signs for itself. -/
theorem journal_attributed_own :
    ∃ s a, (service .default).ReachableBy (Service.Everywhere Life.TakesOverOwn) s ∧
      a ∈ s.db.deliveryAttempts.rows ∧ a.outcome = .unknown ∧ s.Attributes a := by
  obtain ⟨s, hs, hp⟩ := exists_reachableBy_of_moves .default
    (Service.Everywhere Life.TakesOverOwn) (JournalAttribution.takenOverBy Move.workerA)
    (JournalAttribution.signedBy Move.workerA) (by decide +kernel)
  simp only [JournalAttribution.signedBy, Bool.and_eq_true, Option.any_eq_true,
    decide_eq_true_eq] at hp
  obtain ⟨⟨a, ha, hunknown, _⟩, _⟩ := hp
  have hmem := Table.mem_of_get? ha
  exact ⟨s, a, hs, hmem, hunknown, (journal_attributed_iff .default).2.1 s hs a hmem⟩

/-- The entry of the first worker's attempt names the second worker. -/
theorem journal_names_reclaimer :
    ¬ ∀ settings : Settings, settings.Validated → ∀ s, (service settings).Reachable s →
      s.JournalAttributed := by
  intro h
  obtain ⟨s, hs, hp⟩ := exists_reachable_of_moves .default
    (JournalAttribution.takenOverBy Move.workerB) (JournalAttribution.signedBy Move.workerB)
    (by decide +kernel)
  simp only [JournalAttribution.signedBy, Bool.and_eq_true, Option.any_eq_true,
    decide_eq_true_eq] at hp
  obtain ⟨⟨a, ha, _, hsigned⟩, c, hc, hworker⟩ := hp
  obtain ⟨c', hc', _, hnamed⟩ := (h .default Settings.default_validated s hs).of_get? ha
  obtain rfl : c' = c := Option.some.inj (hc'.symm.trans hc)
  rw [hsigned, hworker] at hnamed
  exact absurd hnamed (by decide)

end LeadQueue
