import LeadQueue.Guarantees.JournalAttribution

/-!
# The times of an attempt

A placeholder is stamped with the time of its claim. The record that replaces it
brings the end and the duration of the attempt, but `started_at` is not in its
update: the entry keeps the placeholder's. So a known entry has the reported
times unless it was a placeholder with another start.
-/

namespace LeadQueue

open Relational Transition

/-- The entry has the reported end and duration. -/
structure Attempt.Ended (a : Attempt) (result : AttemptResult) : Prop where
  finishedAt : a.finishedAt = result.finishedAt
  durationMs : a.durationMs.val = result.durationMs

/-- The stored duration is the time between start and end, cut to milliseconds;
an attempt that ends before it starts has none. -/
def Attempt.DurationAgrees (a : Attempt) : Prop :=
  a.durationMs.val * 1000 ≤ max 0 (a.finishedAt - a.startedAt) ∧
    max 0 (a.finishedAt - a.startedAt) ≤ a.durationMs.val * 1000 + 1000

theorem Attempt.Ended.durationAgrees {a : Attempt} {result : AttemptResult}
    (h : a.Ended result) (hstart : a.startedAt = result.startedAt) : a.DurationAgrees := by
  unfold Attempt.DurationAgrees
  rw [h.finishedAt, hstart]
  exact AttemptResult.durationMs_close h.durationMs

namespace Life

/-- The entry that a record replaces has the start that is reported. -/
def KeepsStart (l : Life) : Event → Prop
  | .record n result _ _ => ∀ a ∈ l.journal n, a.startedAt = result.startedAt
  | _ => True

instance (l : Life) (d : Event) : Decidable (l.KeepsStart d) :=
  match d with
  | .record _ _ _ _ => by unfold KeepsStart; infer_instance
  | .advance _ | .claim _ _ | .requeue _ => .isTrue trivial

/-- A known entry ends as its result says, and starts as `starts` has it. -/
def Timed (starts : Instant → AttemptResult → Prop) (l : Life) : Prop :=
  ∀ n a, l.journal n = some a → a.outcome ≠ .unknown →
    ∃ result, l.results n = some result ∧ a.Ended result ∧ starts a.startedAt result

theorem journalAfter_ended {workerId : WorkerId} {claim : ClaimedDelivery}
    {result : AttemptResult} {ms : Int4} {text : Option PgText} {scheduled : Option Instant}
    {old : Option Attempt} (hms : int4 result.durationMs = .ok ms)
    (hold : ∀ a, old = some a → a.outcome = .unknown) :
    (journalAfter (attemptEntry workerId claim result ms text scheduled) old).Ended result := by
  cases old with
  | none => exact ⟨rfl, val_of_int4 hms⟩
  | some a =>
      show (replaceUnknown _ a).Ended result
      rw [replaceUnknown, if_pos (hold a rfl)]
      exact ⟨rfl, val_of_int4 hms⟩

/-- The start is reported where there is no entry, else that of the entry. -/
theorem journalAfter_startedAt (entry : Attempt) (old : Option Attempt) :
    (journalAfter entry old).startedAt = (old.map Attempt.startedAt).getD entry.startedAt := by
  cases old with
  | none => rfl
  | some a =>
      show (replaceUnknown entry a).startedAt = a.startedAt
      unfold replaceUnknown
      split <;> rfl

section Timed

variable {settings : Settings} {starts : Instant → AttemptResult → Prop} {l l' : Life}

theorem Timed.of_starts (h : l.Starts) : l.Timed starts := by
  obtain ⟨_, _, _, _, _, _, _, _, hjournal⟩ := h
  intro n a ha
  rw [hjournal] at ha
  cases ha

theorem Timed.claimed {workerId : WorkerId} {now : Instant} {request : Request}
    {lost : Option Attempt} (h : l.Timed starts)
    (hlost : lostEntry workerId now l.row = .ok lost) :
    Timed starts (l.claimed settings workerId now request lost) := by
  intro n a ha hknown
  rcases eq_some_of_addNew ha with hold | ⟨_, rfl, rfl⟩
  · exact h n a hold hknown
  · exact absurd (lostEntry_some hlost).2.2 hknown

theorem Timed.recorded {n : ℕ} {workerId : WorkerId} {claim : ClaimedDelivery}
    {result : AttemptResult} {row : Delivery} {ms : Int4} {text : Option PgText}
    {scheduled : Option Instant} (h : l.Timed starts) (hinv : l.Inv settings)
    (hnone : l.results n = none) (hms : int4 result.durationMs = .ok ms)
    (hstarts : starts (((l.journal n).map Attempt.startedAt).getD result.startedAt) result) :
    Timed starts (l.recorded n result row
      (attemptEntry workerId claim result ms text scheduled)) := by
  intro k a ha hknown
  by_cases hk : k = n
  · subst hk
    obtain rfl : _ = a := Option.some.inj (journal_recorded_self.symm.trans ha)
    refine ⟨result, results_recorded_self hnone,
      journalAfter_ended hms fun b hb => hinv.unrecorded hnone hb, ?_⟩
    rw [journalAfter_startedAt]
    exact hstarts
  · obtain ⟨reported, hreported, hended⟩ := h k a ((journal_recorded_of_ne hk).symm.trans ha) hknown
    exact ⟨reported, addNew_of_some _ _ hreported, hended⟩

theorem Timed.step {d : Event} (h : l.Timed starts) (hinv : l.Inv settings)
    (hstarts : ∀ n result draw now, d = .record n result draw now →
      starts (((l.journal n).map Attempt.startedAt).getD result.startedAt) result)
    (hstep : Step settings l d l') : l'.Timed starts := by
  cases hstep with
  | advance _ => exact h
  | claim _ _ hlost => exact h.claimed hlost
  | success _ hnone _ _ hms => exact h.recorded hinv hnone hms (hstarts _ _ _ _ rfl)
  | failure _ hnone _ _ _ _ hms => exact h.recorded hinv hnone hms (hstarts _ _ _ _ rfl)
  | requeue _ _ => exact h

end Timed

/-- A record that finds an entry keeps its start. -/
theorem Step.reports {settings : Settings} {l l' : Life} {n : ℕ} {result : AttemptResult}
    {draw : Draw} {now : Instant} {a : Attempt}
    (hstep : Step settings l (.record n result draw now) l') (hinv : l.Inv settings)
    (ha : l.journal n = some a) :
    ∃ b, l'.journal n = some b ∧ b.outcome ≠ .unknown ∧ b.startedAt = a.startedAt ∧
      l'.results n = some result := by
  have hrecorded : ∀ {row : Delivery} {workerId : WorkerId} {claim : ClaimedDelivery} {ms : Int4}
      {text : Option PgText} {scheduled : Option Instant}, l.results n = none →
      ∃ b, (l.recorded n result row
          (attemptEntry workerId claim result ms text scheduled)).journal n = some b ∧
        b.outcome ≠ .unknown ∧ b.startedAt = a.startedAt ∧
        (l.recorded n result row
          (attemptEntry workerId claim result ms text scheduled)).results n = some result := by
    intro row workerId claim ms text scheduled hnone
    refine ⟨_, journal_recorded_self, ?_, ?_, results_recorded_self hnone⟩
    · rw [journalAfter_outcome fun b hb => hinv.unrecorded hnone hb]
      exact attemptEntry_outcome_ne _ _ _ _ _ _
    · rw [journalAfter_startedAt, ha]
      rfl
  cases hstep with
  | success _ hnone _ _ _ => exact hrecorded hnone
  | failure _ hnone _ _ _ _ _ => exact hrecorded hnone

end Life

theorem timed_of_reachable {settings : Settings} {l : Life} (h : (life settings).Reachable l) :
    l.Timed fun _ _ => True :=
  h.invariant (fun _ => Life.Timed.of_starts) fun _ _ _ hs htimed _ hstep =>
    htimed.step (life_inv hs) (fun _ _ _ _ _ => trivial) hstep

/-- Where no entry with another start is replaced, the start is the reported one. -/
theorem timed_of_keepsStart {settings : Settings} {l : Life}
    (h : (life settings).ReachableBy Life.KeepsStart l) :
    l.Timed fun time result => time = result.startedAt := by
  apply h.invariant (fun _ => Life.Timed.of_starts)
  intro l d l' hs htimed hok hstep
  apply htimed.step (life_inv hs) _ hstep
  rintro n result draw now rfl
  cases ha : l.journal n with
  | none => rfl
  | some a => exact hok a ha

/-! ## The service's journal -/

/-- The entry has the times that were reported for its attempt. -/
def Service.Reported (s : Service) (a : Attempt) : Prop :=
  ∃ result, s.result? a.deliveryId a.attemptNumber = some result ∧
    a.startedAt = result.startedAt ∧ a.finishedAt = result.finishedAt ∧
    a.durationMs.val = result.durationMs

/-- Every known entry has the reported times, which agree with each other. -/
def Service.JournalReported (s : Service) : Prop :=
  ∀ a ∈ s.db.deliveryAttempts.rows, a.outcome ≠ .unknown → s.Reported a ∧ a.DurationAgrees

theorem Service.JournalReported.of_get? {s : Service} (h : s.JournalReported) {id : DeliveryId}
    {n : ℕ} {a : Attempt} (ha : s.db.deliveryAttempts.get? (id, n) = some a)
    (hknown : a.outcome ≠ .unknown) :
    ∃ result, s.result? id n = some result ∧ a.startedAt = result.startedAt := by
  obtain ⟨hid, hnumber⟩ := Attempt.key_eq_iff.mp (Table.key_of_get? ha)
  obtain ⟨⟨result, hresult, hstart, _⟩, _⟩ := h a (Table.mem_of_get? ha) hknown
  rw [hid, hnumber] at hresult
  exact ⟨result, hresult, hstart⟩

/-- A late answer with another start than the placeholder's leaves a mixture. -/
theorem not_reported_of_lateStart {settings : Settings} {s t : Service} {e : Event}
    (hs : (service settings).Reachable s) (hstep : Service.step settings s e = some t)
    (h : ¬ Service.Everywhere Life.KeepsStart s e) : ¬ t.JournalReported := by
  simp only [Service.Everywhere, not_forall] at h
  obtain ⟨id, x, hx, d, hd, hbad⟩ := h
  obtain ⟨y, hy, hlife⟩ := Service.exists_life_step hs hstep hx hd
  cases d with
  | record n result draw now =>
      have hbad : ¬ ∀ a ∈ x.journal n, a.startedAt = result.startedAt := hbad
      simp only [not_forall] at hbad
      obtain ⟨a, ha, hother⟩ := hbad
      obtain ⟨b, hb, hknown, hstart, hresult⟩ := hlife.reports (inv_of_reachable hs hx) ha
      obtain ⟨_, _, _, _, hresults, hjournal⟩ := Service.parts_of_life hy
      rw [hjournal] at hb
      intro hall
      obtain ⟨reported, hreported, hsame⟩ := hall.of_get? hb hknown
      rw [← hresults] at hreported
      obtain rfl : reported = result := Option.some.inj (hreported.symm.trans hresult)
      exact hother (hstart.symm.trans hsame)
  | advance _ | claim _ _ | requeue _ => exact absurd trivial hbad

/-- Over every run: a known entry has the reported end and duration. All of them
have the reported start as well, and a duration that agrees with their times, as
long as each answer that finds a placeholder reports the placeholder's start;
any other answer leaves an entry that does not. -/
theorem journal_reported_iff (settings : Settings) :
    (∀ s, (service settings).Reachable s → ∀ a ∈ s.db.deliveryAttempts.rows,
      a.outcome ≠ .unknown →
      ∃ result, s.result? a.deliveryId a.attemptNumber = some result ∧ a.Ended result) ∧
    (∀ s, (service settings).ReachableBy (Service.Everywhere Life.KeepsStart) s →
      s.JournalReported) ∧
    ∀ s e t, (service settings).Reachable s → Service.step settings s e = some t →
      ¬ Service.Everywhere Life.KeepsStart s e → ¬ t.JournalReported := by
  refine ⟨?_, ?_, fun s e t hs hstep => not_reported_of_lateStart hs hstep⟩
  · intro s hs a ha hknown
    obtain ⟨x, hx, hxa, _, hresults⟩ := life_of_entry hs ha
    obtain ⟨result, hresult, hended, _⟩ :=
      timed_of_reachable (life_of_reachable hs hx) _ a hxa hknown
    exact ⟨result, hresults ▸ hresult, hended⟩
  · intro s hs a ha hknown
    obtain ⟨x, hx, hxa, _, hresults⟩ := life_of_entry hs ha
    obtain ⟨result, hresult, hended, hstart⟩ :=
      timed_of_keepsStart (life_reachable hs hx) _ a hxa hknown
    exact ⟨⟨result, hresults ▸ hresult, hstart, hended.finishedAt, hended.durationMs⟩,
      hended.durationAgrees hstart⟩

namespace JournalTimes

/-- A worker's lease lapses, another claims, and the first reports `result`. -/
def lateAnswer (result : AttemptResult) : List (Service → Event) :=
  [Move.accept 0 Move.lead, Move.claim .default Move.workerA 1, Move.advance 100000000,
    Move.claim .default Move.workerB 1, Move.record Move.first 1 result]

/-- An attempt that starts a millisecond after its claim, and takes one. -/
def afterClaim : AttemptResult where
  succeeded := true
  errorKind := none
  statusCode := some 200
  responseExcerpt := none
  startedAt := 1000
  finishedAt := 2000

/-- The first attempt's entry is known and starts at `time`; `result` is recorded. -/
def startsAt (time : Instant) (result : AttemptResult) (s : Service) : Bool :=
  (s.db.deliveryAttempts.get? (Move.first, 1)).any
    (fun a : Attempt => decide (a.outcome ≠ .unknown ∧ a.startedAt = time)) &&
  decide (s.result? Move.first 1 = some result)

end JournalTimes

/-- A late answer that starts with the claim. -/
theorem journal_reported_lateAnswer :
    ∃ s a, (service .default).ReachableBy (Service.Everywhere Life.KeepsStart) s ∧
      a ∈ s.db.deliveryAttempts.rows ∧ a.outcome ≠ .unknown ∧ s.Reported a ∧
      a.DurationAgrees := by
  obtain ⟨s, hs, hp⟩ := exists_reachableBy_of_moves .default
    (Service.Everywhere Life.KeepsStart) (JournalTimes.lateAnswer Move.confirmed)
    (JournalTimes.startsAt 0 Move.confirmed) (by decide +kernel)
  simp only [JournalTimes.startsAt, Bool.and_eq_true, Option.any_eq_true,
    decide_eq_true_eq] at hp
  obtain ⟨⟨a, ha, hknown, _⟩, _⟩ := hp
  have hmem := Table.mem_of_get? ha
  exact ⟨s, a, hs, hmem, hknown, (journal_reported_iff .default).2.1 s hs a hmem hknown⟩

/-- The attempt starts at 1 ms; the entry starts at 0 and says it took 1 ms of
the 2 that passed until its end. -/
theorem late_answer_keeps_placeholder_start :
    ¬ ∀ settings : Settings, settings.Validated → ∀ s, (service settings).Reachable s →
      s.JournalReported := by
  intro h
  obtain ⟨s, hs, hp⟩ := exists_reachable_of_moves .default
    (JournalTimes.lateAnswer JournalTimes.afterClaim)
    (JournalTimes.startsAt 0 JournalTimes.afterClaim) (by decide +kernel)
  simp only [JournalTimes.startsAt, Bool.and_eq_true, Option.any_eq_true,
    decide_eq_true_eq] at hp
  obtain ⟨⟨a, ha, hknown, hstart⟩, hresult⟩ := hp
  obtain ⟨reported, hreported, hsame⟩ :=
    (h .default Settings.default_validated s hs).of_get? ha hknown
  rw [hresult] at hreported
  obtain rfl : JournalTimes.afterClaim = reported := Option.some.inj hreported
  rw [hstart] at hsame
  exact absurd hsame (by decide)

end LeadQueue
