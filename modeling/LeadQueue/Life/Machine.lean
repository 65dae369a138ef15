import LeadQueue.Service

/-!
# The life of one delivery

What the service does to a single delivery: its row, the claims made of it, the
results recorded for it and its journal entries. The machine below has one rule
for each operation and says nothing about the other deliveries, so an invariant
of one delivery is proved over five rules. `Service.life_step` is the link: every
step of the service is one of these rules on the delivery, creates it, or leaves
it alone.
-/

namespace LeadQueue

open Relational Transition

@[ext]
structure Life where
  clock : Instant
  row : Delivery
  claims : ℕ → Option Claim
  results : ℕ → Option AttemptResult
  journal : ℕ → Option Attempt

/-- Store `x` under `n` unless something is there already. -/
def addNew {α : Type} (f : ℕ → Option α) (n : ℕ) (x : Option α) : ℕ → Option α :=
  fun k => (f k).or (if k = n then x else none)

theorem addNew_same {α : Type} (f : ℕ → Option α) (n : ℕ) (x : Option α) :
    addNew f n x n = (f n).or x := by simp [addNew]

theorem addNew_of_ne {α : Type} (f : ℕ → Option α) {n k : ℕ} (x : Option α) (h : k ≠ n) :
    addNew f n x k = f k := by simp [addNew, h]

theorem addNew_of_some {α : Type} {f : ℕ → Option α} {k : ℕ} {y : α} (n : ℕ) (x : Option α)
    (h : f k = some y) : addNew f n x k = some y := by simp [addNew, h]

/-- What a new entry can be: an old one, or the one just stored. -/
theorem eq_some_of_addNew {α : Type} {f : ℕ → Option α} {n k : ℕ} {x : Option α} {y : α}
    (h : addNew f n x k = some y) : f k = some y ∨ (f k = none ∧ k = n ∧ x = some y) := by
  unfold addNew at h
  cases hf : f k with
  | some z => simp_all
  | none =>
      by_cases hk : k = n
      · simp_all
      · simp_all

theorem isSome_addNew {α : Type} (f : ℕ → Option α) (n k : ℕ) (x : Option α) :
    (addNew f n x k).isSome ↔ (f k).isSome ∨ (k = n ∧ x.isSome) := by
  unfold addNew
  by_cases hk : k = n <;> simp [hk]

namespace Life

inductive Event where
  | advance (t : Instant)
  | claim (workerId : WorkerId) (now : Instant)
  | record (n : ℕ) (result : AttemptResult) (draw : Draw) (now : Instant)
  | requeue (now : Instant)

/-! ## The rules -/

/-- The claim that is handed out next. -/
def nextClaim (settings : Settings) (workerId : WorkerId) (now : Instant) (request : Request)
    (l : Life) : Claim :=
  ⟨workerId, now, now + settings.lease, toClaimed ⟨l.row, request⟩⟩

/-- The journal entry the claim writes: one if it takes over an expired lease. -/
def lostEntry (workerId : WorkerId) (now : Instant) (row : Delivery) :
    Except Raised (Option Attempt) :=
  if reclaimed row then (lostAttempt workerId now row).map some else .ok none

def claimed (settings : Settings) (workerId : WorkerId) (now : Instant) (request : Request)
    (lost : Option Attempt) (l : Life) : Life where
  clock := l.clock
  row := claimRow workerId now settings.lease l.row
  claims := addNew l.claims (l.row.totalAttempts + 1)
    (some (nextClaim settings workerId now request l))
  results := l.results
  journal := addNew l.journal l.row.totalAttempts lost

/-- A recorded result: the new row, the result and the journal entry. -/
def recorded (n : ℕ) (result : AttemptResult) (row : Delivery) (entry : Attempt) (l : Life) :
    Life where
  clock := l.clock
  row := row
  claims := l.claims
  results := addNew l.results n (some result)
  journal := fun k => if k = n then some (journalAfter entry (l.journal n)) else l.journal k

section Recorded

variable {n k : ℕ} {result : AttemptResult} {row : Delivery} {entry : Attempt} {l : Life}

theorem journal_recorded_self :
    (l.recorded n result row entry).journal n = some (journalAfter entry (l.journal n)) :=
  if_pos rfl

theorem journal_recorded_of_ne (hk : k ≠ n) :
    (l.recorded n result row entry).journal k = l.journal k := if_neg hk

theorem results_recorded_self (hnone : l.results n = none) :
    (l.recorded n result row entry).results n = some result := by
  show addNew l.results n (some result) n = some result
  rw [addNew_same, hnone, Option.none_or]

end Recorded

/-- The row after a success: a delivered row stays as it is. -/
def successRow (result : AttemptResult) (now : Instant) (row : Delivery) : Delivery :=
  if row.status = .delivered then row else deliveredRow result now row

/-- The row after a failure: only a row held by this worker id changes. -/
def failureRow (settings : Settings) (c : Claim) (result : AttemptResult)
    (lastError : Option PgText) (delay : Duration) (now : Instant) (row : Delivery) : Delivery :=
  if row.lockedBy = some c.workerId ∧ row.status = .inFlight then
    failedRow result lastError (isExhausted c.delivery.budgetAttempt settings) delay now row
  else row

/-- One operation on the delivery. -/
inductive Step (settings : Settings) : Life → Event → Life → Prop where
  | advance {l : Life} {t : Instant} :
      l.clock ≤ t → Step settings l (.advance t) { l with clock := t }
  | claim {l : Life} {workerId : WorkerId} {now : Instant} {request : Request}
      {lost : Option Attempt} :
      now ≤ l.clock → l.row.due now = true → lostEntry workerId now l.row = .ok lost →
      Step settings l (.claim workerId now) (l.claimed settings workerId now request lost)
  | success {l : Life} {n : ℕ} {c : Claim} {result : AttemptResult} {draw : Draw}
      {now : Instant} {ms : Int4} {text : Option PgText} :
      now ≤ l.clock → l.results n = none → l.claims n = some c → result.succeeded = true →
      int4 result.durationMs = .ok ms →
      Step settings l (.record n result draw now)
        (l.recorded n result (successRow result now l.row)
          (attemptEntry c.workerId c.delivery result ms text none))
  | failure {l : Life} {n : ℕ} {c : Claim} {result : AttemptResult} {draw : Draw}
      {now : Instant} {ms : Int4} {lastError : Option PgText} {scheduled : Option Instant}
      {seconds : ℚ} {delay : Duration} :
      now ≤ l.clock → l.results n = none → l.claims n = some c → result.succeeded = false →
      nextDelaySeconds c.delivery.budgetAttempt settings draw = .ok seconds →
      timedelta seconds = .ok delay → int4 result.durationMs = .ok ms →
      Step settings l (.record n result draw now)
        (l.recorded n result (failureRow settings c result lastError delay now l.row)
          (attemptEntry c.workerId c.delivery result ms lastError scheduled))
  | requeue {l : Life} {now : Instant} {includeDelivered : Bool} :
      now ≤ l.clock → classify now includeDelivered l.row = .requeue →
      Step settings l (.requeue now) { l with row := requeueRow now l.row }

theorem Step.of_eq {settings : Settings} {x y z : Life} {d : Event} (h : Step settings x d z)
    (hy : y = z) : Step settings x d y := hy ▸ h

/-- A delivery that has just been queued. -/
def Starts (l : Life) : Prop :=
  ∃ now requestId id r, now ≤ l.clock ∧ l.row = newDelivery now requestId id r ∧
    (∀ n, l.claims n = none) ∧ (∀ n, l.results n = none) ∧ ∀ n, l.journal n = none

/-- The claim the row is in flight under. -/
def current? (l : Life) : Option Claim :=
  if l.row.status = .inFlight then l.claims l.row.totalAttempts else none

end Life

def life (settings : Settings) : Machine Life Life.Event := ⟨Life.Starts, Life.Step settings⟩

/-! ## What the service does to a delivery -/

namespace Service

/-- The part of the state that is about one delivery. -/
def life (s : Service) (id : DeliveryId) : Option Life :=
  (s.db.deliveries.get? id).map fun row =>
    { clock := s.clock
      row := row
      claims := s.claim? id
      results := s.result? id
      journal := fun n => s.db.deliveryAttempts.get? (id, n) }

/-- What an event does to a delivery. -/
def acts (s : Service) (id : DeliveryId) : Event → Option Life.Event
  | .advance t => some (.advance t)
  | .accept .. | .attach .. => none
  | .claim call =>
      if id ∈ (claimedRows call s.db).map (fun row => row.prev.id) then
        some (.claim call.workerId call.now)
      else none
  | .record id' n result draw now => if id' = id then some (.record n result draw now) else none
  | e@(.requeueRequest call ..) | e@(.requeueBulk call ..) =>
      if id ∈ s.requeuedIds e then some (.requeue call.now) else none

/-- Nothing is known about a delivery that does not exist. -/
def Tidy (s : Service) : Prop :=
  ∀ id, s.db.deliveries.get? id = none → ∀ n, s.claim? id n = none ∧ s.result? id n = none ∧
    s.db.deliveryAttempts.get? (id, n) = none

end Service

end LeadQueue
