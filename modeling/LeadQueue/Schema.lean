import LeadQueue.Postgres

/-!
# The three tables

`requests` holds what was accepted, `deliveries` is the queue, and
`deliveryAttempts` is the journal. The primary keys, and the journal's unique
pair (delivery, attempt number), are part of the table types. `claimableAt` is
written by the trigger only: every statement below that inserts or updates a
delivery goes through `deliveriesSyncClaimable`.
-/

namespace LeadQueue

open Relational

abbrev RequestId := Uuid
abbrev DeliveryId := Uuid

/-- A worker id is text the database has stored in `locked_by`. -/
abbrev WorkerId := PgText

inductive DeliveryStatus where
  | pending | inFlight | delivered | failed
deriving DecidableEq, Repr

inductive AttemptOutcome where
  | success | failure | unknown
deriving DecidableEq, Repr

/-- The values of `error_kind`: the sender's classes and the placeholder of a
reclaimed attempt. -/
inductive ErrorKind where
  | timeout | connection | deadlineExceeded | httpRedirect | httpClientError
  | httpRetryable | httpServerError | unexpectedError | leaseExpired
deriving DecidableEq, Repr

structure Request where
  id : RequestId
  sourceId : PgText
  idempotencyKey : PgText
  payload : Jsonb
  receivedAt : Instant

structure Delivery where
  id : DeliveryId
  requestId : RequestId
  recipientName : Option PgText
  recipientUrl : PgText
  /-- The fairness key: `scheme://host:port` of the URL. -/
  recipientOrigin : PgText
  status : DeliveryStatus
  /-- Attempts in the current budget. -/
  attempts : ℕ
  /-- Attempts ever made. -/
  totalAttempts : ℕ
  nextAttemptAt : Instant
  leaseExpiresAt : Option Instant
  lockedBy : Option WorkerId
  lastAttemptAt : Option Instant
  lastOutcome : Option AttemptOutcome
  lastErrorKind : Option ErrorKind
  lastStatusCode : Option ℕ
  lastError : Option PgText
  deliveredAt : Option Instant
  failedAt : Option Instant
  createdAt : Instant
  claimableAt : Instant
deriving DecidableEq

/-- A journal row. -/
structure Attempt where
  deliveryId : DeliveryId
  requestId : RequestId
  attemptNumber : ℕ
  budgetAttempt : ℕ
  recipientUrl : PgText
  startedAt : Instant
  finishedAt : Instant
  durationMs : Int4
  outcome : AttemptOutcome
  errorKind : Option ErrorKind
  statusCode : Option ℕ
  responseExcerpt : Option PgText
  scheduledNextAt : Option Instant
  workerId : WorkerId
deriving DecidableEq

/-- `delivery_attempts_number_unique`. -/
def Attempt.key (a : Attempt) : DeliveryId × ℕ := (a.deliveryId, a.attemptNumber)

/-- The columns that no operation changes. -/
structure Delivery.SameTarget (d d' : Delivery) : Prop where
  id : d'.id = d.id
  requestId : d'.requestId = d.requestId
  recipientName : d'.recipientName = d.recipientName
  recipientUrl : d'.recipientUrl = d.recipientUrl
  recipientOrigin : d'.recipientOrigin = d.recipientOrigin

theorem Delivery.SameTarget.refl (d : Delivery) : d.SameTarget d := ⟨rfl, rfl, rfl, rfl, rfl⟩

structure Database where
  requests : Table Request.id
  deliveries : Table Delivery.id
  deliveryAttempts : Table Attempt.key

def Database.empty : Database := ⟨.empty, .empty, .empty⟩

/-- `request_id UUID NOT NULL REFERENCES requests (id)`. -/
def Database.Referenced (db : Database) : Prop :=
  ∀ d ∈ db.deliveries.rows, ∃ lead, db.requests.get? d.requestId = some lead

/-! ## The trigger -/

/-- A pending row becomes claimable when its backoff elapses, an in-flight row
when its lease expires. `now` is the transaction's clock. -/
def deliveriesSyncClaimable (now : Instant) (d : Delivery) : Delivery :=
  { d with claimableAt :=
      match d.status with
      | .pending => d.nextAttemptAt
      | .inFlight => d.leaseExpiresAt.getD now
      | _ => d.nextAttemptAt }

@[simp] theorem deliveriesSyncClaimable_id (now : Instant) (d : Delivery) :
    (deliveriesSyncClaimable now d).id = d.id := rfl

/-- `UPDATE deliveries SET ... WHERE ...`, with the trigger. -/
def Database.updateDeliveries (db : Database) (now : Instant) (cond : Delivery → Bool)
    (set : Delivery → Delivery) (hset : ∀ d, (set d).id = d.id) : Database where
  requests := db.requests
  deliveries :=
    db.deliveries.update (fun d => if cond d then deliveriesSyncClaimable now (set d) else d)
      (by intro d; split <;> simp [hset])
  deliveryAttempts := db.deliveryAttempts

@[simp] theorem Database.get?_updateDeliveries (db : Database) (now : Instant)
    (cond : Delivery → Bool) (set : Delivery → Delivery) (hset : ∀ d, (set d).id = d.id)
    (id : DeliveryId) :
    (db.updateDeliveries now cond set hset).deliveries.get? id =
      (db.deliveries.get? id).map
        (fun d => if cond d then deliveriesSyncClaimable now (set d) else d) := by
  simp [Database.updateDeliveries]

@[simp] theorem Database.requests_updateDeliveries (db : Database) (now : Instant)
    (cond : Delivery → Bool) (set : Delivery → Delivery) (hset : ∀ d, (set d).id = d.id) :
    (db.updateDeliveries now cond set hset).requests = db.requests := rfl

@[simp] theorem Database.deliveryAttempts_updateDeliveries (db : Database) (now : Instant)
    (cond : Delivery → Bool) (set : Delivery → Delivery) (hset : ∀ d, (set d).id = d.id) :
    (db.updateDeliveries now cond set hset).deliveryAttempts = db.deliveryAttempts := rfl

/-! ## Which rows may be claimed -/

/-- `status IN ('pending', 'in_flight')`. -/
def Delivery.unresolved (d : Delivery) : Bool :=
  d.status == .pending || d.status == .inFlight

/-- Unresolved and `claimable_at <= now`. -/
def Delivery.due (now : Instant) (d : Delivery) : Bool :=
  d.unresolved && decide (d.claimableAt ≤ now)

theorem Delivery.due_iff {now : Instant} {d : Delivery} :
    d.due now = true ↔ (d.status = .pending ∨ d.status = .inFlight) ∧ d.claimableAt ≤ now := by
  simp [Delivery.due, Delivery.unresolved]

end LeadQueue
