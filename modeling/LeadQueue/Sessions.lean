import LeadQueue.Concurrent
import LeadQueue.Service

/-!
# The database server with its open transactions

Any number of calls of the queue side by side, statement by statement. A call
takes its rows as the operations of `queueLocks` do, then writes to the journal,
then commits; it may be rolled back at any point. What it has written to the
journal is seen by others from its commit on, but an insert of the same key waits
for it. A new journal row refers to its delivery: the insert locks that row in
share mode, so it waits for a claim or a requeue that holds the row, and
`SKIP LOCKED` passes over a row locked so. Accepting and attaching happen at
their commits.
-/

namespace LeadQueue

open Relational Transition RowLocks

/-! ## Calls -/

/-- The arguments of one `record_result`. -/
structure Recording where
  claim : Claim
  result : AttemptResult
  draw : Draw
  now : Instant

namespace Recording

/-- The journal row the call proposes, given what its update returned. -/
def entry (settings : Settings) (r : Recording) (scheduledNextAt : Option Instant) :
    Except Raised Attempt := do
  let durationMs ← int4 r.result.durationMs
  let text ← textParam? (truncate r.result.responseExcerpt settings.responseExcerptBytes)
  return attemptEntry r.claim.workerId r.claim.delivery r.result durationMs text scheduledNextAt

/-- The update of the call, with its parameters bound. -/
def op (settings : Settings) (r : Recording) : Except Raised QueueOp := do
  if r.result.succeeded then
    return .success r.claim.delivery.deliveryId r.result r.now
  else
    let exhausted := isExhausted r.claim.delivery.budgetAttempt settings
    let delay ← timedelta (← nextDelaySeconds r.claim.delivery.budgetAttempt settings r.draw)
    let lastError ← textParam? (truncate r.result.responseExcerpt settings.responseExcerptBytes)
    return .failure r.claim.delivery.deliveryId r.claim.workerId r.result lastError exhausted delay
      r.now

end Recording

/-- A call of the queue that opens a transaction. -/
inductive QueueCall where
  | claim (call : ClaimCall)
  | record (r : Recording)
  | requeueRequest (call : RequeueScan) (requestId : RequestId)
      (recipients : Option (List PyStr)) (includeDelivered : Bool)
  | requeueBulk (call : RequeueScan) (filter : BulkFilter) (limit : ℕ)

/-- `FROM picked p JOIN requests req ON req.id = p.request_id`, for the rows taken. -/
def joined (requests : Table Request.id) (taken : List Delivery) : List ClaimedRow :=
  taken.filterMap fun p => (requests.get? p.requestId).map fun req => ⟨p, req⟩

namespace QueueCall

/-- `now()` of the transaction. -/
def now : QueueCall → Instant
  | claim call => call.now
  | record r => r.now
  | requeueRequest call .. | requeueBulk call .. => call.now

/-- The statement that takes the rows, with its parameters bound. The filter of a
bulk requeue looks the leads up in the snapshot. -/
def op (settings : Settings) (requests : Table Request.id) : QueueCall → Except Raised QueueOp
  | claim call => do
      let _ ← timedelta settings.leaseSeconds
      return .claim call.workerId call.limit call.now
  | record r => r.op settings
  | requeueRequest call requestId recipients includeDelivered => do
      let named ← (recipients.getD []).mapM textParam
      return .requeue (requestWhere requestId named) includeDelivered none call.now
  | requeueBulk call filter limit => do
      let _ ← textParam? filter.recipientOrigin
      let _ ← textParam? filter.recipientUrlContains
      return .requeue (bulkWhere filter ⟨requests, .empty, .empty⟩) true (some limit) call.now

/-- The candidates of the statement, from the rows it sees. -/
def Scans (settings : Settings) (committed : Table Delivery.id) (op : QueueOp)
    (plan : List DeliveryId) : QueueCall → Prop
  | claim call =>
      call.snapshot = committed ∧ call.Valid settings ∧ plan = call.order.map RankedRow.id
  | record _ => plan = (committed.rows.filter op.cond).map Delivery.id
  | requeueRequest call .. | requeueBulk call .. =>
      call.snapshot = committed ∧ call.Valid op.cond ∧ plan = call.scan.map Delivery.id

/-- When the next attempt was scheduled for, as `RETURNING` reports it. -/
def scheduledNextAt (settings : Settings) (op : QueueOp) (taken : List Delivery) :
    Option Instant :=
  match op with
  | .failure .. => (taken.head?.bind (op.effect settings)).bind fun row =>
      if row.status = .failed then none else some row.nextAttemptAt
  | _ => none

/-- The rows the call inserts into the journal. -/
def entries (settings : Settings) (requests : Table Request.id) (op : QueueOp)
    (taken : List Delivery) : QueueCall → Except Raised (List Attempt)
  | claim call => (((joined requests taken).map ClaimedRow.prev).filter reclaimed).mapM
      (lostAttempt call.workerId call.now)
  | record r => do return [← r.entry settings (scheduledNextAt settings op taken)]
  | requeueRequest .. | requeueBulk .. => .ok []

/-- The conflict rule of the insert: what it writes under the key. -/
def resolve (old : Option Attempt) (new : Attempt) : QueueCall → Option Attempt
  | record _ => some (journalAfter new old)
  | _ => if old.isNone then some new else none

/-- What the caller learns when the transaction has committed. -/
def handsOut (settings : Settings) (requests : Table Request.id) (taken : List Delivery) :
    QueueCall → List Claim
  | claim call => newClaims settings call ((joined requests taken).map toClaimed)
  | _ => []

def reports : QueueCall → List ((DeliveryId × ℕ) × AttemptResult)
  | record r => [(r.claim.key, r.result)]
  | _ => []

end QueueCall

/-! ## What the operation of a call is -/

section Op

variable {settings : Settings} {requests : Table Request.id} {op : QueueOp} {d : Delivery}

namespace Recording

theorem op_success {r : Recording} (hs : r.result.succeeded = true) :
    r.op settings = .ok (.success r.claim.delivery.deliveryId r.result r.now) := by
  simp only [op, hs, if_true]
  rfl

theorem op_failure {r : Recording} (hs : r.result.succeeded = false)
    (h : r.op settings = .ok op) : ∃ seconds delay lastError,
      nextDelaySeconds r.claim.delivery.budgetAttempt settings r.draw = .ok seconds ∧
      timedelta seconds = .ok delay ∧
      textParam? (truncate r.result.responseExcerpt settings.responseExcerptBytes) =
        .ok lastError ∧
      op = .failure r.claim.delivery.deliveryId r.claim.workerId r.result lastError
        (isExhausted r.claim.delivery.budgetAttempt settings) delay r.now := by
  simp only [Recording.op, hs, Bool.false_eq_true, if_false] at h
  obtain ⟨seconds, hseconds, h⟩ := Fallible.bind_eq_ok_iff.mp h
  obtain ⟨delay, hdelay, h⟩ := Fallible.bind_eq_ok_iff.mp h
  obtain ⟨lastError, hlast, h⟩ := Fallible.bind_eq_ok_iff.mp h
  exact ⟨seconds, delay, lastError, hseconds, hdelay, hlast, (Fallible.pure_eq_ok_iff.mp h).symm⟩

/-- The two updates of a record, told apart by their condition. -/
theorem op_cases {r : Recording} (h : r.op settings = .ok op) :
    (∃ result now, op = .success r.claim.delivery.deliveryId result now) ∨
      ∃ result lastError exhausted delay now, op = .failure r.claim.delivery.deliveryId
        r.claim.workerId result lastError exhausted delay now := by
  cases hs : r.result.succeeded with
  | true =>
      rw [op_success hs] at h
      exact Or.inl ⟨_, _, (Except.ok.inj h).symm⟩
  | false =>
      obtain ⟨_, _, _, _, _, _, rfl⟩ := op_failure hs h
      exact Or.inr ⟨_, _, _, _, _, rfl⟩

theorem not_skipsLocked {r : Recording} (h : r.op settings = .ok op) : op.skipsLocked = false := by
  rcases op_cases h with ⟨_, _, rfl⟩ | ⟨_, _, _, _, _, rfl⟩ <;> rfl

theorem cap_eq_none {r : Recording} (h : r.op settings = .ok op) : op.cap = none := by
  rcases op_cases h with ⟨_, _, rfl⟩ | ⟨_, _, _, _, _, rfl⟩ <;> rfl

theorem id_of_cond {r : Recording} (h : r.op settings = .ok op) (hd : op.cond d = true) :
    d.id = r.claim.delivery.deliveryId := by
  rcases op_cases h with ⟨_, _, rfl⟩ | ⟨_, _, _, _, _, rfl⟩
  · exact (undelivered_iff.mp hd).1
  · exact (heldBy_iff.mp hd).1

/-- The row a worker holds meets the condition. -/
theorem cond_of_held {r : Recording} (h : r.op settings = .ok op)
    (hid : d.id = r.claim.delivery.deliveryId) (hst : d.status = .inFlight)
    (hlocked : d.lockedBy = some r.claim.workerId) : op.cond d = true := by
  rcases op_cases h with ⟨_, _, rfl⟩ | ⟨_, _, _, _, _, rfl⟩
  · exact undelivered_iff.mpr ⟨hid, by simp [hst]⟩
  · exact heldBy_iff.mpr ⟨hid, hlocked, hst⟩

end Recording

namespace QueueCall

theorem op_claim {call : ClaimCall} (h : (QueueCall.claim call).op settings requests = .ok op) :
    (∃ lease, timedelta settings.leaseSeconds = .ok lease) ∧
      op = .claim call.workerId call.limit call.now := by
  obtain ⟨lease, hlease, h⟩ := Fallible.bind_eq_ok_iff.mp h
  exact ⟨⟨lease, hlease⟩, (Fallible.pure_eq_ok_iff.mp h).symm⟩

theorem op_requeueRequest {call : RequeueScan} {requestId : RequestId}
    {recipients : Option (List PyStr)} {includeDelivered : Bool}
    (h : (QueueCall.requeueRequest call requestId recipients includeDelivered).op settings
      requests = .ok op) :
    ∃ named, (recipients.getD []).mapM textParam = .ok named ∧
      op = .requeue (requestWhere requestId named) includeDelivered none call.now := by
  obtain ⟨named, hnamed, h⟩ := Fallible.bind_eq_ok_iff.mp h
  exact ⟨named, hnamed, (Fallible.pure_eq_ok_iff.mp h).symm⟩

theorem op_requeueBulk {call : RequeueScan} {filter : BulkFilter} {limit : ℕ}
    (h : (QueueCall.requeueBulk call filter limit).op settings requests = .ok op) :
    (∃ origin, textParam? filter.recipientOrigin = .ok origin) ∧
      (∃ part, textParam? filter.recipientUrlContains = .ok part) ∧
      op = .requeue (bulkWhere filter ⟨requests, .empty, .empty⟩) true (some limit) call.now := by
  obtain ⟨origin, horigin, h⟩ := Fallible.bind_eq_ok_iff.mp h
  obtain ⟨part, hpart, h⟩ := Fallible.bind_eq_ok_iff.mp h
  exact ⟨⟨origin, horigin⟩, ⟨part, hpart⟩, (Fallible.pure_eq_ok_iff.mp h).symm⟩

/-- The candidates are ones `queueLocks` allows. -/
theorem Scans.plans {call : QueueCall} {committed : Table Delivery.id} {plan : List DeliveryId}
    (hop : call.op settings requests = .ok op) (h : call.Scans settings committed op plan) :
    (queueLocks settings).plans op committed plan := by
  cases call with
  | claim call =>
      obtain ⟨rfl, hvalid, rfl⟩ := h
      obtain ⟨_, rfl⟩ := op_claim hop
      exact .claim hvalid
  | record r =>
      obtain rfl : plan = _ := h
      rcases r.op_cases hop with ⟨_, _, rfl⟩ | ⟨_, _, _, _, _, rfl⟩
      · exact .success
      · exact .failure
  | requeueRequest call requestId recipients includeDelivered =>
      obtain ⟨rfl, hvalid, rfl⟩ := h
      obtain ⟨named, _, rfl⟩ := op_requeueRequest hop
      exact .requeue hvalid
  | requeueBulk call filter limit =>
      obtain ⟨rfl, hvalid, rfl⟩ := h
      obtain ⟨_, _, rfl⟩ := op_requeueBulk hop
      exact .requeue hvalid

/-- Every candidate is a stored row. -/
theorem Scans.exists_row {call : QueueCall} {committed : Table Delivery.id}
    {plan : List DeliveryId} (hop : call.op settings requests = .ok op)
    (h : call.Scans settings committed op plan) {id : DeliveryId} (hid : id ∈ plan) :
    ∃ d, committed.get? id = some d := by
  have hplan := h.plans hop
  cases hplan with
  | @claim workerId call hvalid =>
      obtain ⟨row, hrow, rfl⟩ := List.mem_map.mp hid
      obtain ⟨d, hd, heq⟩ := List.mem_map.mp (List.mem_of_mem_filter
        (hvalid.order_perm.mem_iff.mp hrow))
      have hmem := List.mem_of_mem_filter (hvalid.scan_perm.mem_iff.mp (List.mem_of_mem_take hd))
      exact ⟨d, by rw [← heq]; exact Table.get?_of_mem hmem⟩
  | success | failure =>
      obtain ⟨d, hd, rfl⟩ := List.mem_map.mp hid
      exact ⟨d, Table.get?_of_mem (List.mem_of_mem_filter hd)⟩
  | requeue hvalid =>
      obtain ⟨d, hd, rfl⟩ := List.mem_map.mp hid
      exact ⟨d, Table.get?_of_mem (List.mem_of_mem_filter (hvalid.scan_perm.mem_iff.mp hd))⟩

end QueueCall

end Op

/-! ## The server -/

/-- What is known of an open transaction beside the rows it has locked. -/
structure Session where
  call : QueueCall
  /-- The leads its first statement saw. -/
  requests : Table Request.id
  /-- What it has written to the journal; `none` before that statement. -/
  written : Option (List Attempt)
  /-- Deliveries locked in share mode, for the rows inserted. -/
  shared : List DeliveryId

structure Server (ι : Type) where
  rows : State Delivery.id QueueOp ι
  requests : Table Request.id
  journal : Table Attempt.key
  clock : Instant
  /-- Claims handed out and results committed, as in `Service`. -/
  claims : List Claim
  results : List ((DeliveryId × ℕ) × AttemptResult)
  sessions : ι → Option Session

namespace Server

variable {ι : Type}

/-- What is committed. -/
def db (s : Server ι) : Database := ⟨s.requests, s.rows.committed, s.journal⟩

/-- What is committed, without the open transactions. -/
def committed (s : Server ι) : Service := ⟨s.db, s.clock, s.claims, s.results⟩

def empty (clock : Instant) : Server ι where
  rows := ⟨.empty, fun _ => none, []⟩
  requests := .empty
  journal := .empty
  clock := clock
  claims := []
  results := []
  sessions := fun _ => none

/-- Another transaction holds the row in share mode. -/
def SharedByOther (s : Server ι) (i : ι) (id : DeliveryId) : Prop :=
  ∃ j session, j ≠ i ∧ s.sessions j = some session ∧ id ∈ session.shared

/-- Another transaction holds the row `FOR UPDATE`. -/
def ClaimedByOther (s : Server ι) (i : ι) (id : DeliveryId) : Prop :=
  ∃ j tx, j ≠ i ∧ s.rows.txs j = some tx ∧ tx.op.skipsLocked = true ∧ id ∈ tx.held

/-- Another transaction has written to the journal under the key. -/
def WrittenByOther (s : Server ι) (i : ι) (key : DeliveryId × ℕ) : Prop :=
  ∃ j session, j ≠ i ∧ s.sessions j = some session ∧
    ∃ written ∈ session.written, key ∈ written.map Attempt.key

/-- The program makes the call. A requeue of one lead looks the lead up first; a
worker records a claim it holds, once. -/
def Makes (s : Server ι) : QueueCall → Prop
  | .record r =>
      s.committed.claim? r.claim.delivery.deliveryId r.claim.attemptNumber = some r.claim ∧
      s.committed.result? r.claim.delivery.deliveryId r.claim.attemptNumber = none ∧
      ∀ j session r', s.sessions j = some session → session.call = .record r' →
        r'.claim.key ≠ r.claim.key
  | .requeueRequest _ requestId .. => (s.requests.get? requestId).isSome
  | _ => True

/-- After a transaction of intake. -/
def stored (s : Server ι) (db : Database) : Server ι :=
  { s with
    rows := { s.rows with committed := db.deliveries }
    requests := db.requests
    journal := db.deliveryAttempts }

variable [DecidableEq ι]

/-- The statement of session `i` moves on. -/
def moved (s : Server ι) (i : ι) (tx : Tx Delivery DeliveryId QueueOp) : Server ι :=
  { s with rows := { s.rows with txs := Function.update s.rows.txs i (some tx) } }

/-- Session `i` opens, writes, or ends. -/
def withSession (s : Server ι) (i : ι) (session : Option Session) : Server ι :=
  { s with sessions := Function.update s.sessions i session }

/-- Session `i` commits: its rows, what it has written to the journal, and what its
caller learns. -/
def published (s : Server ι) (settings : Settings) (i : ι) (session : Session)
    (tx : Tx Delivery DeliveryId QueueOp) (written : List Attempt) : Server ι where
  rows := ⟨committedBy settings s.rows.committed tx, Function.update s.rows.txs i none,
    (queueLocks settings).changes tx.op tx.taken ++ s.rows.history⟩
  requests := s.requests
  journal := s.journal.putAll written
  clock := s.clock
  claims := s.claims ++ session.call.handsOut settings session.requests tx.taken
  results := s.results ++ session.call.reports
  sessions := Function.update s.sessions i none

/-- Session `i` is rolled back. -/
def aborted (s : Server ι) (i : ι) : Server ι :=
  { s with rows := { s.rows with txs := Function.update s.rows.txs i none } }.withSession i none

end Server

inductive ServerLabel (ι : Type) where
  | advance (t : Instant)
  | accept (gen : Generated) (req : IntakeRequest)
  | attach (gen : Generated) (requestId : RequestId) (recipients : List RecipientIn)
  | begin (i : ι) (call : QueueCall)
  | skip (i : ι)
  | take (i : ι)
  | drop (i : ι)
  | write (i : ι)
  | commit (i : ι)
  | abort (i : ι)

variable {ι : Type} [DecidableEq ι]

open Server in
/-- One statement of one transaction, or its end. -/
inductive ServerStep (settings : Settings) : Server ι → ServerLabel ι → Server ι → Prop where
  | advance {s : Server ι} {t : Instant} :
      s.clock ≤ t → ServerStep settings s (.advance t) { s with clock := t }
  | accept {s : Server ι} {gen : Generated} {req : IntakeRequest} {db : Database}
      {answer : IntakeAccepted} :
      gen.now ≤ s.clock → acceptRequest gen req s.db = .ok (db, answer) →
      ServerStep settings s (.accept gen req) (s.stored db)
  | attach {s : Server ι} {gen : Generated} {requestId : RequestId}
      {recipients : List RecipientIn} {db : Database} {answer : AttachRecipientsResponse} :
      gen.now ≤ s.clock → attachRecipients gen requestId recipients s.db = .ok (some (db, answer)) →
      ServerStep settings s (.attach gen requestId recipients) (s.stored db)
  | begin {s : Server ι} {i : ι} {call : QueueCall} {op : QueueOp} {plan : List DeliveryId} :
      s.sessions i = none → call.now ≤ s.clock → s.Makes call →
      call.op settings s.requests = .ok op → call.Scans settings s.rows.committed op plan →
      ServerStep settings s (.begin i call)
        ((s.moved i ⟨op, plan, plan, [], []⟩).withSession i (some ⟨call, s.requests, none, []⟩))
  | skip {s : Server ι} {i : ι} {session : Session} {tx : Tx Delivery DeliveryId QueueOp}
      {id : DeliveryId} {rest : List DeliveryId} :
      s.sessions i = some session → session.written = none → s.rows.txs i = some tx →
      tx.todo = id :: rest → tx.op.skipsLocked = true →
      Discipline.HeldByOther s.rows i id ∨ s.SharedByOther i id →
      ServerStep settings s (.skip i) (s.moved i { tx with todo := rest })
  | take {s : Server ι} {i : ι} {session : Session} {tx : Tx Delivery DeliveryId QueueOp}
      {id : DeliveryId} {rest : List DeliveryId} {d : Delivery} :
      s.sessions i = some session → session.written = none → s.rows.txs i = some tx →
      tx.todo = id :: rest → (queueLocks settings).Room tx →
      ¬ Discipline.HeldByOther s.rows i id → (tx.op.skipsLocked = true → ¬ s.SharedByOther i id) →
      s.rows.committed.get? id = some d → tx.op.cond d = true →
      ServerStep settings s (.take i)
        (s.moved i { tx with todo := rest, held := id :: tx.held, taken := tx.taken ++ [d] })
  | drop {s : Server ι} {i : ι} {session : Session} {tx : Tx Delivery DeliveryId QueueOp}
      {id : DeliveryId} {rest held : List DeliveryId} :
      s.sessions i = some session → session.written = none → s.rows.txs i = some tx →
      tx.todo = id :: rest → ¬ Discipline.HeldByOther s.rows i id →
      (tx.op.skipsLocked = true → ¬ s.SharedByOther i id) →
      (∀ d, s.rows.committed.get? id = some d → tx.op.cond d = false) →
      held = tx.held ∨ held = id :: tx.held →
      ServerStep settings s (.drop i) (s.moved i { tx with todo := rest, held := held })
  | write {s : Server ι} {i : ι} {session : Session} {tx : Tx Delivery DeliveryId QueueOp}
      {entries : List Attempt} :
      s.sessions i = some session → session.written = none → s.rows.txs i = some tx →
      tx.todo = [] ∨ ¬ (queueLocks settings).Room tx →
      session.call.entries settings session.requests tx.op tx.taken = .ok entries →
      (∀ e ∈ entries, ¬ s.WrittenByOther i e.key) →
      (∀ e ∈ entries, s.journal.get? e.key = none → ¬ s.ClaimedByOther i e.deliveryId) →
      ServerStep settings s (.write i) (s.withSession i (some { session with
        written := some (entries.filterMap fun e => session.call.resolve (s.journal.get? e.key) e)
        shared := (entries.filter fun e => (s.journal.get? e.key).isNone).map
          Attempt.deliveryId }))
  | commit {s : Server ι} {i : ι} {session : Session} {tx : Tx Delivery DeliveryId QueueOp}
      {written : List Attempt} :
      s.sessions i = some session → session.written = some written → s.rows.txs i = some tx →
      ServerStep settings s (.commit i) (s.published settings i session tx written)
  | abort {s : Server ι} {i : ι} {session : Session} :
      s.sessions i = some session →
      ServerStep settings s (.abort i) (s.aborted i)

/-- Runs start from an empty database with no transaction open. -/
def server (settings : Settings) (ι : Type) [DecidableEq ι] :
    Machine (Server ι) (ServerLabel ι) where
  init s := ∃ clock, s = .empty clock
  step := ServerStep settings

end LeadQueue
