import LeadQueue.Sender

/-!
# The recipient stub

A named endpoint answers as it was last told to and keeps a record of what it
received. `receive` awaits twice, for the body and, when slow, before it answers;
what runs between two awaits is one definition each.
-/

namespace LeadQueue.Stub

inductive Mode where
  | ok
  | error
  | silent
  | slow
deriving DecidableEq

/-- The status codes a `Behaviour` may set. -/
abbrev StatusCode := { code : ℕ // 100 ≤ code ∧ code ≤ 599 }

def defaultStatusCode : StatusCode := ⟨500, by decide⟩

structure Behaviour where
  mode : Mode := .ok
  statusCode : StatusCode := defaultStatusCode
  failFirst : Option ℕ := none

/-- `responded_with`: a status code, or "silent". -/
inductive RespondedWith where
  | status (code : ℕ)
  | silent
deriving DecidableEq

namespace RespondedWith

/-- The client takes the answer for a success. -/
def Confirms : RespondedWith → Prop
  | .status code => 200 ≤ code ∧ code < 300
  | .silent => False

instance (r : RespondedWith) : Decidable r.Confirms := by
  unfold Confirms
  split <;> infer_instance

end RespondedWith

structure ReceivedRecord where
  idempotencyKey : Option PyStr
  requestId : Option PyStr
  attempt : Option PyStr
  respondedWith : RespondedWith
  body : Option Body

structure EndpointState where
  behaviour : Behaviour
  received : List ReceivedRecord
  handled : ℕ

namespace EndpointState

def new : EndpointState := ⟨{}, [], 0⟩

end EndpointState

/-! ## Receiving -/

/-- The record of a request. -/
def recordOf (request : HttpRequest) (body : Option Body) (respondedWith : RespondedWith) :
    ReceivedRecord where
  idempotencyKey := request.headers.lookup "Idempotency-Key"
  requestId := request.headers.lookup "X-Intake-Request-Id"
  attempt := request.headers.lookup "X-Intake-Attempt"
  respondedWith := respondedWith
  body := body

/-- `mode`, for the request with this sequence number. -/
def modeFor (behaviour : Behaviour) (ordinal : ℕ) : Mode :=
  if behaviour.failFirst.all fun n => ordinal ≤ n then behaviour.mode else .ok

/-- What is recorded before `receive` sleeps, if it does not sleep first. -/
def respondAtOnce (behaviour : Behaviour) (ordinal : ℕ) : Option RespondedWith :=
  match modeFor behaviour ordinal with
  | .silent => some .silent
  | .slow => none
  | .error => some (.status behaviour.statusCode)
  | .ok => some (.status 200)

/-- `receive` once the body is read, or could not be. -/
def receive (behaviour : Behaviour) (request : HttpRequest) (body : Option Body)
    (state : EndpointState) : EndpointState where
  behaviour := state.behaviour
  received := state.received ++
    ((respondAtOnce behaviour (state.handled + 1)).map (recordOf request body)).toList
  handled := state.handled + 1

/-- The end of a slow `receive`. -/
def receiveSlow (request : HttpRequest) (body : Option Body) (state : EndpointState) :
    EndpointState :=
  { state with received := state.received ++ [recordOf request body (.status 200)] }

/-! ## Control -/

def setBehaviour (behaviour : Behaviour) (state : EndpointState) : EndpointState :=
  ⟨behaviour, state.received, 0⟩

def clearReceived (state : EndpointState) : EndpointState := ⟨state.behaviour, [], 0⟩

/-! ## The summary -/

/-- `counts[key] = counts.get(key, 0) + 1`. -/
def countOne {κ : Type} [DecidableEq κ] (key : κ) : List (κ × ℕ) → List (κ × ℕ)
  | [] => [(key, 1)]
  | (k, n) :: rest => if k = key then (k, n + 1) :: rest else (k, n) :: countOne key rest

/-- `_count_by_status`. -/
def countByStatus (state : EndpointState) : List (RespondedWith × ℕ) :=
  state.received.foldl (fun counts record => countOne record.respondedWith counts) []

structure Summary where
  total : ℕ
  accepted : ℕ
  uniqueIdempotencyKeys : ℕ
  uniqueRequestIds : ℕ
  duplicateDeliveries : ℕ
  repeatsTotal : ℕ
  byStatus : List (RespondedWith × ℕ)

/-- A key that is there and not empty. -/
def keyOf (record : ReceivedRecord) : Option PyStr :=
  record.idempotencyKey.filter fun key => key ≠ []

/-- The keys of the requests that were accepted. -/
def acceptedKeys (state : EndpointState) : List PyStr :=
  (state.received.filter fun r => r.respondedWith = .status 200).filterMap keyOf

def allKeys (state : EndpointState) : List PyStr := state.received.filterMap keyOf

def getSummary (state : EndpointState) : Summary where
  total := state.received.length
  accepted := (acceptedKeys state).length
  uniqueIdempotencyKeys := (allKeys state).dedup.length
  uniqueRequestIds := (state.received.filterMap fun r =>
    r.requestId.filter fun id => id ≠ []).dedup.length
  duplicateDeliveries := (acceptedKeys state).length - (acceptedKeys state).dedup.length
  repeatsTotal := (allKeys state).length - (allKeys state).dedup.length
  byStatus := countByStatus state

theorem duplicateDeliveries_eq_zero (state : EndpointState) (h : (acceptedKeys state).Nodup) :
    (getSummary state).duplicateDeliveries = 0 := by
  show (acceptedKeys state).length - (acceptedKeys state).dedup.length = 0
  rw [h.dedup, Nat.sub_self]

end LeadQueue.Stub
