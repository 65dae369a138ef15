import LeadQueue.Intake
import LeadQueue.JsonText.Dumps
import LeadQueue.Recipients
import LeadQueue.Schemas
import LeadQueue.Settings

/-!
# Request bodies

What the two intake endpoints accept. A body is taken after the JSON parser and
after pydantic's checks of its shape (types, missing and unknown fields); a
refused body is answered with every problem found, each naming its field.
-/

namespace LeadQueue

/-! ## Problems -/

/-- Why a field is refused. -/
inductive Reason where
  /-- One of pydantic's own constraints. -/
  | constraint
  /-- `Value error, …` with the text of a validator of the service. -/
  | valueError (text : PyStr)
  /-- The `UnicodeEncodeError` of a lone surrogate. -/
  | unicodeEncodeError
deriving DecidableEq

/-- An `ErrorDetail`. -/
structure Problem where
  field : PyStr
  reason : Reason
deriving DecidableEq

def FieldProblem.reason (problem : FieldProblem) : Reason :=
  match problem.message with
  | none => .constraint
  | some text => .valueError (.ofString text)

def refuse {α : Type} (field : PyStr) (text : String) : Except (List Problem) α :=
  .error [⟨field, .valueError (.ofString text)⟩]

/-! ## Recipients -/

/-- A recipient of a body. -/
structure RecipientBody where
  url : PyStr
  name : Option PyStr
deriving DecidableEq

/-- `_validate_url`. -/
def urlField (lib : UrlLibrary) (field value : PyStr) : Except (List Problem) PyStr :=
  match normalizeUrl lib value with
  | .ok url => .ok url
  | .error text => .error [⟨field, .valueError text⟩]

/-- `Field(max_length=200)` and `_strip_name`. -/
def nameField (field : PyStr) : Option PyStr → Except (List Problem) (Option PyStr)
  | none => .ok none
  | some value =>
      if value.any Json.isSurrogate || decide (200 < value.length) then
        .error [⟨field, .constraint⟩]
      else if (0 : CodePoint) ∈ value then refuse field "must not contain a null byte"
      else .ok (if value.strip = [] then none else some value.strip)

/-- `RecipientIn`, the recipient at index `i`. -/
def recipientIn (lib : UrlLibrary) (i : ℕ) (body : RecipientBody) :
    Except (List Problem) RecipientIn :=
  let path (field : String) : PyStr :=
    .ofString "recipients." ++ PyStr.ofNat i ++ .ofString field
  (Fallible.both (urlField lib (path ".url") body.url) (nameField (path ".name") body.name)).map
    fun p => ⟨p.1, p.2, (originOf lib p.1).getD []⟩

/-! ## The payload -/

namespace Json

mutual

/-- `_contains_null_byte`. -/
def containsNullByte : Json → Bool
  | str s => s.contains 0
  | obj fields => containsNullByteFields fields
  | arr items => containsNullByteItems items
  | null | bool _ | int _ | float _ | nan | infinity _ => false

def containsNullByteItems : List Json → Bool
  | [] => false
  | j :: js => containsNullByte j || containsNullByteItems js

def containsNullByteFields : List (PyStr × Json) → Bool
  | [] => false
  | (k, j) :: rest => (k.contains 0 || containsNullByte j) || containsNullByteFields rest

end

end Json

/-- `_payload_not_empty`. -/
def payloadField : Json → Except (List Problem) Json
  | .obj fields =>
      if fields.isEmpty then
        refuse (.ofString "payload") "payload must contain at least one field"
      else if Json.containsNullByte (.obj fields) then
        refuse (.ofString "payload")
          "payload must not contain a null byte (U+0000); it cannot be stored"
      else .ok (.obj fields)
  | _ => .error [⟨.ofString "payload", .constraint⟩]

/-! ## The bodies -/

/-- A lead as it is sent. -/
structure IntakeBody where
  sourceId : PyStr
  idempotencyKey : PyStr
  payload : Json
  recipients : List RecipientBody

/-- `source_id` and `idempotency_key`. -/
def requiredField (field : String) (value : PyStr) : Except (List Problem) PyStr :=
  if value.any Json.isSurrogate then .error [⟨.ofString field, .constraint⟩]
  else
    match requiredText value with
    | .ok text => .ok text
    | .error problem => .error [⟨.ofString field, problem.reason⟩]

/-- `_check_limits`. -/
def checkLimits (settings : Settings) (req : IntakeRequest) :
    Except (List Problem) IntakeRequest :=
  match encodedLength (req.payload.dumps false) with
  | none => .error [⟨.ofString "body", .unicodeEncodeError⟩]
  | some size =>
      if settings.maxPayloadBytes < size then
        .error [⟨.ofString "body", .valueError (.ofString "payload is " ++ PyStr.ofNat size ++
          .ofString " bytes, limit is " ++ PyStr.ofNat settings.maxPayloadBytes)⟩]
      else if settings.maxRecipientsPerRequest < req.recipients.length then
        .error [⟨.ofString "body", .valueError (PyStr.ofNat req.recipients.length ++
          .ofString " recipients given, limit is " ++
          PyStr.ofNat settings.maxRecipientsPerRequest)⟩]
      else .ok req

/-- `IntakeRequest`. -/
def validateIntake (lib : UrlLibrary) (settings : Settings) (body : IntakeBody) :
    Except (List Problem) IntakeRequest :=
  match
    Fallible.both (requiredField "source_id" body.sourceId)
      (Fallible.both (requiredField "idempotency_key" body.idempotencyKey)
        (Fallible.both (payloadField body.payload)
          (Fallible.collect (recipientIn lib) 0 body.recipients))) with
  | .error problems => .error problems
  | .ok (sourceId, idempotencyKey, payload, recipients) =>
      checkLimits settings ⟨sourceId, idempotencyKey, payload, recipients⟩

/-- `AttachRecipientsRequest`: at least one recipient, and no upper bound. -/
def validateAttach (lib : UrlLibrary) (body : List RecipientBody) :
    Except (List Problem) (List RecipientIn) :=
  if body.isEmpty then .error [⟨.ofString "recipients", .constraint⟩]
  else Fallible.collect (recipientIn lib) 0 body

/-! ## The endpoints -/

/-- The message can be written as UTF-8. `msg` is what pydantic prints of the text
of a `ValueError`; the messages of its own are ASCII. -/
def Reason.encodable (msg : PyStr → PyStr) : Reason → Bool
  | .valueError text => (msg text).encodable
  | .constraint | .unicodeEncodeError => true

end LeadQueue
