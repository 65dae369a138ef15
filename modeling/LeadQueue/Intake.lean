import LeadQueue.JsonText.Dumps
import LeadQueue.Library.Fallible
import LeadQueue.Schema

/-!
# Accepting a lead

`acceptRequest` stores a lead and queues it for every recipient in one
transaction; a key that is already there changes nothing. `attachRecipients`
adds recipients to a known lead.
-/

namespace LeadQueue

open Relational

/-- A validated recipient. `origin` is `origin_of(url)`, which intake computes
next to the insert. -/
structure RecipientIn where
  url : PyStr
  name : Option PyStr
  origin : PyStr
deriving DecidableEq

/-- A validated lead. -/
structure IntakeRequest where
  sourceId : PyStr
  idempotencyKey : PyStr
  payload : Json
  recipients : List RecipientIn

structure IntakeAccepted where
  requestId : RequestId
  duplicate : Bool
  receivedAt : Instant
  recipientCount : ℕ
deriving DecidableEq

structure AttachRecipientsResponse where
  requestId : RequestId
  added : ℕ
  alreadyPresent : ℕ
  deliveryIds : List DeliveryId
deriving DecidableEq

/-- What the database generates for one call: the transaction's clock and the
values of `gen_random_uuid()`. -/
structure Generated where
  now : Instant
  requestId : RequestId
  deliveryId : ℕ → DeliveryId

/-! ## Deliveries -/

/-- Recipients whose URL is not in `seen`, the first mention of each. -/
def dedupeFrom (seen : List PyStr) : List RecipientIn → List RecipientIn
  | [] => []
  | r :: rs =>
      if r.url ∈ seen then dedupeFrom seen rs else r :: dedupeFrom (r.url :: seen) rs

/-- `_dedupe`. -/
def dedupe (recipients : List RecipientIn) : List RecipientIn := dedupeFrom [] recipients

/-- A recipient as the insert binds it. -/
structure RecipientRow where
  name : Option PgText
  url : PgText
  origin : PgText

/-- A text as asyncpg sends it. Validation keeps surrogates out of every text of a
lead but the URLs. -/
def utf8Param (s : PyStr) : Except Raised PgText :=
  if s.encodable then textParam s else .error .unicodeEncodeError

def bindRecipient (r : RecipientIn) : Except Raised RecipientRow := do
  let name ← textParam? r.name
  let url ← utf8Param r.url
  let origin ← utf8Param r.origin
  return ⟨name, url, origin⟩

/-- A new row of `deliveries`: the column defaults, and the trigger. -/
def newDelivery (now : Instant) (requestId : RequestId) (id : DeliveryId) (r : RecipientRow) :
    Delivery :=
  deliveriesSyncClaimable now
    { id := id
      requestId := requestId
      recipientName := r.name
      recipientUrl := r.url
      recipientOrigin := r.origin
      status := .pending
      attempts := 0
      totalAttempts := 0
      nextAttemptAt := now
      leaseExpiresAt := none
      lockedBy := none
      lastAttemptAt := none
      lastOutcome := none
      lastErrorKind := none
      lastStatusCode := none
      lastError := none
      deliveredAt := none
      failedAt := none
      createdAt := now
      claimableAt := now }

@[simp] theorem newDelivery_id (now : Instant) (requestId : RequestId) (id : DeliveryId)
    (r : RecipientRow) : (newDelivery now requestId id r).id = id := rfl

/-- One row of the insert, `ON CONFLICT (request_id, recipient_url) DO NOTHING`. -/
def insertDelivery (now : Instant) (requestId : RequestId) (acc : Database × List DeliveryId)
    (row : RecipientRow × DeliveryId) : Except Raised (Database × List DeliveryId) :=
  if acc.1.deliveries.rows.any fun d => d.requestId == requestId && d.recipientUrl == row.1.url then
    .ok acc
  else
    match acc.1.deliveries.insert? (newDelivery now requestId row.2 row.1) with
    | none => .error .uniqueViolation
    | some deliveries => .ok ({ acc.1 with deliveries := deliveries }, acc.2 ++ [row.2])

/-- `_insert_deliveries`: the ids of the rows it created. -/
def insertDeliveries (gen : Generated) (requestId : RequestId) (recipients : List RecipientIn)
    (db : Database) : Except Raised (Database × List DeliveryId) := do
  let rows ← recipients.mapM bindRecipient
  (rows.zipIdx.map fun p => (p.1, gen.deliveryId p.2)).foldlM
    (insertDelivery gen.now requestId) (db, [])

/-! ## The two transactions -/

/-- Store a lead and queue it for every recipient. -/
def acceptRequest (gen : Generated) (req : IntakeRequest) (db : Database) :
    Except Raised (Database × IntakeAccepted) := do
  let recipients := dedupe req.recipients
  let sourceId ← textParam req.sourceId
  let idempotencyKey ← textParam req.idempotencyKey
  let payload ← jsonbParam req.payload
  match db.requests.rows.find? fun r =>
      r.sourceId == sourceId && r.idempotencyKey == idempotencyKey with
  | some existing =>
      -- a repeated lead: nothing is written, the recipients are not compared
      return (db,
        { requestId := existing.id
          duplicate := true
          receivedAt := existing.receivedAt
          recipientCount := db.deliveries.rows.countP fun d => d.requestId == existing.id })
  | none =>
      match db.requests.insert? ⟨gen.requestId, sourceId, idempotencyKey, payload, gen.now⟩ with
      | none => throw .uniqueViolation
      | some requests =>
          let (db', ids) ← insertDeliveries gen gen.requestId recipients
            { db with requests := requests }
          return (db',
            { requestId := gen.requestId
              duplicate := false
              receivedAt := gen.now
              recipientCount := ids.length })

/-- Add recipients to a known lead. `None` when there is no such lead. -/
def attachRecipients (gen : Generated) (requestId : RequestId) (recipients : List RecipientIn)
    (db : Database) : Except Raised (Option (Database × AttachRecipientsResponse)) := do
  let unique := dedupe recipients
  if (db.requests.get? requestId).isNone then return none
  let (db', ids) ← insertDeliveries gen requestId unique db
  return some (db',
    { requestId := requestId
      added := ids.length
      alreadyPresent := unique.length - ids.length
      deliveryIds := ids })

/-! ## What intake can do -/

/-- Intake only adds: known leads, known deliveries and the journal stay, and a
new delivery starts as `newDelivery`, of a lead that is stored. -/
structure Extends (now : Instant) (db db' : Database) : Prop where
  requests : ∀ id r, db.requests.get? id = some r → db'.requests.get? id = some r
  deliveries : ∀ id, db'.deliveries.get? id = db.deliveries.get? id ∨
    (db.deliveries.get? id = none ∧
      ∃ requestId r, db'.deliveries.get? id = some (newDelivery now requestId id r) ∧
        (db'.requests.get? requestId).isSome)
  journal : db'.deliveryAttempts = db.deliveryAttempts

theorem Extends.refl (now : Instant) (db : Database) : Extends now db db :=
  ⟨fun _ _ h => h, fun _ => Or.inl rfl, rfl⟩

theorem Extends.isSome {now : Instant} {db db' : Database} (h : Extends now db db')
    {id : RequestId} (hid : (db.requests.get? id).isSome) : (db'.requests.get? id).isSome := by
  obtain ⟨lead, hlead⟩ := Option.isSome_iff_exists.mp hid
  exact Option.isSome_iff_exists.mpr ⟨lead, h.requests id lead hlead⟩

theorem Extends.trans {now : Instant} {db₁ db₂ db₃ : Database} (h : Extends now db₁ db₂)
    (h' : Extends now db₂ db₃) : Extends now db₁ db₃ := by
  refine ⟨fun id r hr => h'.requests id r (h.requests id r hr), fun id => ?_,
    h'.journal.trans h.journal⟩
  rcases h'.deliveries id with heq | ⟨hnone, hnew⟩
  · rw [heq]
    rcases h.deliveries id with heq' | ⟨hnone, requestId, r, hsome, hlead⟩
    · exact Or.inl heq'
    · exact Or.inr ⟨hnone, requestId, r, hsome, h'.isSome hlead⟩
  · rcases h.deliveries id with heq | ⟨_, requestId, r, hsome, _⟩
    · exact Or.inr ⟨heq ▸ hnone, hnew⟩
    · rw [hsome] at hnone
      cases hnone

theorem insertDelivery_extends {now : Instant} {requestId : RequestId}
    {acc acc' : Database × List DeliveryId} {row : RecipientRow × DeliveryId}
    (hlead : (acc.1.requests.get? requestId).isSome)
    (h : insertDelivery now requestId acc row = .ok acc') : Extends now acc.1 acc'.1 := by
  unfold insertDelivery at h
  split at h
  · cases h
    exact .refl now _
  · split at h
    · cases h
    · rename_i deliveries hins
      cases h
      refine ⟨fun _ _ hr => hr, fun id => ?_, rfl⟩
      have hget := Table.get?_insert? hins id
      by_cases hid : id = row.2
      · subst hid
        exact Or.inr ⟨Table.get?_eq_none_of_insert? hins, requestId, row.1,
          by simpa using hget, hlead⟩
      · exact Or.inl (by simpa [hid] using hget)

theorem insertDeliveries_extends {gen : Generated} {requestId : RequestId}
    {recipients : List RecipientIn} {db db' : Database} {ids : List DeliveryId}
    (hlead : (db.requests.get? requestId).isSome)
    (h : insertDeliveries gen requestId recipients db = .ok (db', ids)) :
    Extends gen.now db db' := by
  obtain ⟨rows, _, h⟩ := Fallible.bind_eq_ok_iff.mp h
  refine Fallible.foldlM_rel
    (fun a b : Database × List DeliveryId =>
      (a.1.requests.get? requestId).isSome → Extends gen.now a.1 b.1)
    (fun a _ => .refl _ a.1) ?_ (fun _ _ _ hstep ha => insertDelivery_extends ha hstep) h hlead
  intro a b c h₁ h₂ ha
  exact (h₁ ha).trans (h₂ ((h₁ ha).isSome ha))

theorem acceptRequest_extends {gen : Generated} {req : IntakeRequest} {db db' : Database}
    {answer : IntakeAccepted} (h : acceptRequest gen req db = .ok (db', answer)) :
    Extends gen.now db db' := by
  unfold acceptRequest at h
  obtain ⟨_, _, h⟩ := Fallible.bind_eq_ok_iff.mp h
  obtain ⟨_, _, h⟩ := Fallible.bind_eq_ok_iff.mp h
  obtain ⟨_, _, h⟩ := Fallible.bind_eq_ok_iff.mp h
  split at h
  · cases h
    exact .refl _ _
  · split at h
    · cases h
    · rename_i requests hins
      obtain ⟨⟨db₁, ids⟩, hdel, h⟩ := Fallible.bind_eq_ok_iff.mp h
      cases h
      have hlead : (requests.get? gen.requestId).isSome := by
        rw [Table.get?_insert? hins, if_pos rfl]
        rfl
      refine Extends.trans ?_ (insertDeliveries_extends hlead hdel)
      refine ⟨fun id r hr => ?_, fun _ => Or.inl rfl, rfl⟩
      rw [Table.get?_insert? hins]
      split
      · rename_i hid
        rw [hid, Table.get?_eq_none_of_insert? hins] at hr
        cases hr
      · exact hr

theorem attachRecipients_extends {gen : Generated} {requestId : RequestId}
    {recipients : List RecipientIn} {db db' : Database} {answer : AttachRecipientsResponse}
    (h : attachRecipients gen requestId recipients db = .ok (some (db', answer))) :
    Extends gen.now db db' := by
  unfold attachRecipients at h
  split at h
  · cases h
  · rename_i hknown
    obtain ⟨⟨db₁, ids⟩, hdel, h⟩ := Fallible.bind_eq_ok_iff.mp h
    cases h
    exact insertDeliveries_extends (by simpa [Option.isSome_iff_ne_none] using hknown) hdel

end LeadQueue
