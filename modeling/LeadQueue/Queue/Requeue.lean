import LeadQueue.Library.Fallible
import LeadQueue.Schema
import Mathlib.Data.List.Sort

/-!
# Manual retry

Requeuing resets the attempt budget. One statement does it: lock the target
rows, classify each, update the ones to requeue. `requeueRequest` and
`requeueBulk` differ in the filter only.
-/

namespace LeadQueue

open Relational

/-- What the database decides on its own for one requeue statement: the clock,
the snapshot the filter reads, the order `ORDER BY created_at` leaves ties in,
and the rows other open transactions hold. -/
structure RequeueScan where
  now : Instant
  snapshot : Table Delivery.id
  scan : List Delivery
  locked : DeliveryId → Bool

/-- The scan is the filtered snapshot in an order the `ORDER BY` permits. -/
structure RequeueScan.Valid (call : RequeueScan) (where_ : Delivery → Bool) : Prop where
  scan_perm : call.scan.Perm (call.snapshot.rows.filter where_)
  scan_sorted : call.scan.Pairwise (fun d e => d.createdAt ≤ e.createdAt)

instance RequeueScan.decidableValid (call : RequeueScan) (where_ : Delivery → Bool) :
    Decidable (call.Valid where_) :=
  decidable_of_iff
    (call.scan.Perm (call.snapshot.rows.filter where_) ∧
      call.scan.Pairwise (fun d e => d.createdAt ≤ e.createdAt))
    ⟨fun ⟨a, b⟩ => ⟨a, b⟩, fun ⟨a, b⟩ => ⟨a, b⟩⟩

/-- A scan of the latest state that meets no lock, ties in table order. -/
def RequeueScan.unlocked (now : Instant) (where_ : Delivery → Bool)
    (deliveries : Table Delivery.id) : RequeueScan where
  now := now
  snapshot := deliveries
  scan := (deliveries.rows.filter where_).insertionSort fun d e => d.createdAt ≤ e.createdAt
  locked := fun _ => false

theorem RequeueScan.unlocked_valid (now : Instant) (where_ : Delivery → Bool)
    (deliveries : Table Delivery.id) :
    (RequeueScan.unlocked now where_ deliveries).Valid where_ := by
  have htotal : Std.Total (fun d e : Delivery => d.createdAt ≤ e.createdAt) :=
    ⟨fun d e => le_total d.createdAt e.createdAt⟩
  have htrans : IsTrans Delivery (fun d e => d.createdAt ≤ e.createdAt) :=
    ⟨fun _ _ _ => le_trans⟩
  exact ⟨List.perm_insertionSort _ _, List.pairwise_insertionSort _ _⟩

/-! ## The statement -/

inductive RequeueAction where
  | skipInFlight | skipDelivered | requeue
deriving DecidableEq, Repr

/-- The `CASE` of `classified`. -/
def classify (now : Instant) (includeDelivered : Bool) (d : Delivery) : RequeueAction :=
  if d.status = .inFlight ∧ d.leaseExpiresAt.any (fun lease => decide (now < lease)) then
    .skipInFlight
  else if d.status = .delivered ∧ includeDelivered = false then .skipDelivered
  else .requeue

/-- The `SET` of the requeue. -/
def requeueSet (now : Instant) (d : Delivery) : Delivery :=
  { d with
    status := .pending
    attempts := 0
    nextAttemptAt := now
    leaseExpiresAt := none
    lockedBy := none
    failedAt := none
    deliveredAt := none }

/-- The new version of a requeued row. -/
def requeueRow (now : Instant) (d : Delivery) : Delivery :=
  deliveriesSyncClaimable now (requeueSet now d)

structure RequeueOutcome where
  requeuedIds : List DeliveryId
  skippedInFlight : ℕ
  skippedDelivered : ℕ
deriving DecidableEq, Repr

/-- The `target` CTE. -/
def target (call : RequeueScan) (where_ : Delivery → Bool) (limit : Option ℕ)
    (db : Database) : List Delivery :=
  db.deliveries.lockRows call.locked where_ limit (call.scan.map Delivery.id)

/-- `_REQUEUE_TEMPLATE` with its filter, switch and row cap filled in. -/
def requeue (call : RequeueScan) (where_ : Delivery → Bool) (includeDelivered : Bool)
    (limit : Option ℕ) (db : Database) : Database × RequeueOutcome :=
  let classified := (target call where_ limit db).map fun d =>
    (d.id, classify call.now includeDelivered d)
  let ids := (classified.filter fun c => c.2 == .requeue).map Prod.fst
  (db.updateDeliveries call.now (fun d => decide (d.id ∈ ids)) (requeueSet call.now)
    (fun _ => rfl),
   { requeuedIds := ids
     skippedInFlight := classified.countP fun c => c.2 == .skipInFlight
     skippedDelivered := classified.countP fun c => c.2 == .skipDelivered })

/-! ## The two callers -/

/-- The filter of `requeue_request`: an empty recipients list is no filter. -/
def requestWhere (requestId : RequestId) (recipients : List PgText) (d : Delivery) : Bool :=
  d.requestId == requestId &&
    (recipients.isEmpty || recipients.contains d.recipientUrl ||
      d.recipientName.any fun name => recipients.contains name)

/-- Requeue one lead. `None` when there is no such lead. -/
def requeueRequest (call : RequeueScan) (requestId : RequestId) (recipients : Option (List PyStr))
    (includeDelivered : Bool) (db : Database) :
    Except Raised (Option (Database × RequeueOutcome)) := do
  if (db.requests.get? requestId).isNone then return none
  let named ← (recipients.getD []).mapM textParam
  return some (requeue call (requestWhere requestId named) includeDelivered none db)

/-- `LIKE`: `%` any text, `_` any character, `\` takes the next one literally. -/
def like : PyStr → PyStr → Bool
  | [], s => s.isEmpty
  | p :: ps, s =>
      if p = 0x25 then s.tails.any (like ps)
      else match s with
        | [] => false
        | c :: cs =>
            if p = 0x5c then
              match ps with
              | [] => false
              | q :: qs => q == c && like qs cs
            else (p == 0x5f || p == c) && like ps cs

/-- The filters of `requeue_bulk`. -/
structure BulkFilter where
  statuses : List DeliveryStatus
  recipientOrigin : Option PyStr
  recipientUrlContains : Option PyStr
  receivedAfter : Option Instant
  receivedBefore : Option Instant

/-- A filter that is absent or empty selects everything. -/
def textFilter (value : Option PyStr) (test : PyStr → Bool) : Bool :=
  match value with
  | none => true
  | some s => s.isEmpty || test s

/-- The conjunction `requeue_bulk` builds. -/
def bulkWhere (filter : BulkFilter) (db : Database) (d : Delivery) : Bool :=
  let received (test : Instant → Bool) : Bool :=
    (db.requests.get? d.requestId).any fun r => test r.receivedAt
  filter.statuses.contains d.status &&
  textFilter filter.recipientOrigin (fun s => d.recipientOrigin.str == s) &&
  textFilter filter.recipientUrlContains
    (fun s => like ([0x25] ++ s ++ [0x25]) d.recipientUrl.str) &&
  filter.receivedAfter.all (fun t => received fun r => decide (t ≤ r)) &&
  filter.receivedBefore.all (fun t => received fun r => decide (r ≤ t))

/-- Requeue everything the filter selects; naming `delivered` is the opt-in. -/
def requeueBulk (call : RequeueScan) (filter : BulkFilter) (limit : ℕ) (db : Database) :
    Except Raised (Database × RequeueOutcome) := do
  let _ ← textParam? filter.recipientOrigin
  let _ ← textParam? filter.recipientUrlContains
  return requeue call (bulkWhere filter db) true (some limit) db

/-! ## What a requeue can do -/

theorem classify_eq_requeue_iff {now : Instant} {includeDelivered : Bool} {d : Delivery} :
    classify now includeDelivered d = .requeue ↔
      ¬ (d.status = .inFlight ∧ ∃ lease ∈ d.leaseExpiresAt, now < lease) ∧
      ¬ (d.status = .delivered ∧ includeDelivered = false) := by
  have hlease : d.leaseExpiresAt.any (fun lease => decide (now < lease)) = true ↔
      ∃ lease ∈ d.leaseExpiresAt, now < lease := by
    cases d.leaseExpiresAt <;> simp
  rw [← hlease]
  unfold classify
  split
  · simp_all
  · split <;> simp_all

/-- The rows a requeue resets are latest versions, unlocked, and classified so. -/
theorem mem_requeuedIds {call : RequeueScan} {where_ : Delivery → Bool} {includeDelivered : Bool}
    {limit : Option ℕ} {db : Database} {id : DeliveryId}
    (h : id ∈ (requeue call where_ includeDelivered limit db).2.requeuedIds) :
    ∃ d, db.deliveries.get? id = some d ∧ where_ d = true ∧ call.locked id = false ∧
      classify call.now includeDelivered d = .requeue := by
  obtain ⟨⟨id', action⟩, hc, rfl⟩ := List.mem_map.mp h
  obtain ⟨hmem, haction⟩ := List.mem_filter.mp hc
  obtain ⟨d, hd, heq⟩ := List.mem_map.mp hmem
  obtain ⟨rfl, rfl⟩ := Prod.mk.inj heq
  obtain ⟨hget, _, hlocked, hwhere⟩ := Table.mem_lockRows hd
  exact ⟨d, hget, hwhere, hlocked, by simpa using haction⟩

theorem get?_requeue (call : RequeueScan) (where_ : Delivery → Bool) (includeDelivered : Bool)
    (limit : Option ℕ) (db : Database) (id : DeliveryId) :
    (requeue call where_ includeDelivered limit db).1.deliveries.get? id =
      (db.deliveries.get? id).map fun d =>
        if d.id ∈ (requeue call where_ includeDelivered limit db).2.requeuedIds
          then requeueRow call.now d else d := by
  refine (db.get?_updateDeliveries call.now _ (requeueSet call.now) (fun _ => rfl) id).trans ?_
  simp only [decide_eq_true_eq]
  rfl

theorem requeue_target (call : RequeueScan) (where_ : Delivery → Bool) (includeDelivered : Bool)
    (limit : Option ℕ) (db : Database) (d : Delivery) :
    d.SameTarget (if d.id ∈ (requeue call where_ includeDelivered limit db).2.requeuedIds
      then requeueRow call.now d else d) := by
  split
  · exact ⟨rfl, rfl, rfl, rfl, rfl⟩
  · exact .refl d

@[simp] theorem requests_requeue (call : RequeueScan) (where_ : Delivery → Bool)
    (includeDelivered : Bool) (limit : Option ℕ) (db : Database) :
    (requeue call where_ includeDelivered limit db).1.requests = db.requests := rfl

@[simp] theorem deliveryAttempts_requeue (call : RequeueScan) (where_ : Delivery → Bool)
    (includeDelivered : Bool) (limit : Option ℕ) (db : Database) :
    (requeue call where_ includeDelivered limit db).1.deliveryAttempts = db.deliveryAttempts :=
  rfl

/-- `db'` is `db` with the deliveries `ids` back in the queue: pending, due at
once and with a whole budget. Nothing else has changed. -/
structure ResetsOnly (now : Instant) (ids : List DeliveryId) (db db' : Database) : Prop where
  requests : db'.requests = db.requests
  journal : db'.deliveryAttempts = db.deliveryAttempts
  others : ∀ id, id ∉ ids → db'.deliveries.get? id = db.deliveries.get? id
  reset : ∀ id ∈ ids, ∃ d d', db.deliveries.get? id = some d ∧ db'.deliveries.get? id = some d' ∧
    d'.status = .pending ∧ d'.due now = true ∧ d'.attempts = 0 ∧
    d'.totalAttempts = d.totalAttempts ∧ d.SameTarget d'

theorem requeue_resetsOnly (call : RequeueScan) (where_ : Delivery → Bool)
    (includeDelivered : Bool) (limit : Option ℕ) (db : Database) :
    ResetsOnly call.now (requeue call where_ includeDelivered limit db).2.requeuedIds db
      (requeue call where_ includeDelivered limit db).1 where
  requests := rfl
  journal := rfl
  others id hid := by
    rw [get?_requeue]
    cases hrow : db.deliveries.get? id with
    | none => rfl
    | some d =>
        rw [Option.map_some, if_neg (Table.key_of_get? hrow ▸ hid)]
  reset id hid := by
    obtain ⟨d, hd, _⟩ := mem_requeuedIds hid
    refine ⟨d, requeueRow call.now d, hd, ?_, rfl, ?_, rfl, rfl, rfl, rfl, rfl, rfl, rfl⟩
    · rw [get?_requeue, hd, Option.map_some, if_pos (Table.key_of_get? hd ▸ hid)]
    · exact Delivery.due_iff.mpr ⟨Or.inl rfl, le_rfl⟩

theorem requeueRequest_spec {call : RequeueScan} {requestId : RequestId}
    {recipients : Option (List PyStr)} {includeDelivered : Bool} {db db' : Database}
    {outcome : RequeueOutcome}
    (h : requeueRequest call requestId recipients includeDelivered db = .ok (some (db', outcome))) :
    ∃ named, (recipients.getD []).mapM textParam = .ok named ∧
      (db', outcome) = requeue call (requestWhere requestId named) includeDelivered none db := by
  unfold requeueRequest at h
  split at h
  · cases h
  · obtain ⟨named, hnamed, h⟩ := Fallible.bind_eq_ok_iff.mp h
    exact ⟨named, hnamed, (Option.some.inj (Fallible.pure_eq_ok_iff.mp h)).symm⟩

theorem requeueBulk_spec {call : RequeueScan} {filter : BulkFilter} {limit : ℕ}
    {db db' : Database} {outcome : RequeueOutcome}
    (h : requeueBulk call filter limit db = .ok (db', outcome)) :
    (db', outcome) = requeue call (bulkWhere filter db) true (some limit) db := by
  unfold requeueBulk at h
  obtain ⟨_, _, h⟩ := Fallible.bind_eq_ok_iff.mp h
  obtain ⟨_, _, h⟩ := Fallible.bind_eq_ok_iff.mp h
  exact (Fallible.pure_eq_ok_iff.mp h).symm

end LeadQueue
