import LeadQueue.Library.Fallible
import LeadQueue.Schema
import LeadQueue.Settings
import Mathlib.Data.List.Sort

/-!
# Claiming

`claimBatch` is one transaction: the claim statement, then the journal entries
of the attempts it takes over from expired leases. The statement ranks a
snapshot without locks; only the rows finally chosen are locked, and the
status and due-time conditions are re-checked on their latest version.
-/

namespace LeadQueue

open Relational

/-- A delivery a worker owns until its lease expires. -/
structure ClaimedDelivery where
  deliveryId : DeliveryId
  requestId : RequestId
  recipientName : Option PgText
  recipientUrl : PgText
  recipientOrigin : PgText
  budgetAttempt : ℕ
  attemptNumber : ℕ
  sourceId : PgText
  idempotencyKey : PgText
  receivedAt : Instant
  payload : Jsonb

/-! ## Ranking -/

/-- A row of the `ranked` CTE. -/
structure RankedRow where
  id : DeliveryId
  claimableAt : Instant
  rn : ℕ
deriving DecidableEq

/-- `row_number() OVER (PARTITION BY recipient_origin ORDER BY claimable_at, id)`
of `d` among the due rows: the rows of its origin up to and including itself. -/
def rowNumber (due : List Delivery) (d : Delivery) : ℕ :=
  due.countP fun e => e.recipientOrigin == d.recipientOrigin &&
    (decide (e.claimableAt < d.claimableAt) ||
      (e.claimableAt == d.claimableAt && decide (e.id ≤ d.id)))

/-- The `ranked` CTE, from the due rows in the order the sort left them in: the
numbering sees all of them, `LIMIT` keeps the first `window`. -/
def ranked (scan : List Delivery) (window : ℕ) : List RankedRow :=
  (scan.take window).map fun d => ⟨d.id, d.claimableAt, rowNumber scan d⟩

/-- The arguments of one call, with what the database decides on its own: the
transaction's clock, the snapshot the ranking reads, the order both sorts leave
equal `claimable_at` values in, and the rows other open transactions hold. -/
structure ClaimCall where
  workerId : WorkerId
  limit : ℕ
  now : Instant
  snapshot : Table Delivery.id
  /-- The due rows of the snapshot, `ORDER BY claimable_at`. -/
  scan : List Delivery
  /-- The ranked rows within the cap, `ORDER BY r.claimable_at`. -/
  order : List RankedRow
  locked : DeliveryId → Bool

/-- Rows the ranking looks at. -/
def ClaimCall.window (call : ClaimCall) (settings : Settings) : ℕ :=
  call.limit * settings.claimScanMultiplier

/-- The two orders are ones the `ORDER BY` clauses permit. -/
structure ClaimCall.Valid (settings : Settings) (call : ClaimCall) : Prop where
  scan_perm : call.scan.Perm (call.snapshot.rows.filter (Delivery.due call.now))
  scan_sorted : call.scan.Pairwise (fun d e => d.claimableAt ≤ e.claimableAt)
  order_perm : call.order.Perm ((ranked call.scan (call.window settings)).filter
    fun r => decide (r.rn ≤ settings.maxClaimsPerOrigin))
  order_sorted : call.order.Pairwise (fun r r' => r.claimableAt ≤ r'.claimableAt)

instance ClaimCall.decidableValid (settings : Settings) (call : ClaimCall) :
    Decidable (call.Valid settings) :=
  decidable_of_iff
    (call.scan.Perm (call.snapshot.rows.filter (Delivery.due call.now)) ∧
      call.scan.Pairwise (fun d e => d.claimableAt ≤ e.claimableAt) ∧
      call.order.Perm ((ranked call.scan (call.window settings)).filter
        fun r => decide (r.rn ≤ settings.maxClaimsPerOrigin)) ∧
      call.order.Pairwise (fun r r' => r.claimableAt ≤ r'.claimableAt))
    ⟨fun ⟨a, b, c, d⟩ => ⟨a, b, c, d⟩, fun ⟨a, b, c, d⟩ => ⟨a, b, c, d⟩⟩

/-- A call on the latest state that meets no lock, ties in table order. -/
def ClaimCall.unlocked (settings : Settings) (workerId : WorkerId) (limit : ℕ) (now : Instant)
    (deliveries : Table Delivery.id) : ClaimCall :=
  let scan := (deliveries.rows.filter (Delivery.due now)).insertionSort
    fun d e => d.claimableAt ≤ e.claimableAt
  { workerId := workerId
    limit := limit
    now := now
    snapshot := deliveries
    scan := scan
    order := ((ranked scan (limit * settings.claimScanMultiplier)).filter
      fun r => decide (r.rn ≤ settings.maxClaimsPerOrigin)).insertionSort
        fun r r' => r.claimableAt ≤ r'.claimableAt
    locked := fun _ => false }

/-- The orders a call needs exist in every state. -/
theorem ClaimCall.unlocked_valid (settings : Settings) (workerId : WorkerId) (limit : ℕ)
    (now : Instant) (deliveries : Table Delivery.id) :
    (ClaimCall.unlocked settings workerId limit now deliveries).Valid settings := by
  have htotal : Std.Total (fun d e : Delivery => d.claimableAt ≤ e.claimableAt) :=
    ⟨fun d e => le_total d.claimableAt e.claimableAt⟩
  have htrans : IsTrans Delivery (fun d e => d.claimableAt ≤ e.claimableAt) :=
    ⟨fun _ _ _ => le_trans⟩
  have htotal' : Std.Total (fun r r' : RankedRow => r.claimableAt ≤ r'.claimableAt) :=
    ⟨fun r r' => le_total r.claimableAt r'.claimableAt⟩
  have htrans' : IsTrans RankedRow (fun r r' => r.claimableAt ≤ r'.claimableAt) :=
    ⟨fun _ _ _ => le_trans⟩
  exact ⟨List.perm_insertionSort _ _, List.pairwise_insertionSort _ _,
    List.perm_insertionSort _ _, List.pairwise_insertionSort _ _⟩

/-! ## The claim statement -/

/-- The `picked` CTE: the latest versions of the rows that could be locked and
are still due. -/
def picked (call : ClaimCall) (db : Database) : List Delivery :=
  db.deliveries.lockRows call.locked (Delivery.due call.now) (some call.limit)
    (call.order.map RankedRow.id)

/-- A picked row with its lead. -/
structure ClaimedRow where
  prev : Delivery
  request : Request

/-- `FROM picked p JOIN requests req ON req.id = p.request_id`. -/
def claimedRows (call : ClaimCall) (db : Database) : List ClaimedRow :=
  (picked call db).filterMap fun p => (db.requests.get? p.requestId).map fun req => ⟨p, req⟩

/-- The `SET` of the claim. -/
def claimSet (workerId : WorkerId) (now : Instant) (lease : Duration) (d : Delivery) : Delivery :=
  { d with
    status := .inFlight
    attempts := d.attempts + 1
    totalAttempts := d.totalAttempts + 1
    lastAttemptAt := some now
    leaseExpiresAt := some (now + lease)
    lockedBy := some workerId }

/-- The new version of a claimed row. -/
def claimRow (workerId : WorkerId) (now : Instant) (lease : Duration) (d : Delivery) : Delivery :=
  deliveriesSyncClaimable now (claimSet workerId now lease d)

/-- What the claim returns for a row. -/
def toClaimed (row : ClaimedRow) : ClaimedDelivery where
  deliveryId := row.prev.id
  requestId := row.prev.requestId
  recipientName := row.prev.recipientName
  recipientUrl := row.prev.recipientUrl
  recipientOrigin := row.prev.recipientOrigin
  budgetAttempt := row.prev.attempts + 1
  attemptNumber := row.prev.totalAttempts + 1
  sourceId := row.request.sourceId
  idempotencyKey := row.request.idempotencyKey
  receivedAt := row.request.receivedAt
  payload := row.request.payload

/-! ## Lost attempts -/

/-- Taken over from an expired lease. -/
def reclaimed (d : Delivery) : Bool := d.status == .inFlight && decide (0 < d.totalAttempts)

/-- Milliseconds since the lost attempt started, before the cast to `int`. -/
def lostAgeMs (now startedAt : Instant) : ℚ :=
  max 0 (((now - startedAt : ℤ) : ℚ) / 1000000 * 1000)

/-- The journal entry of an attempt whose worker never reported. `worker_id` is
the id of the worker that runs the statement. -/
def lostAttempt (workerId : WorkerId) (now : Instant) (d : Delivery) : Except Raised Attempt := do
  let startedAt := d.lastAttemptAt.getD now
  let durationMs ← numericToInt4 (lostAgeMs now startedAt)
  return {
    deliveryId := d.id
    requestId := d.requestId
    attemptNumber := d.totalAttempts
    budgetAttempt := d.attempts
    recipientUrl := d.recipientUrl
    startedAt := startedAt
    finishedAt := now
    durationMs := durationMs
    outcome := .unknown
    errorKind := some .leaseExpired
    statusCode := none
    responseExcerpt := none
    scheduledNextAt := none
    workerId := workerId }

/-! ## The transaction -/

/-- Take up to `limit` due deliveries. -/
def claimBatch (settings : Settings) (call : ClaimCall) (db : Database) :
    Except Raised (Database × List ClaimedDelivery) := do
  if call.limit = 0 then return (db, [])
  let lease ← timedelta settings.leaseSeconds
  let rows := claimedRows call db
  if rows.isEmpty then return (db, [])
  let ids := rows.map fun row => row.prev.id
  let db' := db.updateDeliveries call.now (fun d => decide (d.id ∈ ids))
    (claimSet call.workerId call.now lease) (fun _ => rfl)
  -- an error in the journal insert takes the claim back as well
  let lost ← ((rows.map ClaimedRow.prev).filter reclaimed).mapM
    (lostAttempt call.workerId call.now)
  return ({ db' with deliveryAttempts := db'.deliveryAttempts.insertAllIgnore lost },
    rows.map toClaimed)

/-! ## What a claim can do -/

theorem mem_picked {call : ClaimCall} {db : Database} {d : Delivery} (h : d ∈ picked call db) :
    db.deliveries.get? d.id = some d ∧ d.id ∈ call.order.map RankedRow.id ∧
      call.locked d.id = false ∧ d.due call.now = true :=
  Table.mem_lockRows h

theorem mem_claimedRows {call : ClaimCall} {db : Database} {row : ClaimedRow} :
    row ∈ claimedRows call db ↔
      row.prev ∈ picked call db ∧ db.requests.get? row.prev.requestId = some row.request := by
  obtain ⟨prev, request⟩ := row
  simp only [claimedRows, List.mem_filterMap, Option.map_eq_some_iff, ClaimedRow.mk.injEq]
  constructor
  · rintro ⟨p, hp, req, hreq, rfl, rfl⟩
    exact ⟨hp, hreq⟩
  · rintro ⟨hp, hreq⟩
    exact ⟨prev, hp, request, hreq, rfl, rfl⟩

theorem map_filterMap_of_forall {α β : Type} {f : α → Option β} {g : β → α} {xs : List α}
    (h : ∀ x ∈ xs, ∃ y, f x = some y ∧ g y = x) : (xs.filterMap f).map g = xs := by
  induction xs with
  | nil => rfl
  | cons x xs ih =>
      obtain ⟨y, hy, hg⟩ := h x List.mem_cons_self
      rw [List.filterMap_cons_some hy, List.map_cons, hg,
        ih fun x' hx' => h x' (List.mem_cons_of_mem _ hx')]

/-- The join with the leads drops nothing that has a lead. -/
theorem map_prev_claimedRows {call : ClaimCall} {db : Database}
    (h : ∀ p ∈ picked call db, ∃ lead, db.requests.get? p.requestId = some lead) :
    (claimedRows call db).map ClaimedRow.prev = picked call db := by
  apply map_filterMap_of_forall
  intro p hp
  obtain ⟨lead, hlead⟩ := h p hp
  exact ⟨⟨p, lead⟩, by rw [hlead]; rfl, rfl⟩

/-- The ids in a valid call's order are distinct. -/
theorem ClaimCall.Valid.order_nodup {settings : Settings} {call : ClaimCall}
    (h : call.Valid settings) : (call.order.map RankedRow.id).Nodup := by
  have hrows : (call.snapshot.rows.filter (Delivery.due call.now)).map Delivery.id |>.Nodup :=
    call.snapshot.nodup.sublist (List.filter_sublist.map _)
  have hscan : (call.scan.map Delivery.id).Nodup :=
    (h.scan_perm.map Delivery.id).nodup_iff.mpr hrows
  have hranked : ((ranked call.scan (call.window settings)).map RankedRow.id).Nodup := by
    have hmap : (ranked call.scan (call.window settings)).map RankedRow.id =
        (call.scan.take (call.window settings)).map Delivery.id := by
      simp [ranked, Function.comp_def]
    rw [hmap]
    exact hscan.sublist ((List.take_sublist _ _).map _)
  exact (h.order_perm.map RankedRow.id).nodup_iff.mpr
    (hranked.sublist (List.filter_sublist.map _))

/-- No delivery is handed out twice by one call. -/
theorem claimedRows_nodup {settings : Settings} {call : ClaimCall} (h : call.Valid settings)
    (db : Database) : ((claimedRows call db).map fun row => row.prev.id).Nodup := by
  have hpicked : ((picked call db).map Delivery.id).Nodup :=
    h.order_nodup.sublist (Table.lockRows_keys_sublist _ _ _ _ _)
  have hsub : ((claimedRows call db).map ClaimedRow.prev).Sublist (picked call db) :=
    join_sublist _ _ _ (fun _ _ => rfl) _
  simpa [Function.comp_def] using hpicked.sublist (hsub.map Delivery.id)

/-- Everything a committed claim does, with no case for the empty batch. -/
structure Claimed (settings : Settings) (call : ClaimCall) (db db' : Database)
    (claimed : List ClaimedDelivery) (lost : List Attempt) : Prop where
  returned : claimed = (claimedRows call db).map toClaimed
  requests : db'.requests = db.requests
  deliveries : ∀ id, db'.deliveries.get? id = (db.deliveries.get? id).map fun d =>
    if d.id ∈ (claimedRows call db).map (fun row => row.prev.id)
      then claimRow call.workerId call.now settings.lease d else d
  lost_entries : (((claimedRows call db).map ClaimedRow.prev).filter reclaimed).mapM
    (lostAttempt call.workerId call.now) = .ok lost
  journal : ∀ k, db'.deliveryAttempts.get? k =
    (db.deliveryAttempts.get? k).or (lost.find? fun a => a.key = k)

theorem claimBatch_spec {settings : Settings} {call : ClaimCall} {db db' : Database}
    {claimed : List ClaimedDelivery} (h : claimBatch settings call db = .ok (db', claimed)) :
    ∃ lost, Claimed settings call db db' claimed lost := by
  have hempty : claimedRows call db = [] → db' = db → claimed = [] →
      ∃ lost, Claimed settings call db db' claimed lost := by
    rintro hrows rfl rfl
    exact ⟨[], by simp [hrows], rfl, by simp [hrows], by simp [hrows, pure, Except.pure],
      by simp⟩
  unfold claimBatch at h
  split at h
  · rename_i hlimit
    cases h
    exact hempty (by simp [claimedRows, picked, Table.lockRows, hlimit]) rfl rfl
  · simp only [bind_pure_comp] at h
    obtain ⟨lease, hlease, h⟩ := Fallible.bind_eq_ok_iff.mp h
    obtain rfl := eq_micros_of_timedelta hlease
    split at h
    · rename_i hrows
      cases h
      exact hempty (List.isEmpty_iff.mp hrows) rfl rfl
    · obtain ⟨lost, hlost, h⟩ := Fallible.map_eq_ok_iff.mp h
      cases h
      refine ⟨lost, rfl, rfl, ?_, hlost, fun k => Table.get?_insertAllIgnore _ _ _⟩
      intro id
      refine (db.get?_updateDeliveries call.now _ (claimSet call.workerId call.now _)
        (fun _ => rfl) id).trans ?_
      simp only [decide_eq_true_eq]
      rfl

end LeadQueue
