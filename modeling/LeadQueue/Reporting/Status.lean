import LeadQueue.Reporting
import LeadQueue.Settings
import Mathlib.Data.List.Sort
import Mathlib.Data.Prod.Lex

/-!
# The status page of a lead

Three queries in one snapshot: the lead, its deliveries, and their journal. The
page groups the journal by delivery. The order of equal `created_at` values is
that of the URLs in the database's collation and is left open.
-/

namespace LeadQueue

open Relational

/-- A line of `attempt_log`. -/
structure AttemptOut where
  attemptNumber : ℕ
  budgetAttempt : ℕ
  startedAt : Instant
  finishedAt : Instant
  durationMs : Int4
  outcome : AttemptOutcome
  errorKind : Option ErrorKind
  statusCode : Option ℕ
  responseExcerpt : Option PgText
  scheduledNextAt : Option Instant
  workerId : WorkerId
deriving DecidableEq

def Attempt.out (a : Attempt) : AttemptOut where
  attemptNumber := a.attemptNumber
  budgetAttempt := a.budgetAttempt
  startedAt := a.startedAt
  finishedAt := a.finishedAt
  durationMs := a.durationMs
  outcome := a.outcome
  errorKind := a.errorKind
  statusCode := a.statusCode
  responseExcerpt := a.responseExcerpt
  scheduledNextAt := a.scheduledNextAt
  workerId := a.workerId

structure DeliveryOut where
  deliveryId : DeliveryId
  recipientName : Option PgText
  recipientUrl : PgText
  status : DeliveryStatus
  attempts : ℕ
  totalAttempts : ℕ
  maxAttempts : ℕ
  nextAttemptAt : Option Instant
  lastAttemptAt : Option Instant
  lastOutcome : Option AttemptOutcome
  lastErrorKind : Option ErrorKind
  lastStatusCode : Option ℕ
  lastError : Option PgText
  deliveredAt : Option Instant
  failedAt : Option Instant
  attemptLog : List AttemptOut

structure RequestStatus where
  requestId : RequestId
  sourceId : PgText
  idempotencyKey : PgText
  receivedAt : Instant
  state : RequestState
  payload : Jsonb
  recipients : List DeliveryOut

/-! ## Grouping -/

/-- `groups.setdefault(key, []).append(value)` for each row in turn; a missing
key reads as the empty list. -/
def setdefaultAppend {α β κ : Type} [DecidableEq κ] (key : α → κ) (value : α → β)
    (rows : List α) : κ → List β :=
  rows.foldl (fun groups row k => if key row = k then groups k ++ [value row] else groups k)
    fun _ => []

/-- The group of a key, in the order of the rows. -/
theorem setdefaultAppend_eq {α β κ : Type} [DecidableEq κ] (key : α → κ) (value : α → β)
    (rows : List α) (k : κ) :
    setdefaultAppend key value rows k = (rows.filter fun row => key row = k).map value := by
  suffices hfold : ∀ groups : κ → List β,
      rows.foldl (fun groups row k => if key row = k then groups k ++ [value row] else groups k)
        groups k = groups k ++ (rows.filter fun row => key row = k).map value from
    hfold fun _ => []
  induction rows with
  | nil => exact fun groups => (List.append_nil _).symm
  | cons row rows ih =>
      intro groups
      rw [List.foldl_cons, ih]
      by_cases hkey : key row = k
      · rw [if_pos hkey, List.filter_cons, if_pos (decide_eq_true hkey), List.map_cons,
          List.append_assoc, List.singleton_append]
      · rw [if_neg hkey, List.filter_cons, if_neg (by simpa using hkey)]

/-- Groups under distinct keys that leave nothing out are the rows. -/
theorem flatMap_filter_perm {α κ : Type} [DecidableEq κ] {key : α → κ} {keys : List κ}
    {rows : List α} (hnodup : keys.Nodup) (hall : ∀ row ∈ rows, key row ∈ keys) :
    (keys.flatMap fun k => rows.filter fun row => key row = k).Perm rows := by
  induction keys generalizing rows with
  | nil =>
      cases rows with
      | nil => exact .refl _
      | cons row rows => exact absurd (hall row List.mem_cons_self) List.not_mem_nil
  | cons k ks ih =>
      obtain ⟨hk, hks⟩ := List.nodup_cons.mp hnodup
      rw [List.flatMap_cons]
      -- the other groups do not see the rows of `k`
      have hrest : (ks.flatMap fun k' => rows.filter fun row => key row = k') =
          ks.flatMap fun k' => (rows.filter fun row => !decide (key row = k)).filter
            fun row => key row = k' := by
        refine List.flatMap_congr fun k' hk' => ?_
        rw [List.filter_filter]
        refine List.filter_congr fun row _ => ?_
        by_cases hrow : key row = k'
        · have hne : key row ≠ k := fun heq => hk (heq.symm.trans hrow ▸ hk')
          simp [hrow, hrow ▸ hne]
        · simp [hrow]
      rw [hrest]
      refine .trans (.append_left _ (ih hks fun row hrow => ?_)) (List.filter_append_perm _ _)
      obtain ⟨hrow, hne⟩ := List.mem_filter.mp hrow
      exact (List.mem_cons.mp (hall row hrow)).resolve_left (by simpa using hne)

/-! ## The page -/

/-- A row and its part of the journal. -/
def Delivery.out (settings : Settings) (log : List AttemptOut) (d : Delivery) : DeliveryOut where
  deliveryId := d.id
  recipientName := d.recipientName
  recipientUrl := d.recipientUrl
  status := d.status
  attempts := d.attempts
  totalAttempts := d.totalAttempts
  maxAttempts := settings.retryMaxAttempts
  -- only meaningful while the delivery is still going somewhere
  nextAttemptAt := if d.unresolved then some d.nextAttemptAt else none
  lastAttemptAt := d.lastAttemptAt
  lastOutcome := d.lastOutcome
  lastErrorKind := d.lastErrorKind
  lastStatusCode := d.lastStatusCode
  lastError := d.lastError
  deliveredAt := d.deliveredAt
  failedAt := d.failedAt
  attemptLog := log

/-- What the second and the third query return. -/
structure StatusScan where
  deliveries : List Delivery
  attempts : List Attempt

/-- `ORDER BY delivery_id, attempt_number`. -/
def Attempt.sortKey (a : Attempt) : ℕ ×ₗ ℕ := toLex (a.deliveryId.toNat, a.attemptNumber)

/-- The rows of the lead in a snapshot, in an order that the two `ORDER BY`
clauses permit. -/
structure StatusScan.Valid (scan : StatusScan) (requestId : RequestId) (db : Database) : Prop where
  deliveries_perm : scan.deliveries.Perm (db.deliveriesOf requestId)
  deliveries_sorted : scan.deliveries.Pairwise fun d e => d.createdAt ≤ e.createdAt
  attempts_perm : scan.attempts.Perm
    (db.deliveryAttempts.rows.filter fun a => a.requestId == requestId)
  attempts_sorted : scan.attempts.Pairwise fun a b => a.sortKey ≤ b.sortKey

/-- The page of a lead from what the queries return. -/
def requestStatus (settings : Settings) (request : Request) (scan : StatusScan) : RequestStatus :=
  let attemptsByDelivery := setdefaultAppend Attempt.deliveryId Attempt.out scan.attempts
  let deliveries := scan.deliveries.map fun d => d.out settings (attemptsByDelivery d.id)
  { requestId := request.id
    sourceId := request.sourceId
    idempotencyKey := request.idempotencyKey
    receivedAt := request.receivedAt
    state := requestState (deliveries.map DeliveryOut.status)
    payload := request.payload
    recipients := deliveries }

/-- `get_request_status`: `none` is answered with 404. -/
def getRequestStatus (settings : Settings) (requestId : RequestId) (scan : StatusScan)
    (db : Database) : Option RequestStatus :=
  (db.requests.get? requestId).map fun request => requestStatus settings request scan

/-- The scan in table order, where equal `created_at` values are concerned. -/
def StatusScan.inOrder (requestId : RequestId) (db : Database) : StatusScan where
  deliveries := (db.deliveriesOf requestId).insertionSort fun d e => d.createdAt ≤ e.createdAt
  attempts := (db.deliveryAttempts.rows.filter fun a => a.requestId == requestId).insertionSort
    fun a b => a.sortKey ≤ b.sortKey

theorem StatusScan.inOrder_valid (requestId : RequestId) (db : Database) :
    (StatusScan.inOrder requestId db).Valid requestId db := by
  have htotal : Std.Total (fun d e : Delivery => d.createdAt ≤ e.createdAt) :=
    ⟨fun d e => le_total d.createdAt e.createdAt⟩
  have htrans : IsTrans Delivery (fun d e => d.createdAt ≤ e.createdAt) := ⟨fun _ _ _ => le_trans⟩
  have htotal' : Std.Total (fun a b : Attempt => a.sortKey ≤ b.sortKey) :=
    ⟨fun a b => le_total a.sortKey b.sortKey⟩
  have htrans' : IsTrans Attempt (fun a b => a.sortKey ≤ b.sortKey) := ⟨fun _ _ _ => le_trans⟩
  exact ⟨List.perm_insertionSort _ _, List.pairwise_insertionSort _ _,
    List.perm_insertionSort _ _, List.pairwise_insertionSort _ _⟩

/-! ## What stands on it -/

section Page

variable {settings : Settings} {requestId : RequestId} {request : Request} {scan : StatusScan}
  {db : Database}

theorem mem_recipients {out : DeliveryOut} :
    out ∈ (requestStatus settings request scan).recipients ↔ ∃ d ∈ scan.deliveries,
      out = d.out settings
        ((scan.attempts.filter fun a => a.deliveryId = d.id).map Attempt.out) := by
  simp only [requestStatus, setdefaultAppend_eq, List.mem_map, eq_comm]

theorem state_requestStatus (h : scan.Valid requestId db) :
    (requestStatus settings request scan).state = db.leadState requestId := by
  have hmap : (requestStatus settings request scan).state =
      requestState (scan.deliveries.map Delivery.status) := by
    simp [requestStatus, Function.comp_def, Delivery.out]
  rw [hmap]
  exact requestState_perm (h.deliveries_perm.map _)

theorem recipients_ids (h : scan.Valid requestId db) :
    ((requestStatus settings request scan).recipients.map DeliveryOut.deliveryId).Perm
      ((db.deliveriesOf requestId).map Delivery.id) := by
  have hmap : (requestStatus settings request scan).recipients.map DeliveryOut.deliveryId =
      scan.deliveries.map Delivery.id := by
    simp [requestStatus, Function.comp_def, Delivery.out]
  rw [hmap]
  exact h.deliveries_perm.map _

/-- A log is in the order of the attempts, each number once. -/
theorem log_sorted (h : scan.Valid requestId db) (id : DeliveryId) :
    ((scan.attempts.filter fun a => a.deliveryId = id).map Attempt.attemptNumber).Pairwise
      (· < ·) := by
  have hkeys : (scan.attempts.map Attempt.key).Nodup := by
    refine (h.attempts_perm.map Attempt.key).nodup_iff.mpr ?_
    exact db.deliveryAttempts.nodup.sublist (List.filter_sublist.map _)
  rw [List.pairwise_map]
  have hboth : scan.attempts.Pairwise fun a b => a.sortKey ≤ b.sortKey ∧ a.key ≠ b.key :=
    h.attempts_sorted.and (List.pairwise_map.mp hkeys)
  refine (hboth.filter _).imp_of_mem fun {a b} ha hb hab => ?_
  have hid : a.deliveryId = b.deliveryId :=
    (of_decide_eq_true (List.mem_filter.mp ha).2).trans
      (of_decide_eq_true (List.mem_filter.mp hb).2).symm
  have hle : a.attemptNumber ≤ b.attemptNumber := by
    have hsort := Prod.Lex.toLex_le_toLex.mp hab.1
    rw [hid] at hsort
    simpa using hsort
  exact lt_of_le_of_ne hle fun hn => hab.2 (Prod.ext hid hn)

theorem mem_scan_attempts (h : scan.Valid requestId db) {a : Attempt} :
    a ∈ scan.attempts ↔ a ∈ db.deliveryAttempts.rows ∧ a.requestId = requestId := by
  rw [h.attempts_perm.mem_iff, List.mem_filter, beq_iff_eq]

/-- The logs together are the lead's journal, if every entry has its delivery on
the page. -/
theorem logs_perm (h : scan.Valid requestId db)
    (hall : ∀ a ∈ scan.attempts, a.deliveryId ∈ scan.deliveries.map Delivery.id) :
    ((requestStatus settings request scan).recipients.flatMap DeliveryOut.attemptLog).Perm
      ((db.deliveryAttempts.rows.filter fun a => a.requestId == requestId).map Attempt.out) := by
  have hnodup : (scan.deliveries.map Delivery.id).Nodup := by
    refine (h.deliveries_perm.map Delivery.id).nodup_iff.mpr ?_
    exact db.deliveries.nodup.sublist (List.filter_sublist.map _)
  have hlogs : (requestStatus settings request scan).recipients.flatMap DeliveryOut.attemptLog =
      ((scan.deliveries.map Delivery.id).flatMap fun id =>
        scan.attempts.filter fun a => a.deliveryId = id).map Attempt.out := by
    simp only [requestStatus, setdefaultAppend_eq, List.flatMap_map, List.map_flatMap]
    rfl
  rw [hlogs]
  exact ((flatMap_filter_perm hnodup hall).trans h.attempts_perm).map _

end Page

end LeadQueue
