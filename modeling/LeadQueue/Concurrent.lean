import LeadQueue.Intake
import LeadQueue.Library.RowLocks
import LeadQueue.Queue.Record
import LeadQueue.Queue.Requeue

/-!
# Overlapping transactions

The statements of the queue as operations on locked rows: what each re-checks
under the lock and what it leaves in a row. The second half compares a commit
with the function of the queue that models the whole transaction at once.
-/

namespace LeadQueue

open Relational Transition RowLocks

inductive QueueOp where
  | claim (workerId : WorkerId) (limit : ℕ) (now : Instant)
  | success (id : DeliveryId) (result : AttemptResult) (now : Instant)
  | failure (id : DeliveryId) (workerId : WorkerId) (result : AttemptResult)
      (lastError : Option PgText) (exhausted : Bool) (delay : Duration) (now : Instant)
  | requeue (where_ : Delivery → Bool) (includeDelivered : Bool) (limit : Option ℕ)
      (now : Instant)

namespace QueueOp

/-- `now()` of the transaction. -/
def now : QueueOp → Instant
  | claim _ _ now | success _ _ now | failure _ _ _ _ _ _ now | requeue _ _ _ now => now

/-- The `WHERE` on the rows the statement locks. -/
def cond : QueueOp → Delivery → Bool
  | claim _ _ now => Delivery.due now
  | success id _ _ => undelivered id
  | failure id workerId _ _ _ _ _ => heldBy id workerId
  | requeue where_ _ _ _ => where_

/-- The new version of a locked row. -/
def effect (settings : Settings) : QueueOp → Delivery → Option Delivery
  | claim workerId _ now, d => some (claimRow workerId now settings.lease d)
  | success _ result now, d => some (deliveredRow result now d)
  | failure _ _ result lastError exhausted delay now, d =>
      some (failedRow result lastError exhausted delay now d)
  | requeue _ includeDelivered _ now, d =>
      if classify now includeDelivered d = .requeue then some (requeueRow now d) else none

/-- The candidates of a statement, from its snapshot: a claim ranks, a requeue
sorts, an update goes by its condition. -/
inductive Plans (settings : Settings) : QueueOp → Table Delivery.id → List DeliveryId → Prop where
  | claim {workerId : WorkerId} {call : ClaimCall} :
      call.Valid settings →
      Plans settings (.claim workerId call.limit call.now) call.snapshot
        (call.order.map RankedRow.id)
  | success {id : DeliveryId} {result : AttemptResult} {now : Instant} {t : Table Delivery.id} :
      Plans settings (.success id result now) t ((t.rows.filter (undelivered id)).map Delivery.id)
  | failure {id : DeliveryId} {workerId : WorkerId} {result : AttemptResult}
      {lastError : Option PgText} {exhausted : Bool} {delay : Duration} {now : Instant}
      {t : Table Delivery.id} :
      Plans settings (.failure id workerId result lastError exhausted delay now) t
        ((t.rows.filter (heldBy id workerId)).map Delivery.id)
  | requeue {where_ : Delivery → Bool} {includeDelivered : Bool} {limit : Option ℕ}
      {call : RequeueScan} :
      call.Valid where_ →
      Plans settings (.requeue where_ includeDelivered limit call.now) call.snapshot
        (call.scan.map Delivery.id)

theorem Plans.nodup {settings : Settings} {op : QueueOp} {t : Table Delivery.id}
    {plan : List DeliveryId} (h : Plans settings op t plan) : plan.Nodup := by
  cases h with
  | claim hvalid => exact hvalid.order_nodup
  | success => exact t.nodup.sublist (List.filter_sublist.map _)
  | failure => exact t.nodup.sublist (List.filter_sublist.map _)
  | @requeue _ _ _ call hvalid =>
      exact (hvalid.scan_perm.map Delivery.id).nodup_iff.mpr
        (call.snapshot.nodup.sublist (List.filter_sublist.map _))

/-- Rows to take at most. -/
def cap : QueueOp → Option ℕ
  | claim _ limit _ => some limit
  | requeue _ _ limit _ => limit
  | _ => none

/-- `SKIP LOCKED`. -/
def skipsLocked : QueueOp → Bool
  | claim .. | requeue .. => true
  | _ => false

end QueueOp

/-- The queue's operations under row locks; intake adds rows. -/
def queueLocks (settings : Settings) : Discipline Delivery.id QueueOp where
  fresh d := ∃ now requestId id r, d = newDelivery now requestId id r
  plans := QueueOp.Plans settings
  plans_nodup := QueueOp.Plans.nodup
  limit := QueueOp.cap
  skips := QueueOp.skipsLocked
  recheck := QueueOp.cond
  change := QueueOp.effect settings
  key_change := by
    intro op d d' h
    cases op with
    | requeue where_ includeDelivered limit now =>
        simp only [QueueOp.effect] at h
        split at h
        · cases h
          rfl
        · cases h
    | _ =>
        cases h
        rfl

/-! ## A commit and the transaction as a whole -/

section Commit

variable {settings : Settings} {tx : Tx Delivery DeliveryId QueueOp} {db : Database}

/-- The table a commit of `tx` leaves. -/
def committedBy (settings : Settings) (committed : Table Delivery.id)
    (tx : Tx Delivery DeliveryId QueueOp) : Table Delivery.id :=
  committed.update ((queueLocks settings).rewrite tx.op tx.taken)
    ((queueLocks settings).key_rewrite tx.op tx.taken)

/-- What a commit leaves in a row, as a choice between the two versions. -/
theorem get?_committedBy {committed : Table Delivery.id}
    (h : tx.Sound (queueLocks settings) committed) (id : DeliveryId) :
    (committedBy settings committed tx).get? id = (committed.get? id).map fun d =>
      if id ∈ tx.taken.map Delivery.id then (tx.op.effect settings d).getD d else d :=
  get?_commit h id

/-- A claim that locked its rows one by one took what `claimBatch` picks from
the state at its commit, with the rows it passed over counted as locked. -/
theorem taken_eq_picked {call : ClaimCall} (h : tx.Sound (queueLocks settings) db.deliveries)
    (hop : tx.op = .claim call.workerId call.limit call.now)
    (hplan : call.order.map RankedRow.id = tx.plan)
    (hlocked : call.locked = fun id => decide (id ∉ tx.taken.map Delivery.id)) :
    picked call db = tx.taken := by
  have hrows := h.taken_eq_lockRows
  rw [← hplan, ← hlocked, hop] at hrows
  exact hrows

theorem commit_claim {call : ClaimCall} {db' : Database} {claimed : List ClaimedDelivery}
    (h : tx.Sound (queueLocks settings) db.deliveries)
    (hop : tx.op = .claim call.workerId call.limit call.now)
    (hplan : call.order.map RankedRow.id = tx.plan)
    (hlocked : call.locked = fun id => decide (id ∉ tx.taken.map Delivery.id))
    (hleads : ∀ d ∈ tx.taken, ∃ lead, db.requests.get? d.requestId = some lead)
    (hclaim : claimBatch settings call db = .ok (db', claimed)) :
    claimed.map ClaimedDelivery.deliveryId = tx.taken.map Delivery.id ∧
      ∀ id, db'.deliveries.get? id = (committedBy settings db.deliveries tx).get? id := by
  obtain ⟨lost, hspec⟩ := claimBatch_spec hclaim
  have hpicked := taken_eq_picked h hop hplan hlocked
  have hprev := map_prev_claimedRows (hpicked.symm ▸ hleads)
  rw [hpicked] at hprev
  have hids : (claimedRows call db).map (fun row => row.prev.id) = tx.taken.map Delivery.id := by
    rw [← hprev, List.map_map]
    rfl
  refine ⟨?_, fun id => ?_⟩
  · rw [hspec.returned, List.map_map, ← hids]
    rfl
  · rw [hspec.deliveries, get?_committedBy h, hids, hop]
    cases hget : db.deliveries.get? id with
    | none => rfl
    | some d =>
        rw [Option.map_some, Option.map_some, Table.key_of_get? hget]
        rfl

/-- An update by id that has its row leaves what the update of the whole table
leaves: no other row meets its condition. -/
theorem commit_update {id₀ : DeliveryId} (h : tx.Sound (queueLocks settings) db.deliveries)
    (honly : ∀ d, tx.op.cond d = true → d.id = id₀) (htaken : tx.taken ≠ []) (id : DeliveryId) :
    (committedBy settings db.deliveries tx).get? id = (db.deliveries.get? id).map fun d =>
      if tx.op.cond d then (tx.op.effect settings d).getD d else d := by
  obtain ⟨v, hv⟩ := List.exists_mem_of_ne_nil _ htaken
  have hcur := h.current v hv
  have hcond : tx.op.cond v = true := h.checked v hv
  have hid : v.id = id₀ := honly v hcond
  rw [get?_committedBy h]
  cases hget : db.deliveries.get? id with
  | none => rfl
  | some d =>
      have hdid : d.id = id := Table.key_of_get? hget
      simp only [Option.map_some, Option.some.injEq]
      by_cases hsame : id = id₀
      · obtain rfl : v = d := by
          rw [hid, ← hsame, hget] at hcur
          exact (Option.some.inj hcur).symm
        have hmem : id ∈ tx.taken.map Delivery.id := List.mem_map.mpr ⟨v, hv, hdid⟩
        rw [if_pos hmem, if_pos hcond]
      · have hmem : id ∉ tx.taken.map Delivery.id := by
          intro hmem
          obtain ⟨w, hw, hwid⟩ := List.mem_map.mp hmem
          exact hsame (hwid.symm.trans (honly w (h.checked w hw)))
        have hother : tx.op.cond d ≠ true := fun hd => hsame (hdid.symm.trans (honly d hd))
        rw [if_neg hmem, if_neg hother]

/-- A requeue that locked its rows one by one took its target at the commit. -/
theorem taken_eq_target {call : RequeueScan} {where_ : Delivery → Bool} {includeDelivered : Bool}
    {limit : Option ℕ} (h : tx.Sound (queueLocks settings) db.deliveries)
    (hop : tx.op = .requeue where_ includeDelivered limit call.now)
    (hplan : call.scan.map Delivery.id = tx.plan)
    (hlocked : call.locked = fun id => decide (id ∉ tx.taken.map Delivery.id)) :
    target call where_ limit db = tx.taken := by
  have hrows := h.taken_eq_lockRows
  rw [← hplan, ← hlocked, hop] at hrows
  exact hrows

theorem mem_requeuedIds_iff {call : RequeueScan} {where_ : Delivery → Bool}
    {includeDelivered : Bool} {limit : Option ℕ} {id : DeliveryId} {d : Delivery}
    (h : tx.Sound (queueLocks settings) db.deliveries)
    (htarget : target call where_ limit db = tx.taken) (hget : db.deliveries.get? id = some d) :
    id ∈ (requeue call where_ includeDelivered limit db).2.requeuedIds ↔
      id ∈ tx.taken.map Delivery.id ∧ classify call.now includeDelivered d = .requeue := by
  have hsame : ∀ v ∈ tx.taken, v.id = id → v = d := by
    intro v hv hvid
    have hcur := h.current v hv
    rw [hvid, hget] at hcur
    exact (Option.some.inj hcur).symm
  simp only [requeue, htarget, List.mem_map, List.mem_filter, beq_iff_eq]
  constructor
  · rintro ⟨_, ⟨⟨v, hv, rfl⟩, hclass⟩, hvid⟩
    obtain rfl := hsame v hv hvid
    exact ⟨⟨v, hv, hvid⟩, hclass⟩
  · rintro ⟨⟨v, hv, hvid⟩, hclass⟩
    obtain rfl := hsame v hv hvid
    exact ⟨_, ⟨⟨v, hv, rfl⟩, hclass⟩, hvid⟩

theorem commit_requeue {call : RequeueScan} {where_ : Delivery → Bool} {includeDelivered : Bool}
    {limit : Option ℕ} (h : tx.Sound (queueLocks settings) db.deliveries)
    (hop : tx.op = .requeue where_ includeDelivered limit call.now)
    (hplan : call.scan.map Delivery.id = tx.plan)
    (hlocked : call.locked = fun id => decide (id ∉ tx.taken.map Delivery.id)) (id : DeliveryId) :
    (requeue call where_ includeDelivered limit db).1.deliveries.get? id =
      (committedBy settings db.deliveries tx).get? id := by
  have htarget := taken_eq_target h hop hplan hlocked
  rw [get?_requeue, get?_committedBy h]
  cases hget : db.deliveries.get? id with
  | none => rfl
  | some d =>
      have hdid : d.id = id := Table.key_of_get? hget
      simp only [Option.map_some, Option.some.injEq, hdid,
        mem_requeuedIds_iff h htarget hget, hop, QueueOp.effect]
      by_cases hmem : id ∈ tx.taken.map Delivery.id
      · by_cases hclass : classify call.now includeDelivered d = .requeue <;> simp [hmem, hclass]
      · simp [hmem]

end Commit

end LeadQueue
