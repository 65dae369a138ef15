import LeadQueue.Sessions.Invariant

/-!
# A commit as a transaction of the service

Each call, at its commit, does what the function of the queue that models the
whole transaction does on the committed state, with the rows it passed over
counted as locked. A record that found no row does so at the moment it looked.
-/

namespace LeadQueue

open Relational Transition RowLocks

/-! ## The four functions, with their effect in full -/

section Effect

variable {settings : Settings}

/-- A claim that can be journalled commits. -/
theorem exists_claimBatch {call : ClaimCall} {db : Database}
    (hlease : ∃ lease, timedelta settings.leaseSeconds = .ok lease)
    (hlost : ∃ lost, (((claimedRows call db).map ClaimedRow.prev).filter reclaimed).mapM
      (lostAttempt call.workerId call.now) = .ok lost) :
    ∃ db' claimed, claimBatch settings call db = .ok (db', claimed) ∧
      ∃ f hf, db'.deliveries = db.deliveries.update f hf := by
  obtain ⟨lease, hlease⟩ := hlease
  obtain ⟨lost, hlost⟩ := hlost
  have hsame : ∃ f hf, db.deliveries = db.deliveries.update f hf :=
    ⟨id, fun _ => rfl, (Table.update_eq_self fun _ _ => rfl).symm⟩
  unfold claimBatch
  split
  · exact ⟨db, [], rfl, hsame⟩
  · simp only [hlease, bind, Except.bind]
    split
    · exact ⟨db, [], rfl, hsame⟩
    · rw [hlost]
      exact ⟨_, _, rfl, _, fun d => by split <;> rfl, rfl⟩

/-- An update by condition, row by row. -/
def QueueOp.run (settings : Settings) (op : QueueOp) (d : Delivery) : Delivery :=
  if op.cond d then (op.effect settings d).getD d else d

theorem QueueOp.id_run (settings : Settings) (op : QueueOp) (d : Delivery) :
    (op.run settings d).id = d.id := by
  unfold QueueOp.run
  split
  · exact (op.newVersion_cases settings d).1.id
  · rfl

/-- The failure branch, from the row its update finds and returns. -/
theorem recordFailure_eq {r : Recording} {lastError : Option PgText} {exhausted : Bool}
    {delay : Duration} {taken : List Delivery} {db : Database} (hs : r.result.succeeded = false)
    (hop : r.op settings = .ok (.failure r.claim.delivery.deliveryId r.claim.workerId r.result
      lastError exhausted delay r.now))
    (htaken : (db.deliveries.get? r.claim.delivery.deliveryId).filter
      (heldBy r.claim.delivery.deliveryId r.claim.workerId) = taken.head?) :
    recordFailure settings r.claim.workerId r.claim.delivery r.result
        (truncate r.result.responseExcerpt settings.responseExcerptBytes) r.draw r.now db =
      .ok (db.updateDeliveries r.now (heldBy r.claim.delivery.deliveryId r.claim.workerId)
          (markFailure r.result lastError exhausted delay r.now) (fun _ => rfl),
        QueueCall.scheduledNextAt settings (.failure r.claim.delivery.deliveryId
          r.claim.workerId r.result lastError exhausted delay r.now) taken) := by
  obtain ⟨seconds, delay', lastError', hseconds, hdelay, hlast, heq⟩ := r.op_failure hs hop
  obtain ⟨rfl, rfl, rfl⟩ : lastError = lastError' ∧ exhausted = isExhausted
      r.claim.delivery.budgetAttempt settings ∧ delay = delay' := by
    simpa using heq
  have hrow := db.get?_updateDeliveries r.now
    (heldBy r.claim.delivery.deliveryId r.claim.workerId)
    (markFailure r.result lastError (isExhausted r.claim.delivery.budgetAttempt settings) delay
      r.now) (fun _ => rfl) r.claim.delivery.deliveryId
  simp only [recordFailure, hseconds, hdelay, hlast, bind, Except.bind, pure, Except.pure, hrow]
  unfold QueueCall.scheduledNextAt
  rw [← htaken]
  cases db.deliveries.get? r.claim.delivery.deliveryId with
  | none => rfl
  | some d =>
      by_cases hheld : heldBy r.claim.delivery.deliveryId r.claim.workerId d = true
      · simp only [Option.any_some, Option.map_some, Option.filter_some, if_pos hheld]
        rfl
      · simp only [Option.any_some, Option.filter_some, if_neg hheld]
        rfl

/-- A record, from what its update finds. -/
theorem recordResult_eq {r : Recording} {op : QueueOp} {entry : Attempt} {taken : List Delivery}
    {db : Database} (hop : r.op settings = .ok op)
    (htaken : (db.deliveries.get? r.claim.delivery.deliveryId).filter op.cond = taken.head?)
    (hentry : r.entry settings (QueueCall.scheduledNextAt settings op taken) = .ok entry) :
    ∃ db', recordResult settings r.claim.workerId r.claim.delivery r.result r.draw r.now db =
        .ok db' ∧ db'.requests = db.requests ∧
      db'.deliveries = db.deliveries.update (op.run settings) (op.id_run settings) ∧
      ∀ k, db'.deliveryAttempts.get? k =
        if k = r.claim.key then some (journalAfter entry (db.deliveryAttempts.get? k))
        else db.deliveryAttempts.get? k := by
  obtain ⟨ms, hms, hentry⟩ := Fallible.bind_eq_ok_iff.mp hentry
  obtain ⟨text, htext, hentry⟩ := Fallible.bind_eq_ok_iff.mp hentry
  rw [Fallible.pure_eq_ok_iff] at hentry
  cases hs : r.result.succeeded with
  | true =>
      obtain rfl := Except.ok.inj ((Recording.op_success hs).symm.trans hop)
      have hrecord : recordResult settings r.claim.workerId r.claim.delivery r.result r.draw r.now
          db = .ok (insertAttempt entry (db.updateDeliveries r.now
            (undelivered r.claim.delivery.deliveryId) (markDelivered r.result.statusCode r.now)
            fun _ => rfl)) := by
        rw [← hentry]
        simp only [recordResult, hs, if_true, hms, htext, bind, Except.bind]
        rfl
      refine ⟨_, hrecord, rfl, rfl, fun k => ?_⟩
      rw [get?_insertAttempt, ← hentry]
      rfl
  | false =>
      obtain ⟨seconds, delay, lastError, hseconds, hdelay, hlast, rfl⟩ := r.op_failure hs hop
      obtain rfl : lastError = text := Except.ok.inj (hlast.symm.trans htext)
      have hfailure := recordFailure_eq hs hop htaken
      have hrecord : recordResult settings r.claim.workerId r.claim.delivery r.result r.draw r.now
          db = .ok (insertAttempt entry (db.updateDeliveries r.now
            (heldBy r.claim.delivery.deliveryId r.claim.workerId) (markFailure r.result
              lastError (isExhausted r.claim.delivery.budgetAttempt settings) delay r.now)
            fun _ => rfl)) := by
        rw [← hentry]
        simp only [recordResult, hs, Bool.false_eq_true, if_false, hfailure, hms, htext, bind,
          Except.bind]
        rfl
      refine ⟨_, hrecord, rfl, rfl, fun k => ?_⟩
      rw [get?_insertAttempt, ← hentry]
      rfl

/-- A requeue looks at the candidates only. -/
theorem requeue_congr {call : RequeueScan} {where_ where_' : Delivery → Bool}
    {includeDelivered : Bool} {limit : Option ℕ} {db : Database}
    (h : ∀ id ∈ call.scan.map Delivery.id, ∀ d, db.deliveries.get? id = some d →
      where_ d = where_' d) :
    requeue call where_ includeDelivered limit db =
      requeue call where_' includeDelivered limit db := by
  have htarget : target call where_ limit db = target call where_' limit db :=
    Table.lockRows_congr h
  unfold requeue
  rw [htarget]

theorem requeue_update (call : RequeueScan) (where_ : Delivery → Bool) (includeDelivered : Bool)
    (limit : Option ℕ) (db : Database) : ∃ f hf,
      (requeue call where_ includeDelivered limit db).1.deliveries = db.deliveries.update f hf :=
  ⟨_, fun d => by split <;> rfl, rfl⟩

/-! ## Intake and the journal -/

/-- The same leads and deliveries with another journal. -/
def Database.withJournal (journal : Table Attempt.key) (db : Database) : Database :=
  { db with deliveryAttempts := journal }

theorem insertDeliveries_withJournal {gen : Generated} {requestId : RequestId}
    {recipients : List RecipientIn} {db db' : Database} {ids : List DeliveryId}
    (h : insertDeliveries gen requestId recipients db = .ok (db', ids))
    (journal : Table Attempt.key) :
    insertDeliveries gen requestId recipients (db.withJournal journal) =
      .ok (db'.withJournal journal, ids) := by
  obtain ⟨rows, hrows, h⟩ := Fallible.bind_eq_ok_iff.mp h
  refine Fallible.bind_eq_ok_iff.mpr ⟨rows, hrows, ?_⟩
  refine Fallible.foldlM_commute (fun acc : Database × List DeliveryId =>
    (acc.1.withJournal journal, acc.2)) ?_ h
  intro acc row acc' hstep
  unfold insertDelivery at hstep ⊢
  split at hstep
  · rename_i hany
    cases hstep
    exact if_pos hany
  · rename_i hany
    refine (if_neg hany).trans ?_
    split at hstep
    · cases hstep
    · rename_i deliveries hins
      cases hstep
      simp only [Database.withJournal, hins]

theorem acceptRequest_withJournal {gen : Generated} {req : IntakeRequest} {db db' : Database}
    {answer : IntakeAccepted} (h : acceptRequest gen req db = .ok (db', answer))
    (journal : Table Attempt.key) :
    acceptRequest gen req (db.withJournal journal) = .ok (db'.withJournal journal, answer) := by
  obtain ⟨sourceId, hsource, h⟩ := Fallible.bind_eq_ok_iff.mp h
  obtain ⟨idempotencyKey, hkey, h⟩ := Fallible.bind_eq_ok_iff.mp h
  obtain ⟨payload, hpayload, h⟩ := Fallible.bind_eq_ok_iff.mp h
  refine Fallible.bind_eq_ok_iff.mpr ⟨sourceId, hsource, Fallible.bind_eq_ok_iff.mpr
    ⟨idempotencyKey, hkey, Fallible.bind_eq_ok_iff.mpr ⟨payload, hpayload, ?_⟩⟩⟩
  split at h
  · rename_i existing hfind
    cases h
    simp only [Database.withJournal, hfind]
    rfl
  · rename_i hfind
    split at h
    · cases h
    · rename_i requests hins
      obtain ⟨⟨mid, ids⟩, hdel, h⟩ := Fallible.bind_eq_ok_iff.mp h
      cases h
      simp only [Database.withJournal, hfind, hins]
      exact Fallible.bind_eq_ok_iff.mpr ⟨_, insertDeliveries_withJournal hdel journal, rfl⟩

theorem attachRecipients_withJournal {gen : Generated} {requestId : RequestId}
    {recipients : List RecipientIn} {db db' : Database} {answer : AttachRecipientsResponse}
    (h : attachRecipients gen requestId recipients db = .ok (some (db', answer)))
    (journal : Table Attempt.key) :
    attachRecipients gen requestId recipients (db.withJournal journal) =
      .ok (some (db'.withJournal journal, answer)) := by
  unfold attachRecipients at h ⊢
  split at h
  · cases h
  · rename_i hknown
    obtain ⟨⟨mid, ids⟩, hdel, h⟩ := Fallible.bind_eq_ok_iff.mp h
    cases h
    rw [if_neg (by exact hknown)]
    exact Fallible.bind_eq_ok_iff.mpr ⟨_, insertDeliveries_withJournal hdel journal, rfl⟩

end Effect

end LeadQueue
