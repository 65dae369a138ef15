import LeadQueue.Guarantees.Budget
import LeadQueue.Intake.Constraints
import LeadQueue.Life.Invariant
import LeadQueue.Reporting

/-!
# Nothing is lost

After a lead is accepted it stays stored, with one delivery for each URL it was
accepted for. A delivery that is not closed is due again within the longest
lease or backoff, and a lead that is not in order is in the problem list.
-/

namespace LeadQueue

open Relational Transition

/-! ## How long an open delivery waits -/

/-- A lease, or the longest backoff. -/
def Settings.longestWait (settings : Settings) : Duration :=
  micros (max settings.leaseSeconds
    (max minDelaySeconds (settings.retryCapSeconds * (1 + settings.retryJitterRatio))))

theorem Settings.longestWait_nonneg (settings : Settings) : 0 ≤ settings.longestWait :=
  micros_nonneg (settings.leaseSeconds_pos.le.trans (le_max_left _ _))

theorem Settings.lease_le_longestWait (settings : Settings) :
    settings.lease ≤ settings.longestWait := micros_mono (le_max_left _ _)

theorem Settings.backoff_le_longestWait {settings : Settings} {n : ℕ} {draw : Draw} {seconds : ℚ}
    {delay : Duration} (h : nextDelaySeconds n settings draw = .ok seconds)
    (hdelay : timedelta seconds = .ok delay) : delay ≤ settings.longestWait := by
  rw [eq_micros_of_timedelta hdelay]
  exact micros_mono ((nextDelaySeconds_le h).trans (le_max_right _ _))

namespace Life

/-- An open row is due again within the longest wait. -/
def WaitBounded (settings : Settings) (l : Life) : Prop :=
  l.row.unresolved = true → l.row.claimableAt ≤ l.clock + settings.longestWait

theorem WaitBounded.of_starts {settings : Settings} {l : Life} (h : l.Starts) :
    l.WaitBounded settings := by
  obtain ⟨now, requestId, id, r, hnow, hrow, _⟩ := h
  intro _
  have hclaimable : l.row.claimableAt = now := by rw [hrow]; rfl
  rw [hclaimable]
  exact hnow.trans (le_add_of_nonneg_right settings.longestWait_nonneg)

theorem WaitBounded.failed {settings : Settings} {l : Life} {c : Claim} {result : AttemptResult}
    {lastError : Option PgText} {delay : Duration} {now : Instant} (h : l.WaitBounded settings)
    (hnow : now ≤ l.clock) (hdelay : delay ≤ settings.longestWait)
    (hopen : (failureRow settings c result lastError delay now l.row).unresolved = true) :
    (failureRow settings c result lastError delay now l.row).claimableAt ≤
      l.clock + settings.longestWait := by
  rcases @failureRow_cases settings c result lastError delay now l.row with
    ⟨_, _, heq⟩ | ⟨_, heq⟩
  · rw [heq] at hopen ⊢
    cases hexhausted : isExhausted c.delivery.budgetAttempt settings with
    | true =>
        rw [hexhausted] at hopen
        cases hopen
    | false => exact add_le_add hnow hdelay
  · rw [heq] at hopen ⊢
    exact h hopen

theorem WaitBounded.step {settings : Settings} {l l' : Life} {d : Event}
    (h : l.WaitBounded settings) (hstep : Step settings l d l') : l'.WaitBounded settings := by
  cases hstep with
  | advance ht => exact fun hopen => (h hopen).trans (add_le_add_left ht _)
  | claim hnow hdue hlost => exact fun _ => add_le_add hnow settings.lease_le_longestWait
  | @success _ _ result _ now _ _ _ _ _ _ _ =>
      intro hopen
      have hopen : (successRow result now l.row).unresolved = true := hopen
      rw [Delivery.unresolved, successRow_status] at hopen
      cases hopen
  | failure hnow hnone hc _ hseconds hdelay _ =>
      exact fun hopen => h.failed hnow (settings.backoff_le_longestWait hseconds hdelay) hopen
  | requeue hnow _ =>
      exact fun _ => hnow.trans (le_add_of_nonneg_right settings.longestWait_nonneg)

end Life

theorem due_within_longestWait {settings : Settings} {s : Service}
    (hs : (service settings).Reachable s) {d : Delivery} (hd : d ∈ s.db.deliveries.rows)
    (hopen : d.unresolved = true) : d.due (s.clock + settings.longestWait) = true := by
  have hlife : (life settings).Reachable _ :=
    life_of_reachable hs (Service.life_eq_some_iff.mpr ⟨d, Table.get?_of_mem hd, rfl⟩)
  have hwait := hlife.invariant (fun _ => Life.WaitBounded.of_starts)
    fun _ _ _ _ h _ hstep => Life.WaitBounded.step h hstep
  rw [Delivery.due, hopen, Bool.true_and]
  exact decide_eq_true (hwait hopen)

/-! ## What an accepted lead keeps -/

/-- One delivery of the lead goes to this URL. -/
def Database.HasOne (db : Database) (requestId : RequestId) (url : PyStr) : Prop :=
  ∃! d, d ∈ db.deliveries.rows ∧ d.requestId = requestId ∧ d.recipientUrl.str = url

theorem hasOne_of_mem {settings : Settings} {s : Service} (hs : (service settings).Reachable s)
    {d : Delivery} (hd : d ∈ s.db.deliveries.rows) :
    s.db.HasOne d.requestId d.recipientUrl.str := by
  refine ⟨d, ⟨hd, rfl, rfl⟩, ?_⟩
  rintro d' ⟨hd', hof, hurl⟩
  exact (constrained_of_reachable hs).targets d' hd' d hd hof (PgText.ext hurl)

/-- A delivery's lead and URL have one delivery ever after. -/
theorem hasOne_of_later {settings : Settings} {s t : Service} (hs : (service settings).Reachable s)
    (hlater : (service settings).Later s t) {requestId : RequestId} {url : PyStr}
    (h : ∃ d ∈ s.db.deliveries.rows, d.requestId = requestId ∧ d.recipientUrl.str = url) :
    t.db.HasOne requestId url := by
  have hkept : ∃ d ∈ t.db.deliveries.rows, d.requestId = requestId ∧ d.recipientUrl.str = url := by
    refine hlater.keeps (I := fun v : Service => ∃ d ∈ v.db.deliveries.rows,
      d.requestId = requestId ∧ d.recipientUrl.str = url) hs h ?_
    rintro _ e _ _ ⟨d, hd, rfl, rfl⟩ _ hstep
    obtain ⟨d', hd', htarget⟩ := Service.step_keeps_target hstep hd
    exact ⟨d', hd', htarget.requestId, congrArg PgText.str htarget.recipientUrl⟩
  obtain ⟨d, hd, rfl, rfl⟩ := hkept
  exact hasOne_of_mem (hlater.reachable hs) hd

/-- The lead an accepted call answers with. -/
theorem Accepted.exists_lead {gen : Generated} {req : IntakeRequest} {db db' : Database}
    {answer : IntakeAccepted} (h : Accepted gen req db db' answer) :
    ∃ lead, db'.requests.get? answer.requestId = some lead ∧
      lead.sourceId.str = req.sourceId ∧ lead.idempotencyKey.str = req.idempotencyKey ∧
      lead.receivedAt = answer.receivedAt ∧
      (answer.duplicate = false → jsonbParam req.payload = .ok lead.payload) := by
  cases h with
  | @duplicate sourceId key existing hsource hkey hmem hhas =>
      obtain ⟨rfl, rfl⟩ := Request.hasKey_iff.mp hhas
      exact ⟨existing, Table.get?_of_mem hmem, textParam_str hsource, textParam_str hkey, rfl,
        fun hnew => by cases hnew⟩
  | @new sourceId key payload requests rows _ ids hsource hkey hpayload _ hins _ hinserted =>
      refine ⟨⟨gen.requestId, sourceId, key, payload, gen.now⟩, ?_, textParam_str hsource,
        textParam_str hkey, rfl, fun _ => hpayload⟩
      rw [hinserted.requests]
      exact (Table.get?_insert? hins _).trans (if_pos rfl)

theorem Accepted.exists_delivery {gen : Generated} {req : IntakeRequest} {db db' : Database}
    {answer : IntakeAccepted} (h : Accepted gen req db db' answer) (hnew : answer.duplicate = false)
    {url : PyStr} (hurl : url ∈ req.recipients.map RecipientIn.url) :
    ∃ d ∈ db'.deliveries.rows, d.requestId = answer.requestId ∧ d.recipientUrl.str = url := by
  cases h with
  | duplicate => cases hnew
  | @new sourceId key payload requests rows _ ids _ _ _ _ _ hbound hinserted =>
      obtain ⟨p, hp, rfl⟩ := hbound.exists_proposed hurl
      obtain ⟨d, hd, hof, heq⟩ := hinserted.exists_target hp
      exact ⟨d, hd, hof, congrArg PgText.str heq⟩

theorem exists_delivery_of_attach {gen : Generated} {requestId : RequestId}
    {recipients : List RecipientIn} {db db' : Database} {answer : AttachRecipientsResponse}
    (h : attachRecipients gen requestId recipients db = .ok (some (db', answer)))
    {url : PyStr} (hurl : url ∈ recipients.map RecipientIn.url) :
    ∃ d ∈ db'.deliveries.rows, d.requestId = requestId ∧ d.recipientUrl.str = url := by
  obtain ⟨_, rows, hbound, hinserted⟩ := attachRecipients_spec h
  obtain ⟨p, hp, rfl⟩ := hbound.exists_proposed hurl
  obtain ⟨d, hd, hof, heq⟩ := hinserted.exists_target hp
  exact ⟨d, hd, hof, congrArg PgText.str heq⟩

/-! ## Every run -/

/-- The problem list shows a lead that is not in order, and no delivery twice. -/
structure Database.Reports (db : Database) (requestId : RequestId) (now : Instant)
    (stale : Duration) : Prop where
  inOrder : (¬ ∃ row ∈ problems now stale db, row.requestId = requestId) →
    db.deliveriesOf requestId ≠ [] ∧ ∀ d ∈ db.deliveriesOf requestId,
      d.status = .delivered ∨ (d.unresolved = true ∧ now - stale ≤ d.createdAt)
  once : ((problems now stale db).filterMap ProblemRow.deliveryId).Nodup
  byState : db.leadState requestId = .noRecipients ∨ db.leadState requestId = .failed ∨
      db.leadState requestId = .partiallyDelivered →
    ∃ row ∈ problems now stale db, row.requestId = requestId

/-- In every state after an acceptance the lead is stored as it was, each URL
it was accepted for has one delivery, an open delivery is due again within the
longest wait, and the problem list shows the lead unless it is in order. -/
theorem nothing_lost {settings : Settings} {s t u : Service} {gen : Generated}
    {req : IntakeRequest} (hs : (service settings).Reachable s)
    (haccept : Service.step settings s (.accept gen req) = some t)
    (hlater : (service settings).Later t u) :
    ∃ answer, acceptRequest gen req s.db = .ok (t.db, answer) ∧
      (∃ lead, t.db.requests.get? answer.requestId = some lead ∧
        u.db.requests.get? answer.requestId = some lead ∧
        lead.sourceId.str = req.sourceId ∧ lead.idempotencyKey.str = req.idempotencyKey ∧
        (answer.duplicate = false → jsonbParam req.payload = .ok lead.payload)) ∧
      (answer.duplicate = false → ∀ url ∈ req.recipients.map RecipientIn.url,
        u.db.HasOne answer.requestId url) ∧
      (∀ d ∈ t.db.deliveriesOf answer.requestId,
        u.db.HasOne answer.requestId d.recipientUrl.str) ∧
      (∀ v w gen' recipients, (service settings).Later t v →
        Service.step settings v (.attach gen' answer.requestId recipients) = some w →
        (service settings).Later w u → ∀ url ∈ recipients.map RecipientIn.url,
          u.db.HasOne answer.requestId url) ∧
      (∀ d ∈ u.db.deliveries.rows, d.unresolved = true →
        d.due (u.clock + settings.longestWait) = true) ∧
      ∀ now stale, u.db.Reports answer.requestId now stale := by
  have ht : (service settings).Reachable t := hs.step trivial haccept
  obtain ⟨_, db, answer, hanswer, rfl⟩ := Service.step_accept.mp haccept
  have haccepted := acceptRequest_spec hanswer
  have hu := hlater.reachable ht
  obtain ⟨lead, hlead, hsource, hkey, _, hpayload⟩ := haccepted.exists_lead
  have hstored : u.db.requests.get? answer.requestId = some lead :=
    hlater.keeps (I := fun v : Service => v.db.requests.get? answer.requestId = some lead) ht hlead
      fun _ _ _ _ hv _ hstep => Service.step_requests hstep hv
  refine ⟨answer, hanswer, ⟨lead, hlead, hstored, hsource, hkey, hpayload⟩, ?_, ?_, ?_, ?_, ?_⟩
  · intro hnew url hurl
    exact hasOne_of_later ht hlater (haccepted.exists_delivery hnew hurl)
  · intro d hd
    obtain ⟨hd, hof⟩ := mem_deliveriesOf.mp hd
    exact hasOne_of_later ht hlater ⟨d, hd, hof, rfl⟩
  · intro v w gen' recipients htv hattach hwu url hurl
    obtain ⟨_, _, _, hattached, rfl⟩ := Service.step_attach.mp hattach
    exact hasOne_of_later ((htv.reachable ht).step trivial hattach) hwu
      (exists_delivery_of_attach hattached hurl)
  · intro d hd hopen
    exact due_within_longestWait hu hd hopen
  · intro now stale
    exact ⟨inOrder_of_not_listed hstored, problems_deliveryId_nodup, listed_of_state hstored⟩

namespace Move

/-- A lease whose microseconds are rounded up. -/
def longLease : Settings :=
  { Settings.default with
    leaseSeconds := 5000 + 6 / 10000000
    leaseSeconds_pos := by decide +kernel }

end Move

/-- The only attempt failed; the lead is listed. -/
theorem nothing_lost_gaveUp :
    ∃ u : Service, u.db.leadState 0 = .failed ∧
      ∃ row ∈ problems u.clock 60000000 u.db, row.requestId = 0 := by
  have hrun : ((Service.step Budget.oneAttempt (.empty 0)
      (Move.accept 0 Move.lead (.empty 0))).any fun t =>
      (Machine.play (Service.step Budget.oneAttempt) (fun _ _ => True) t
        [Move.claim Budget.oneAttempt Move.workerA 1,
          Move.record Move.first 1 Move.timedOut]).any fun u =>
        decide (u.db.leadState 0 = .failed)) = true := by decide +kernel
  obtain ⟨t, ht, hrun⟩ := (Option.any_eq_true _ _).mp hrun
  obtain ⟨u, hu, hstate⟩ := (Option.any_eq_true _ _).mp hrun
  have hstate := of_decide_eq_true hstate
  obtain ⟨answer, hanswer, _, _, _, _, _, hreports⟩ :=
    nothing_lost (.init ⟨0, rfl⟩) ht (Machine.laterBy_of_play .refl hu)
  have hfirst : acceptRequest ⟨0, 0, fun i => 0 + BitVec.ofNat 128 (i + 1)⟩ Move.lead .empty =
      .ok (_, ⟨0, false, 0, 1⟩) := rfl
  obtain rfl := (Prod.mk.inj (Except.ok.inj (hfirst.symm.trans hanswer))).2
  exact ⟨u, hstate, (hreports u.clock 60000000).byState (Or.inr (Or.inl hstate))⟩

/-- A delivery exactly as old as the threshold is not listed, and a lease that is
no whole number of microseconds may be rounded up. -/
theorem nothing_lost_fails_at_edges :
    (∃ s : Service, (service .default).Reachable s ∧
      (problems s.clock 60000000 s.db) = [] ∧
      ∃ d ∈ s.db.deliveriesOf 0, d.status ≠ .delivered ∧
        ¬ s.clock - d.createdAt < 60000000) ∧
    ∃ s : Service, (service Move.longLease).Reachable s ∧
      ∃ d ∈ s.db.deliveries.rows, d.unresolved = true ∧
        s.clock + 1000000 * max Move.longLease.leaseSeconds (max minDelaySeconds
          (Move.longLease.retryCapSeconds * (1 + Move.longLease.retryJitterRatio))) <
          d.claimableAt := by
  constructor
  · obtain ⟨s, hs, hp⟩ := exists_reachable_of_moves .default
      [Move.accept 0 Move.lead, Move.advance 60000000]
      (fun s => (problems s.clock 60000000 s.db).isEmpty &&
        (s.db.deliveriesOf 0).any fun d =>
          decide (d.status ≠ .delivered ∧ ¬ s.clock - d.createdAt < 60000000)) (by decide +kernel)
    obtain ⟨hnone, hp⟩ := Bool.and_eq_true_iff.mp hp
    obtain ⟨d, hd, hp⟩ := List.any_eq_true.mp hp
    exact ⟨s, hs, List.isEmpty_iff.mp hnone, d, hd, of_decide_eq_true hp⟩
  · obtain ⟨s, hs, hp⟩ := exists_reachable_of_moves Move.longLease
      [Move.accept 0 Move.lead, Move.claim Move.longLease Move.workerA 1]
      (fun s => s.db.deliveries.rows.any fun d => d.unresolved &&
        decide (s.clock + 1000000 * max Move.longLease.leaseSeconds (max minDelaySeconds
          (Move.longLease.retryCapSeconds * (1 + Move.longLease.retryJitterRatio))) <
            d.claimableAt)) (by decide +kernel)
    obtain ⟨d, hd, hp⟩ := List.any_eq_true.mp hp
    obtain ⟨hopen, hp⟩ := Bool.and_eq_true_iff.mp hp
    exact ⟨s, hs, d, hd, hopen, of_decide_eq_true hp⟩

end LeadQueue
