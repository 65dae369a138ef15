import LeadQueue.Guarantees.TargetedRetry
import LeadQueue.Intake.Constraints

/-!
# What a retry answers for

A retry classifies the rows it can lock and counts all of them. A row that
another transaction holds at that moment is skipped before it is classified,
and is missing from the answer.
-/

namespace LeadQueue

open Relational Transition

/-- The deliveries a retry is asked about. -/
def Delivery.asked (requestId : RequestId) (recipients : Option (List PyStr)) (d : Delivery) :
    Bool :=
  d.requestId == requestId &&
    ((recipients.getD []).isEmpty || (recipients.getD []).contains d.recipientUrl.str ||
      d.recipientName.any fun name => (recipients.getD []).contains name.str)

theorem requestWhere_eq_asked {requestId : RequestId} {recipients : Option (List PyStr)}
    {named : List PgText} (hnamed : (recipients.getD []).mapM textParam = .ok named) :
    requestWhere requestId named = Delivery.asked requestId recipients := by
  ext1 d
  rw [Bool.eq_iff_iff, requestWhere_iff hnamed, Delivery.asked, Bool.and_eq_true, beq_iff_eq,
    Bool.or_eq_true, Bool.or_eq_true, List.isEmpty_iff, List.contains_iff_mem,
    Option.any_eq_true, or_assoc]
  simp only [List.contains_iff_mem]
  rfl

theorem Delivery.SameTarget.asked {d d' : Delivery} (h : d.SameTarget d')
    (requestId : RequestId) (recipients : Option (List PyStr)) :
    d'.asked requestId recipients = d.asked requestId recipients := by
  unfold Delivery.asked
  rw [h.requestId, h.recipientName, h.recipientUrl]

/-- Every row of the snapshot is still there, for the same lead and recipient. -/
def KeepsTargets (snapshot latest : Table Delivery.id) : Prop :=
  ∀ d ∈ snapshot.rows, ∃ d', latest.get? d.id = some d' ∧ d.SameTarget d'

/-- Whatever commits after the snapshot was taken, the rows keep their targets. -/
theorem keepsTargets_of_later {settings : Settings} {ok : Service → Event → Prop} {s t : Service}
    (h : (service settings).LaterBy ok s t) : KeepsTargets s.db.deliveries t.db.deliveries := by
  induction h with
  | refl => exact fun d hd => ⟨d, Table.get?_of_mem hd, .refl d⟩
  | step _ _ hstep ih =>
      intro d hd
      obtain ⟨d', hd', htarget⟩ := ih d hd
      obtain ⟨d'', hd'', htarget'⟩ := Service.step_keeps_target hstep (Table.mem_of_get? hd')
      have hid : d''.id = d.id := htarget'.id.trans htarget.id
      refine ⟨d'', hid ▸ Table.get?_of_mem hd'', hid, ?_, ?_, ?_, ?_⟩
      · exact htarget'.requestId.trans htarget.requestId
      · exact htarget'.recipientName.trans htarget.recipientName
      · exact htarget'.recipientUrl.trans htarget.recipientUrl
      · exact htarget'.recipientOrigin.trans htarget.recipientOrigin

/-- How many deliveries the answer speaks of. -/
def RequeueOutcome.accounted (outcome : RequeueOutcome) : ℕ :=
  outcome.requeuedIds.length + outcome.skippedInFlight + outcome.skippedDelivered

/-! ## Every locked row is counted once -/

theorem accounted_requeue (call : RequeueScan) (where_ : Delivery → Bool)
    (includeDelivered : Bool) (limit : Option ℕ) (db : Database) :
    (requeue call where_ includeDelivered limit db).2.accounted =
      (target call where_ limit db).length := by
  unfold RequeueOutcome.accounted requeue
  dsimp only
  rw [List.length_map]
  generalize target call where_ limit db = rows
  induction rows with
  | nil => rfl
  | cons d rest ih =>
      rw [List.map_cons, List.countP_cons, List.countP_cons, List.length_cons, ← ih,
        List.filter_cons]
      cases classify call.now includeDelivered d <;> simp <;> omega

/-- Of the rows read, those that nobody else holds are locked. -/
theorem length_target {call : RequeueScan} {where_ : Delivery → Bool} {db : Database}
    (hvalid : call.Valid where_) (hkept : KeepsTargets call.snapshot db.deliveries)
    (hwhere : ∀ d d' : Delivery, d.SameTarget d' → where_ d' = where_ d) :
    (target call where_ none db).length = call.scan.countP fun d => !call.locked d.id := by
  have hrows : ∀ d ∈ call.scan, ∃ d', (db.deliveries.get? d.id).filter where_ = some d' := by
    intro d hd
    obtain ⟨hmem, hd⟩ := List.mem_filter.mp (hvalid.scan_perm.mem_iff.mp hd)
    obtain ⟨d', hd', htarget⟩ := hkept d hmem
    exact ⟨d', Option.filter_eq_some_iff.mpr ⟨hd', (hwhere d d' htarget).trans hd⟩⟩
  unfold target Table.lockRows
  dsimp only
  generalize call.scan = scan at hrows
  induction scan with
  | nil => rfl
  | cons d rest ih =>
      obtain ⟨d', hd'⟩ := hrows d List.mem_cons_self
      have hrest := ih fun e he => hrows e (List.mem_cons_of_mem _ he)
      rw [List.map_cons, List.filterMap_cons, List.countP_cons, ← hrest, hd']
      cases call.locked d.id <;> simp

theorem accounted_iff {call : RequeueScan} {requestId : RequestId}
    {recipients : Option (List PyStr)} {includeDelivered : Bool} {db db' : Database}
    {outcome : RequeueOutcome} (hvalid : call.Valid (Delivery.asked requestId recipients))
    (hkept : KeepsTargets call.snapshot db.deliveries)
    (h : requeueRequest call requestId recipients includeDelivered db =
      .ok (some (db', outcome))) :
    outcome.accounted = call.snapshot.rows.countP (Delivery.asked requestId recipients) ↔
      ∀ d ∈ call.snapshot.rows, d.asked requestId recipients = true →
        call.locked d.id = false := by
  obtain ⟨named, hnamed, heq⟩ := requeueRequest_spec h
  rw [requestWhere_eq_asked hnamed] at heq
  have hscan := hvalid.scan_perm
  have hall :
      call.snapshot.rows.countP (Delivery.asked requestId recipients) = call.scan.length := by
    rw [List.countP_eq_length_filter, hscan.length_eq]
  rw [show outcome = _ from congrArg Prod.snd heq, accounted_requeue,
    length_target hvalid hkept fun d d' htarget => htarget.asked requestId recipients,
    hall, List.countP_eq_length]
  constructor
  · intro hfree d hd hasked
    have hin : d ∈ call.scan := hscan.mem_iff.mpr (List.mem_filter.mpr ⟨hd, hasked⟩)
    simpa using hfree d hin
  · intro hfree d hd
    obtain ⟨hmem, hasked⟩ := List.mem_filter.mp (hscan.mem_iff.mp hd)
    simpa using hfree d hmem hasked

/-- A retry answers for every delivery it was asked about exactly when no other
transaction holds one of them. The statement reads the state `s` and locks rows
of `t`, whatever has been committed in between. -/
theorem retry_accounts_iff {settings : Settings} {s t : Service} {call : RequeueScan}
    {requestId : RequestId} {recipients : Option (List PyStr)} {includeDelivered : Bool}
    {db' : Database} {outcome : RequeueOutcome} (hst : (service settings).Later s t)
    (hsnapshot : call.snapshot = s.db.deliveries)
    (hvalid : call.Valid (Delivery.asked requestId recipients))
    (h : requeueRequest call requestId recipients includeDelivered t.db =
      .ok (some (db', outcome))) :
    outcome.accounted = s.db.deliveries.rows.countP (Delivery.asked requestId recipients) ↔
      ∀ d ∈ s.db.deliveries.rows, d.asked requestId recipients = true →
        call.locked d.id = false := by
  have hkept : KeepsTargets call.snapshot t.db.deliveries := by
    rw [hsnapshot]
    exact keepsTargets_of_later hst
  rw [← hsnapshot]
  exact accounted_iff hvalid hkept h

namespace RetryAccounting

/-- A retry of the whole lead that finds the rows of `held` locked. -/
def call (s : Service) (held : DeliveryId → Bool) : RequeueScan :=
  { RequeueScan.unlocked s.clock (Delivery.asked 0 none) s.db.deliveries with locked := held }

theorem call_valid (s : Service) (held : DeliveryId → Bool) :
    (call s held).Valid (Delivery.asked 0 none) := by
  have hvalid := RequeueScan.unlocked_valid s.clock (Delivery.asked 0 none) s.db.deliveries
  exact ⟨hvalid.scan_perm, hvalid.scan_sorted⟩

/-- The worker has not recorded its attempt yet. -/
def sending : List (Service → Event) :=
  [Move.accept 0 Move.lead, Move.claim .default Move.workerA 1]

end RetryAccounting

open RetryAccounting in
/-- The attempt is on the wire and no row is locked: it is counted as skipped. -/
theorem retry_accounts_iff_sending :
    ∃ (s : Service) (db' : Database) (outcome : RequeueOutcome),
      requeueRequest (call s fun _ => false) 0 none false s.db = .ok (some (db', outcome)) ∧
      outcome.accounted = s.db.deliveries.rows.countP (Delivery.asked 0 none) ∧
      outcome.skippedInFlight = 1 := by
  obtain ⟨s, _, hp⟩ := exists_reachable_of_moves .default sending
    (fun s => (requeueRequest (call s fun _ => false) 0 none false s.db).toOption.any
      fun answer : Option (Database × RequeueOutcome) => answer.any
        fun result : Database × RequeueOutcome => decide (result.2.skippedInFlight = 1))
    (by decide +kernel)
  obtain ⟨answer, hok, hp⟩ := Fallible.exists_ok_of_any hp
  obtain ⟨⟨db', outcome⟩, rfl, hone⟩ := (Option.any_eq_true _ _).mp hp
  have haccounts := @retry_accounts_iff .default s s _ _ _ _ _ _ .refl rfl (call_valid s _) hok
  exact ⟨s, db', outcome, hok, haccounts.mpr fun _ _ _ => rfl, of_decide_eq_true hone⟩

open RetryAccounting in
/-- The worker's transaction holds the row at that moment: the answer is three
zeros for one delivery. -/
theorem retry_forgets_locked :
    ¬ ∀ (settings : Settings) (s : Service) (call : RequeueScan) (requestId : RequestId)
      (recipients : Option (List PyStr)) (includeDelivered : Bool) (db' : Database)
      (outcome : RequeueOutcome), settings.Validated → (service settings).Reachable s →
      call.snapshot = s.db.deliveries → call.Valid (Delivery.asked requestId recipients) →
      requeueRequest call requestId recipients includeDelivered s.db =
        .ok (some (db', outcome)) →
      outcome.accounted = s.db.deliveries.rows.countP (Delivery.asked requestId recipients) := by
  intro h
  obtain ⟨s, hs, hp⟩ := exists_reachable_of_moves .default sending
    (fun s => decide (s.db.deliveries.rows.countP (Delivery.asked 0 none) = 1) &&
      (requeueRequest (call s fun id => id == Move.first) 0 none false s.db).toOption.any
        fun answer : Option (Database × RequeueOutcome) => answer.any
          fun result : Database × RequeueOutcome => decide (result.2.accounted = 0))
    (by decide +kernel)
  obtain ⟨hone, hp⟩ := Bool.and_eq_true_iff.mp hp
  obtain ⟨answer, hok, hp⟩ := Fallible.exists_ok_of_any hp
  obtain ⟨⟨db', outcome⟩, rfl, hzero⟩ := (Option.any_eq_true _ _).mp hp
  have hall := h .default s _ 0 none false db' outcome Settings.default_validated hs rfl
    (call_valid s _) hok
  rw [of_decide_eq_true hone, of_decide_eq_true hzero] at hall
  cases hall

end LeadQueue
