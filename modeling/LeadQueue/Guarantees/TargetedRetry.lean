import LeadQueue.Intake.Effect
import LeadQueue.Service

/-!
# Retrying named recipients

With a list of recipients a retry touches the named deliveries and no others,
unless the list is empty: the filter tests the list for truth, and an empty
list names every recipient of the lead.
-/

namespace LeadQueue

open Relational Transition

/-- The URL or the label of the delivery is in the list. -/
def Delivery.NamedIn (recipients : List PyStr) (d : Delivery) : Prop :=
  d.recipientUrl.str ∈ recipients ∨ ∃ name ∈ d.recipientName, name.str ∈ recipients

/-- In flight with a running lease, or delivered and not asked for again. -/
def Delivery.Spared (now : Instant) (includeDelivered : Bool) (d : Delivery) : Prop :=
  (d.status = .inFlight ∧ ∃ lease ∈ d.leaseExpiresAt, now < lease) ∨
    (d.status = .delivered ∧ includeDelivered = false)

/-- A retry that touches its targets only. -/
structure TargetsOnly (now : Instant) (requestId : RequestId) (recipients : List PyStr)
    (includeDelivered : Bool) (db db' : Database) (outcome : RequeueOutcome) : Prop where
  resets : ResetsOnly now outcome.requeuedIds db db'
  targets : ∀ id ∈ outcome.requeuedIds, ∀ d, db.deliveries.get? id = some d →
    d.requestId = requestId ∧ d.NamedIn recipients ∧ ¬ d.Spared now includeDelivered

theorem classify_eq_requeue_iff_not_spared {now : Instant} {includeDelivered : Bool}
    {d : Delivery} :
    classify now includeDelivered d = .requeue ↔ ¬ d.Spared now includeDelivered := by
  rw [classify_eq_requeue_iff, Delivery.Spared, not_or]

/-- The texts bound for a list are its texts. -/
theorem mem_named_iff {recipients : List PyStr} {named : List PgText}
    (hnamed : recipients.mapM textParam = .ok named) {t : PgText} :
    t ∈ named ↔ t.str ∈ recipients := by
  constructor
  · intro ht
    obtain ⟨s, hs, hst⟩ := Fallible.exists_of_mem_mapM hnamed ht
    rw [textParam_str hst]
    exact hs
  · intro hs
    obtain ⟨t', ht', hst⟩ := Fallible.exists_mem_of_mapM hnamed hs
    rwa [← PgText.ext (textParam_str hst)]

theorem isEmpty_named {recipients : List PyStr} {named : List PgText}
    (hnamed : recipients.mapM textParam = .ok named) : named.isEmpty = recipients.isEmpty := by
  cases (Fallible.mapM_eq_ok_iff _ _ _).mp hnamed <;> rfl

/-- What the filter of `requeue_request` selects. -/
theorem requestWhere_iff {requestId : RequestId} {recipients : List PyStr} {named : List PgText}
    {d : Delivery} (hnamed : recipients.mapM textParam = .ok named) :
    requestWhere requestId named d = true ↔
      d.requestId = requestId ∧ (recipients = [] ∨ d.NamedIn recipients) := by
  unfold requestWhere Delivery.NamedIn
  rw [isEmpty_named hnamed, Bool.and_eq_true, beq_iff_eq, Bool.or_eq_true, Bool.or_eq_true,
    List.isEmpty_iff, List.contains_iff_mem, mem_named_iff hnamed, Option.any_eq_true, or_assoc]
  simp only [List.contains_iff_mem, mem_named_iff hnamed, Option.mem_def]

/-- Every delivery of the lead that the statement reads and can lock is spared. -/
def NothingToRequeue (call : RequeueScan) (requestId : RequestId) (includeDelivered : Bool)
    (db : Database) : Prop :=
  ∀ d ∈ db.deliveries.rows, d.requestId = requestId → d.id ∈ call.scan.map Delivery.id →
    call.locked d.id = false → d.Spared call.now includeDelivered

/-- Without a filter for recipients, what is requeued is every delivery of the
lead that the statement reads, can lock and does not spare. -/
theorem requeuedIds_eq_nil_iff {call : RequeueScan} {requestId : RequestId}
    {includeDelivered : Bool} {db : Database} :
    (requeue call (requestWhere requestId []) includeDelivered none db).2.requeuedIds = [] ↔
      NothingToRequeue call requestId includeDelivered db := by
  constructor
  · intro hnil d hd hrequest hscan hfree
    by_contra hspared
    have hclass := classify_eq_requeue_iff_not_spared.mpr hspared
    have htarget : d ∈ target call (requestWhere requestId []) none db := by
      refine List.mem_filterMap.mpr ⟨d.id, hscan, ?_⟩
      rw [if_neg (by rw [hfree]; exact Bool.false_ne_true), Table.get?_of_mem hd]
      simp [requestWhere, hrequest]
    have hid : d.id ∈
        (requeue call (requestWhere requestId []) includeDelivered none db).2.requeuedIds := by
      refine List.mem_map.mpr ⟨(d.id, classify call.now includeDelivered d),
        List.mem_filter.mpr ⟨List.mem_map.mpr ⟨d, htarget, rfl⟩, ?_⟩, rfl⟩
      exact beq_iff_eq.mpr hclass
    rw [hnil] at hid
    cases hid
  · intro hnothing
    apply List.eq_nil_iff_forall_not_mem.mpr
    intro id hid
    obtain ⟨⟨id', action⟩, hc, rfl⟩ := List.mem_map.mp hid
    obtain ⟨hmem, haction⟩ := List.mem_filter.mp hc
    obtain ⟨d, hd, heq⟩ := List.mem_map.mp hmem
    obtain ⟨rfl, rfl⟩ := Prod.mk.inj heq
    obtain ⟨hget, hscan, hlocked, hwhere⟩ := Table.mem_lockRows hd
    have hrequest : d.requestId = requestId := by
      simpa [requestWhere] using hwhere
    exact classify_eq_requeue_iff_not_spared.mp (eq_of_beq haction)
      (hnothing d (Table.mem_of_get? hget) hrequest hscan hlocked)

/-- A retry with an explicit list touches its targets only exactly when the list
names somebody or, the list being empty, there is nothing to requeue. -/
theorem retry_touches_targets_only_iff (call : RequeueScan) (requestId : RequestId)
    (recipients : List PyStr) (includeDelivered : Bool) (db : Database) :
    (∀ db' outcome, requeueRequest call requestId (some recipients) includeDelivered db =
        .ok (some (db', outcome)) →
      TargetsOnly call.now requestId recipients includeDelivered db db' outcome) ↔
    (recipients ≠ [] ∨ db.requests.get? requestId = none ∨
      NothingToRequeue call requestId includeDelivered db) := by
  constructor
  · intro hall
    by_contra hnot
    simp only [not_or, not_not] at hnot
    obtain ⟨rfl, hknown, hsome⟩ := hnot
    have hok : requeueRequest call requestId (some []) includeDelivered db =
        .ok (some (requeue call (requestWhere requestId []) includeDelivered none db)) := by
      unfold requeueRequest
      rw [if_neg (by simpa using hknown)]
      rfl
    have htargets := (hall _ _ hok).targets
    rw [← requeuedIds_eq_nil_iff] at hsome
    obtain ⟨id, hid⟩ := List.exists_mem_of_ne_nil _ hsome
    obtain ⟨d, hd, _⟩ := mem_requeuedIds hid
    -- nothing is named in an empty list
    rcases (htargets id hid d hd).2.1 with hurl | ⟨_, _, hlabel⟩
    · cases hurl
    · cases hlabel
  · intro hcond db' outcome h
    obtain ⟨named, hnamed, heq⟩ := requeueRequest_spec h
    have hdb : db' = _ := congrArg Prod.fst heq
    have houtcome : outcome = _ := congrArg Prod.snd heq
    rw [hdb, houtcome]
    refine ⟨requeue_resetsOnly _ _ _ _ _, fun id hid d hd => ?_⟩
    obtain ⟨d', hd', hwhere, _, hclass⟩ := mem_requeuedIds hid
    obtain rfl : d' = d := Option.some.inj (hd'.symm.trans hd)
    have hspared := classify_eq_requeue_iff_not_spared.mp hclass
    by_cases hne : recipients = []
    · subst hne
      obtain rfl : named = [] := by
        cases (Fallible.mapM_eq_ok_iff _ _ _).mp hnamed
        rfl
      rcases hcond with hne | hunknown | hnothing
      · exact absurd rfl hne
      · unfold requeueRequest at h
        rw [hunknown] at h
        cases h
      · rw [requeuedIds_eq_nil_iff.mpr hnothing] at hid
        cases hid
    · obtain ⟨hrequest, hin⟩ := (requestWhere_iff hnamed).mp hwhere
      exact ⟨hrequest, hin.resolve_left hne, hspared⟩

/-- A delivered lead is sent again to a recipient that an empty list names. -/
theorem retry_of_nobody_touches_all :
    ¬ ∀ (settings : Settings) (s : Service) (call : RequeueScan) (requestId : RequestId)
      (recipients : List PyStr) (includeDelivered : Bool) (db' : Database)
      (outcome : RequeueOutcome), settings.Validated → (service settings).Reachable s →
      requeueRequest call requestId (some recipients) includeDelivered s.db =
        .ok (some (db', outcome)) →
      TargetsOnly call.now requestId recipients includeDelivered s.db db' outcome := by
  intro h
  obtain ⟨s, hs, hp⟩ := exists_reachable_of_moves .default
    [Move.accept 0 Move.lead, Move.claim .default Move.workerA 1,
      Move.record Move.first 1 Move.confirmed]
    (fun s =>
      let call := RequeueScan.unlocked s.clock (requestWhere 0 []) s.db.deliveries
      (requeueRequest call 0 (some []) true s.db).toOption.any
        fun answer : Option (Database × RequeueOutcome) => answer.any
          fun result : Database × RequeueOutcome => decide (Move.first ∈ result.2.requeuedIds))
    (by decide +kernel)
  obtain ⟨answer, hok, hp⟩ := Fallible.exists_ok_of_any hp
  obtain ⟨⟨db', outcome⟩, rfl, hid⟩ := (Option.any_eq_true _ _).mp hp
  have htargets := h .default s _ 0 [] true db' outcome Settings.default_validated hs hok
  obtain ⟨d, _, hd, _⟩ := htargets.resets.reset _ (of_decide_eq_true hid)
  rcases (htargets.targets _ (of_decide_eq_true hid) d hd).2.1 with hurl | ⟨_, _, hlabel⟩
  · cases hurl
  · cases hlabel

end LeadQueue
