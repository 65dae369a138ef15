import LeadQueue.Schema
import Mathlib.Data.List.Nodup

/-!
# Reports

What a person sees of a lead: its state, and the list of leads that are not in
order. A lead is listed when it has no recipient, and once for each delivery
that was given up or is still open after too long. Two of the three branches
read `deliveries`, joined with the lead, the third one reads `requests`.
-/

namespace LeadQueue

open Relational

/-! ## The state of a lead -/

inductive RequestState where
  | noRecipients | inProgress | delivered | failed | partiallyDelivered
deriving DecidableEq, Repr

/-- `_request_state`. -/
def requestState (statuses : List DeliveryStatus) : RequestState :=
  if statuses.isEmpty then .noRecipients
  else if statuses.any fun s => s == .pending || s == .inFlight then .inProgress
  else if statuses.all fun s => s == .delivered then .delivered
  else if statuses.all fun s => s == .failed then .failed
  else .partiallyDelivered

def Database.deliveriesOf (db : Database) (requestId : RequestId) : List Delivery :=
  db.deliveries.rows.filter fun d => d.requestId == requestId

def Database.leadState (db : Database) (requestId : RequestId) : RequestState :=
  requestState ((db.deliveriesOf requestId).map Delivery.status)

/-- The order in which the deliveries are read does not matter. -/
theorem requestState_perm {statuses statuses' : List DeliveryStatus}
    (h : statuses.Perm statuses') : requestState statuses = requestState statuses' := by
  unfold requestState
  rw [h.isEmpty_eq, h.any_eq, h.all_eq, h.all_eq]

theorem mem_deliveriesOf {db : Database} {requestId : RequestId} {d : Delivery} :
    d ∈ db.deliveriesOf requestId ↔ d ∈ db.deliveries.rows ∧ d.requestId = requestId := by
  rw [Database.deliveriesOf, List.mem_filter, beq_iff_eq]

/-- Past `no_recipients` and `in_progress` every delivery is closed. -/
theorem requestState_cases (statuses : List DeliveryStatus) :
    (statuses = [] ∧ requestState statuses = .noRecipients) ∨
    ((∃ s ∈ statuses, s = .pending ∨ s = .inFlight) ∧ requestState statuses = .inProgress) ∨
    ((∀ s ∈ statuses, s = .delivered) ∧ requestState statuses = .delivered) ∨
    ∃ s ∈ statuses, s = .failed := by
  unfold requestState
  split
  · rename_i hempty
    exact Or.inl ⟨List.isEmpty_iff.mp hempty, rfl⟩
  · split
    · rename_i hopen
      obtain ⟨s, hs, hopen⟩ := List.any_eq_true.mp hopen
      exact Or.inr (Or.inl ⟨⟨s, hs, by simpa using hopen⟩, rfl⟩)
    · split
      · rename_i hall
        exact Or.inr (Or.inr (Or.inl ⟨fun s hs => by simpa using List.all_eq_true.mp hall s hs,
          rfl⟩))
      · rename_i hclosed hall
        right; right; right
        obtain ⟨s, hs, hnot⟩ : ∃ s ∈ statuses, s ≠ .delivered := by
          by_contra hnone
          refine hall (List.all_eq_true.mpr fun s hs => beq_iff_eq.mpr ?_)
          exact not_not.mp fun hnot => hnone ⟨s, hs, hnot⟩
        refine ⟨s, hs, ?_⟩
        cases s with
        | failed => rfl
        | delivered => exact absurd rfl hnot
        | pending => exact absurd (List.any_eq_true.mpr ⟨_, hs, rfl⟩) hclosed
        | inFlight => exact absurd (List.any_eq_true.mpr ⟨_, hs, rfl⟩) hclosed

/-! ## The list -/

inductive ProblemReason where
  | noRecipients | failed | stalled
deriving DecidableEq, Repr

/-- A row of `problems`. -/
structure ProblemRow where
  reason : ProblemReason
  requestId : RequestId
  sourceId : PgText
  receivedAt : Instant
  deliveryId : Option DeliveryId
  recipientName : Option PgText
  recipientUrl : Option PgText
  status : Option DeliveryStatus
  attempts : Option ℕ
  nextAttemptAt : Option Instant
  lastErrorKind : Option ErrorKind
  lastStatusCode : Option ℕ
  lastError : Option PgText
  troubleSince : Instant
deriving DecidableEq

namespace ProblemRow

/-- The row of a lead that nobody receives. -/
def ofLead (r : Request) : ProblemRow where
  reason := .noRecipients
  requestId := r.id
  sourceId := r.sourceId
  receivedAt := r.receivedAt
  deliveryId := none
  recipientName := none
  recipientUrl := none
  status := none
  attempts := none
  nextAttemptAt := none
  lastErrorKind := none
  lastStatusCode := none
  lastError := none
  troubleSince := r.receivedAt

/-- The row of a delivery. -/
def ofDelivery (reason : ProblemReason) (nextAttemptAt : Option Instant) (troubleSince : Instant)
    (d : Delivery) (r : Request) : ProblemRow where
  reason := reason
  requestId := r.id
  sourceId := r.sourceId
  receivedAt := r.receivedAt
  deliveryId := some d.id
  recipientName := d.recipientName
  recipientUrl := some d.recipientUrl
  status := some d.status
  attempts := some d.attempts
  nextAttemptAt := nextAttemptAt
  lastErrorKind := d.lastErrorKind
  lastStatusCode := d.lastStatusCode
  lastError := d.lastError
  troubleSince := troubleSince

/-- Given up: nothing is scheduled. -/
def ofFailed (d : Delivery) (r : Request) : ProblemRow :=
  ofDelivery .failed none (d.failedAt.getD d.createdAt) d r

def ofStalled (d : Delivery) (r : Request) : ProblemRow :=
  ofDelivery .stalled (some d.nextAttemptAt) d.createdAt d r

end ProblemRow

/-- `deliveries d JOIN requests r ON r.id = d.request_id`. -/
def Database.joined (db : Database) : List (Delivery × Request) :=
  db.deliveries.rows.filterMap fun d => (db.requests.get? d.requestId).map fun r => (d, r)

/-- Unresolved and created before `now() - stale`. -/
def Delivery.stalled (now : Instant) (stale : Duration) (d : Delivery) : Bool :=
  d.unresolved && decide (d.createdAt < now - stale)

/-- `_PROBLEMS_CTE`. -/
def problems (now : Instant) (stale : Duration) (db : Database) : List ProblemRow :=
  (db.requests.rows.filter fun r => !db.deliveries.rows.any fun d => d.requestId == r.id).map
    .ofLead ++
  (db.joined.filter fun p => p.1.status == .failed).map (fun p => .ofFailed p.1 p.2) ++
  (db.joined.filter fun p => p.1.stalled now stale).map fun p => .ofStalled p.1 p.2

theorem mem_joined {db : Database} {p : Delivery × Request} :
    p ∈ db.joined ↔ p.1 ∈ db.deliveries.rows ∧ db.requests.get? p.1.requestId = some p.2 := by
  rw [Database.joined, List.mem_filterMap]
  constructor
  · rintro ⟨d, hd, hp⟩
    obtain ⟨r, hr, rfl⟩ := Option.map_eq_some_iff.mp hp
    exact ⟨hd, hr⟩
  · rintro ⟨hd, hr⟩
    exact ⟨p.1, hd, by rw [hr]; rfl⟩

theorem mem_problems {now : Instant} {stale : Duration} {db : Database} {row : ProblemRow} :
    row ∈ problems now stale db ↔
      (∃ r ∈ db.requests.rows, (∀ d ∈ db.deliveries.rows, d.requestId ≠ r.id) ∧
        row = .ofLead r) ∨
      (∃ d ∈ db.deliveries.rows, ∃ r, db.requests.get? d.requestId = some r ∧
        d.status = .failed ∧ row = .ofFailed d r) ∨
      ∃ d ∈ db.deliveries.rows, ∃ r, db.requests.get? d.requestId = some r ∧
        d.stalled now stale = true ∧ row = .ofStalled d r := by
  rw [problems, List.mem_append, List.mem_append, or_assoc]
  apply or_congr
  · rw [List.mem_map]
    constructor
    · rintro ⟨r, hr, rfl⟩
      obtain ⟨hr, hnone⟩ := List.mem_filter.mp hr
      refine ⟨r, hr, fun d hd heq => ?_, rfl⟩
      rw [Bool.not_eq_true', List.any_eq_false] at hnone
      exact hnone d hd (beq_iff_eq.mpr heq)
    · rintro ⟨r, hr, hnone, rfl⟩
      refine ⟨r, List.mem_filter.mpr ⟨hr, ?_⟩, rfl⟩
      rw [Bool.not_eq_true', List.any_eq_false]
      exact fun d hd heq => hnone d hd (beq_iff_eq.mp heq)
  · apply or_congr
    · rw [List.mem_map]
      constructor
      · rintro ⟨p, hp, rfl⟩
        obtain ⟨hp, hstatus⟩ := List.mem_filter.mp hp
        obtain ⟨hd, hr⟩ := mem_joined.mp hp
        exact ⟨p.1, hd, p.2, hr, eq_of_beq hstatus, rfl⟩
      · rintro ⟨d, hd, r, hr, hstatus, rfl⟩
        exact ⟨(d, r), List.mem_filter.mpr ⟨mem_joined.mpr ⟨hd, hr⟩, beq_iff_eq.mpr hstatus⟩, rfl⟩
    · rw [List.mem_map]
      constructor
      · rintro ⟨p, hp, rfl⟩
        obtain ⟨hp, hstalled⟩ := List.mem_filter.mp hp
        obtain ⟨hd, hr⟩ := mem_joined.mp hp
        exact ⟨p.1, hd, p.2, hr, hstalled, rfl⟩
      · rintro ⟨d, hd, r, hr, hstalled, rfl⟩
        exact ⟨(d, r), List.mem_filter.mpr ⟨mem_joined.mpr ⟨hd, hr⟩, hstalled⟩, rfl⟩

/-! ## Who is listed -/

section Listed

variable {now : Instant} {stale : Duration} {db : Database} {requestId : RequestId}
  {lead : Request}

/-- A lead is listed when it has no delivery, or one that failed or stalled. -/
theorem listed_iff (hlead : db.requests.get? requestId = some lead) :
    (∃ row ∈ problems now stale db, row.requestId = requestId) ↔
      db.deliveriesOf requestId = [] ∨
      ∃ d ∈ db.deliveriesOf requestId, d.status = .failed ∨ d.stalled now stale = true := by
  have hid : lead.id = requestId := Table.key_of_get? hlead
  constructor
  · rintro ⟨row, hrow, rfl⟩
    rcases mem_problems.mp hrow with ⟨r, _, hnone, rfl⟩ | ⟨d, hd, r, hr, hfailed, rfl⟩ |
      ⟨d, hd, r, hr, hstalled, rfl⟩
    · refine Or.inl (List.filter_eq_nil_iff.mpr fun d hd heq => hnone d hd (eq_of_beq heq))
    · have hof : d.requestId = r.id := (Table.key_of_get? hr).symm
      exact Or.inr ⟨d, mem_deliveriesOf.mpr ⟨hd, hof⟩, Or.inl hfailed⟩
    · have hof : d.requestId = r.id := (Table.key_of_get? hr).symm
      exact Or.inr ⟨d, mem_deliveriesOf.mpr ⟨hd, hof⟩, Or.inr hstalled⟩
  · rintro (hnone | ⟨d, hd, hfailed | hstalled⟩)
    · refine ⟨.ofLead lead, mem_problems.mpr (Or.inl ⟨lead, Table.mem_of_get? hlead, ?_, rfl⟩), hid⟩
      intro d hd heq
      have hmem := mem_deliveriesOf.mpr ⟨hd, heq.trans hid⟩
      rw [hnone] at hmem
      cases hmem
    · obtain ⟨hrow, rfl⟩ := mem_deliveriesOf.mp hd
      exact ⟨_, mem_problems.mpr (Or.inr (Or.inl ⟨d, hrow, lead, hlead, hfailed, rfl⟩)), hid⟩
    · obtain ⟨hrow, rfl⟩ := mem_deliveriesOf.mp hd
      exact ⟨_, mem_problems.mpr (Or.inr (Or.inr ⟨d, hrow, lead, hlead, hstalled, rfl⟩)), hid⟩

/-- A lead that is not listed is in order: every delivery is done, or is open and
was created within the threshold. -/
theorem inOrder_of_not_listed (hlead : db.requests.get? requestId = some lead)
    (h : ¬ ∃ row ∈ problems now stale db, row.requestId = requestId) :
    db.deliveriesOf requestId ≠ [] ∧ ∀ d ∈ db.deliveriesOf requestId,
      d.status = .delivered ∨ (d.unresolved = true ∧ now - stale ≤ d.createdAt) := by
  rw [listed_iff hlead, not_or] at h
  obtain ⟨hsome, hnone⟩ := h
  refine ⟨hsome, fun d hd => ?_⟩
  have hfresh : d.unresolved = true → now - stale ≤ d.createdAt := by
    intro hopen
    by_contra hlate
    refine hnone ⟨d, hd, Or.inr ?_⟩
    rw [Delivery.stalled, hopen, Bool.true_and]
    exact decide_eq_true (not_le.mp hlate)
  cases hstatus : d.status with
  | pending =>
      have hopen : d.unresolved = true := by rw [Delivery.unresolved, hstatus]; rfl
      exact Or.inr ⟨hopen, hfresh hopen⟩
  | inFlight =>
      have hopen : d.unresolved = true := by rw [Delivery.unresolved, hstatus]; rfl
      exact Or.inr ⟨hopen, hfresh hopen⟩
  | delivered => exact Or.inl rfl
  | failed => exact absurd ⟨d, hd, Or.inl hstatus⟩ hnone

/-- Only leads in progress and delivered ones may be missing from the list. -/
theorem listed_of_state (hlead : db.requests.get? requestId = some lead)
    (h : db.leadState requestId = .noRecipients ∨ db.leadState requestId = .failed ∨
      db.leadState requestId = .partiallyDelivered) :
    ∃ row ∈ problems now stale db, row.requestId = requestId := by
  rw [listed_iff hlead]
  rcases requestState_cases ((db.deliveriesOf requestId).map Delivery.status) with
    ⟨hnone, _⟩ | ⟨_, hstate⟩ | ⟨_, hstate⟩ | ⟨s, hs, hfailed⟩
  · exact Or.inl (List.map_eq_nil_iff.mp hnone)
  · rw [Database.leadState, hstate] at h
    rcases h with h | h | h <;> cases h
  · rw [Database.leadState, hstate] at h
    rcases h with h | h | h <;> cases h
  · obtain ⟨d, hd, rfl⟩ := List.mem_map.mp hs
    exact Or.inr ⟨d, hd, Or.inl hfailed⟩

/-- No delivery is listed twice. -/
theorem problems_deliveryId_nodup :
    ((problems now stale db).filterMap ProblemRow.deliveryId).Nodup := by
  have hids : ((db.joined.map Prod.fst).map Delivery.id).Nodup :=
    db.deliveries.nodup.sublist ((join_sublist _ _ _ (fun _ _ => rfl) _).map Delivery.id)
  rw [List.map_map] at hids
  have hlead : ∀ leads : List Request,
      leads.filterMap (ProblemRow.deliveryId ∘ ProblemRow.ofLead) = [] :=
    fun leads => List.filterMap_eq_nil_iff.mpr fun _ _ => rfl
  rw [problems, List.filterMap_append, List.filterMap_append, List.filterMap_map,
    List.filterMap_map, List.filterMap_map, hlead, List.nil_append]
  show (List.filterMap (some ∘ (Delivery.id ∘ Prod.fst)) _ ++
    List.filterMap (some ∘ (Delivery.id ∘ Prod.fst)) _).Nodup
  rw [List.filterMap_eq_map, List.nodup_append]
  refine ⟨hids.sublist (List.filter_sublist.map _), hids.sublist (List.filter_sublist.map _), ?_⟩
  -- a delivery is not failed and open at once
  intro a ha b hb heq
  obtain ⟨p, hp, rfl⟩ := List.mem_map.mp ha
  obtain ⟨q, hq, rfl⟩ := List.mem_map.mp hb
  obtain ⟨hp, hfailed⟩ := List.mem_filter.mp hp
  obtain ⟨hq, hstalled⟩ := List.mem_filter.mp hq
  have hsame : p.1 = q.1 := Table.eq_of_key_eq (mem_joined.mp hp).1 (mem_joined.mp hq).1 heq
  have hopen : p.1.unresolved = true := by
    rw [hsame]
    exact (Bool.and_eq_true_iff.mp hstalled).1
  rw [Delivery.unresolved, eq_of_beq hfailed] at hopen
  cases hopen

end Listed

end LeadQueue
