import LeadQueue.Intake.Constraints
import LeadQueue.Library.Machine
import Mathlib.Logic.Function.Basic

/-!
# Overlapping intake

Any number of `acceptRequest` transactions side by side, statement by statement.
What an open transaction has inserted is seen by itself alone until it commits.
An insert of a key, or of an id, that an open transaction has inserted waits for
that transaction: it cannot happen while the other one is open. A transaction
may be rolled back at any point before its commit.
-/

namespace LeadQueue

open Relational Transition

/-- The row of `_INSERT_REQUEST`. -/
def requestRow (gen : Generated) (req : IntakeRequest) : Except Raised Request := do
  let sourceId ← textParam req.sourceId
  let idempotencyKey ← textParam req.idempotencyKey
  let payload ← jsonbParam req.payload
  return ⟨gen.requestId, sourceId, idempotencyKey, payload, gen.now⟩

/-- Where a call stands. -/
inductive IntakeCall where
  | ready
  /-- `_INSERT_REQUEST` has returned a row. -/
  | inserted (lead : Request)
  /-- `_INSERT_DELIVERIES` has run. -/
  | queued (lead : Request) (deliveries : List Delivery)
  /-- `_INSERT_REQUEST` has returned no row. -/
  | conflicted (lead : Request)
  /-- `_SELECT_EXISTING` has run. -/
  | answered (answer : IntakeAccepted)
  | committed (answer : IntakeAccepted)
  | aborted

namespace IntakeCall

/-- The lead an open call has inserted. -/
def lead? : IntakeCall → Option Request
  | inserted lead | queued lead _ => some lead
  | _ => none

/-- The deliveries an open call has inserted. -/
def newDeliveries : IntakeCall → List Delivery
  | queued _ deliveries => deliveries
  | _ => []

/-- `BEGIN` without an end. -/
def open_ : IntakeCall → Prop
  | committed _ | aborted => False
  | _ => True

end IntakeCall

structure IntakeState (ι : Type) where
  db : Database
  calls : ι → IntakeCall

inductive IntakeLabel (ι : Type) where
  | insert (i : ι)
  | select (i : ι)
  | queue (i : ι)
  | commit (i : ι)
  | abort (i : ι)

/-- A lead with the same key. -/
def Request.SameKey (r r' : Request) : Prop :=
  r.sourceId = r'.sourceId ∧ r.idempotencyKey = r'.idempotencyKey

variable {ι : Type} [DecidableEq ι]

/-- Move one call. -/
def IntakeState.set (s : IntakeState ι) (i : ι) (call : IntakeCall) : IntakeState ι :=
  { s with calls := Function.update s.calls i call }

/-- One statement of one call, or the end of its transaction. -/
inductive IntakeStep (gen : ι → Generated) (req : ι → IntakeRequest) :
    IntakeState ι → IntakeLabel ι → IntakeState ι → Prop where
  | insert {s : IntakeState ι} {i : ι} {lead : Request} {requests : Table Request.id} :
      s.calls i = .ready → requestRow (gen i) (req i) = .ok lead →
      (∀ r ∈ s.db.requests.rows, ¬ lead.SameKey r) →
      (∀ j other, (s.calls j).lead? = some other → ¬ lead.SameKey other ∧ lead.id ≠ other.id) →
      s.db.requests.insert? lead = some requests →
      IntakeStep gen req s (.insert i) (s.set i (.inserted lead))
  | conflict {s : IntakeState ι} {i : ι} {lead existing : Request} :
      s.calls i = .ready → requestRow (gen i) (req i) = .ok lead →
      existing ∈ s.db.requests.rows → lead.SameKey existing →
      IntakeStep gen req s (.insert i) (s.set i (.conflicted lead))
  | select {s : IntakeState ι} {i : ι} {lead existing : Request} :
      s.calls i = .conflicted lead →
      existing ∈ s.db.requests.rows → lead.SameKey existing →
      IntakeStep gen req s (.select i) (s.set i (.answered ⟨existing.id, true,
        existing.receivedAt, s.db.deliveries.rows.countP fun d => d.requestId == existing.id⟩))
  | queue {s : IntakeState ι} {i : ι} {lead : Request} {requests : Table Request.id}
      {db : Database} {ids : List DeliveryId} {new : List Delivery} :
      s.calls i = .inserted lead → s.db.requests.insert? lead = some requests →
      insertDeliveries (gen i) lead.id (dedupe (req i).recipients)
        { s.db with requests := requests } = .ok (db, ids) →
      db.deliveries.rows = s.db.deliveries.rows ++ new →
      (∀ j, ∀ d ∈ (s.calls j).newDeliveries, d.id ∉ ids) →
      IntakeStep gen req s (.queue i) (s.set i (.queued lead new))
  | commit {s : IntakeState ι} {i : ι} {lead : Request} {new : List Delivery}
      {requests : Table Request.id} {deliveries : Table Delivery.id} :
      s.calls i = .queued lead new → s.db.requests.insert? lead = some requests →
      deliveries.rows = s.db.deliveries.rows ++ new →
      IntakeStep gen req s (.commit i)
        { db := ⟨requests, deliveries, s.db.deliveryAttempts⟩
          calls := Function.update s.calls i
            (.committed ⟨lead.id, false, lead.receivedAt, new.length⟩) }
  | commitAnswer {s : IntakeState ι} {i : ι} {answer : IntakeAccepted} :
      s.calls i = .answered answer →
      IntakeStep gen req s (.commit i) (s.set i (.committed answer))
  | abort {s : IntakeState ι} {i : ι} :
      (s.calls i).open_ → IntakeStep gen req s (.abort i) (s.set i .aborted)

/-- All calls start on an empty database. -/
def intake (gen : ι → Generated) (req : ι → IntakeRequest) :
    Machine (IntakeState ι) (IntakeLabel ι) where
  init s := s = ⟨.empty, fun _ => .ready⟩
  step := IntakeStep gen req

theorem IntakeStep.reachable {gen : ι → Generated} {req : ι → IntakeRequest}
    {s t : IntakeState ι} {e : IntakeLabel ι} (hs : (intake gen req).Reachable s)
    (h : IntakeStep gen req s e t) : (intake gen req).Reachable t := hs.step trivial h

/-! ## The state of a call -/

@[simp] theorem IntakeState.calls_set_self (s : IntakeState ι) (i : ι) (call : IntakeCall) :
    (s.set i call).calls i = call := Function.update_self ..

theorem IntakeState.calls_set_of_ne {s : IntakeState ι} {i j : ι} {call : IntakeCall}
    (h : j ≠ i) : (s.set i call).calls j = s.calls j := Function.update_of_ne h ..

/-- A committed call holds no lead: the holder is another one. -/
theorem lead?_update_committed {calls : ι → IntakeCall} {i j : ι} {answer : IntakeAccepted}
    {l : Request} (h : (Function.update calls i (.committed answer) j).lead? = some l) :
    (calls j).lead? = some l := by
  by_cases hj : j = i
  · subst hj
    rw [Function.update_self] at h
    cases h
  · rwa [Function.update_of_ne hj] at h

theorem newDeliveries_update_committed {calls : ι → IntakeCall} {i j : ι}
    {answer : IntakeAccepted} {d : Delivery}
    (h : d ∈ (Function.update calls i (.committed answer) j).newDeliveries) :
    d ∈ (calls j).newDeliveries := by
  by_cases hj : j = i
  · subst hj
    rw [Function.update_self] at h
    cases h
  · rwa [Function.update_of_ne hj] at h

/-- The rows a new lead's recipients become, in order. -/
def leadDeliveries (gen : Generated) (lead : Request) (rows : List RecipientRow) : List Delivery :=
  (proposedRows gen rows).map fun p => newDelivery gen.now lead.id p.2 p.1

/-- What holds of a call in each of its states. -/
def IntakeCall.Coherent (gen : Generated) (req : IntakeRequest) (db : Database) :
    IntakeCall → Prop
  | ready | aborted => True
  | inserted lead =>
      requestRow gen req = .ok lead ∧ (∀ r ∈ db.requests.rows, ¬ lead.SameKey r) ∧
        db.requests.get? lead.id = none
  | queued lead new =>
      requestRow gen req = .ok lead ∧ (∀ r ∈ db.requests.rows, ¬ lead.SameKey r) ∧
        db.requests.get? lead.id = none ∧
        ∃ rows, Bound (dedupe req.recipients) rows ∧ new = leadDeliveries gen lead rows ∧
          (new.map Delivery.id).Nodup ∧ ∀ d ∈ new, db.deliveries.get? d.id = none
  | conflicted lead => requestRow gen req = .ok lead ∧ ∃ r ∈ db.requests.rows, lead.SameKey r
  | answered answer =>
      ∃ lead, requestRow gen req = .ok lead ∧ ∃ r ∈ db.requests.rows, lead.SameKey r ∧
        answer = ⟨r.id, true, r.receivedAt,
          db.deliveries.rows.countP fun d => d.requestId == r.id⟩
  | committed answer =>
      ∃ lead, requestRow gen req = .ok lead ∧ ∃ r ∈ db.requests.rows, lead.SameKey r ∧
        answer.requestId = r.id ∧ answer.receivedAt = r.receivedAt ∧
        (answer.duplicate = false → r = lead ∧
          ∃ rows, Bound (dedupe req.recipients) rows ∧ answer.recipientCount = rows.length ∧
            (db.deliveries.rows.filter fun d => d.requestId == lead.id) =
              leadDeliveries gen lead rows)

/-- What holds in every reachable state. -/
structure IntakeInv (gen : ι → Generated) (req : ι → IntakeRequest) (s : IntakeState ι) :
    Prop where
  constrained : s.db.Constrained
  referenced : s.db.Referenced
  calls : ∀ i, (s.calls i).Coherent (gen i) (req i) s.db
  /-- Open calls hold different keys and ids. -/
  leadsApart : ∀ i j l l', i ≠ j → (s.calls i).lead? = some l → (s.calls j).lead? = some l' →
    ¬ l.SameKey l' ∧ l.id ≠ l'.id
  deliveriesApart : ∀ i j, i ≠ j → ∀ d ∈ (s.calls i).newDeliveries,
    ∀ d' ∈ (s.calls j).newDeliveries, d.id ≠ d'.id
  /-- Every lead was stored by one call. -/
  stored : ∀ r ∈ s.db.requests.rows, ∃ i answer, s.calls i = .committed answer ∧
    answer.duplicate = false ∧ answer.requestId = r.id
  once : ∀ i j a b, s.calls i = .committed a → s.calls j = .committed b →
    a.duplicate = false → b.duplicate = false → a.requestId = b.requestId → i = j

/-! ## A commit -/

theorem Request.sameKey_iff_hasKey {lead r : Request} :
    lead.SameKey r ↔ r.hasKey lead.sourceId lead.idempotencyKey = true := by
  rw [Request.hasKey_iff, Request.SameKey, eq_comm, @eq_comm _ lead.idempotencyKey]

theorem requestRow_eq_ok {gen : Generated} {req : IntakeRequest} {lead : Request}
    (h : requestRow gen req = .ok lead) :
    textParam req.sourceId = .ok lead.sourceId ∧
      textParam req.idempotencyKey = .ok lead.idempotencyKey ∧
      jsonbParam req.payload = .ok lead.payload ∧ lead.id = gen.requestId ∧
      lead.receivedAt = gen.now := by
  obtain ⟨sourceId, hsource, h⟩ := Fallible.bind_eq_ok_iff.mp h
  obtain ⟨key, hkey, h⟩ := Fallible.bind_eq_ok_iff.mp h
  obtain ⟨payload, hpayload, h⟩ := Fallible.bind_eq_ok_iff.mp h
  cases h
  exact ⟨hsource, hkey, hpayload, rfl, rfl⟩

section Publish

variable {gen : Generated} {req : IntakeRequest} {db : Database} {lead : Request}
  {rows : List RecipientRow} {requests : Table Request.id} {deliveries : Table Delivery.id}

/-- Nothing refers to an id that is free. -/
theorem ne_of_free (hreferenced : db.Referenced) (hfree : db.requests.get? lead.id = none)
    {d : Delivery} (hd : d ∈ db.deliveries.rows) : d.requestId ≠ lead.id := by
  intro heq
  obtain ⟨known, hknown⟩ := hreferenced d hd
  rw [heq, hfree] at hknown
  cases hknown

theorem requestId_of_mem_leadDeliveries {d : Delivery} (h : d ∈ leadDeliveries gen lead rows) :
    d.requestId = lead.id := by
  obtain ⟨p, _, rfl⟩ := List.mem_map.mp h
  rfl

/-- A new lead meets no conflict. -/
theorem newTargets_of_free (hreferenced : db.Referenced)
    (hfree : db.requests.get? lead.id = none) :
    newTargets lead.id { db with requests := requests } (proposedRows gen rows) =
      proposedRows gen rows := by
  apply List.filter_eq_self.mpr
  intro p _
  rw [Bool.not_eq_true', List.any_eq_false]
  intro d hd hfor
  exact ne_of_free hreferenced hfree hd (Delivery.isFor_iff.mp hfor).1

/-- What a commit publishes is what `acceptRequest` does on the committed
state. -/
theorem accepted_of_publish (hrow : requestRow gen req = .ok lead)
    (hkey : ∀ r ∈ db.requests.rows, ¬ lead.SameKey r) (hreferenced : db.Referenced)
    (hins : db.requests.insert? lead = some requests) (hbound : Bound (dedupe req.recipients) rows)
    (hrows : deliveries.rows = db.deliveries.rows ++ leadDeliveries gen lead rows) :
    Accepted gen req db ⟨requests, deliveries, db.deliveryAttempts⟩
      ⟨lead.id, false, lead.receivedAt, (leadDeliveries gen lead rows).length⟩ := by
  obtain ⟨hsource, hkeyText, hpayload, hid, hnow⟩ := requestRow_eq_ok hrow
  have hfree := Table.get?_eq_none_of_insert? hins
  have hall := @newTargets_of_free gen db lead rows requests hreferenced hfree
  have hlead : (⟨gen.requestId, lead.sourceId, lead.idempotencyKey, lead.payload, gen.now⟩ :
      Request) = lead := by
    rw [← hid, ← hnow]
  have hnew := @Accepted.new gen req db lead.sourceId lead.idempotencyKey lead.payload requests
    rows ⟨requests, deliveries, db.deliveryAttempts⟩ ((proposedRows gen rows).map Prod.snd)
    hsource hkeyText hpayload
    (fun r hr => Bool.not_eq_true _ ▸ fun h => hkey r hr (Request.sameKey_iff_hasKey.mpr h))
    (by rw [hlead]; exact hins) hbound
    (hid ▸ ⟨rfl, rfl, by rw [hall]; exact hrows, by rw [hall]⟩)
  have hlength : ((proposedRows gen rows).map Prod.snd).length =
      (leadDeliveries gen lead rows).length := by
    rw [leadDeliveries, List.length_map, List.length_map]
  rwa [hlength, ← hid, ← hnow] at hnew

end Publish

/-! ## The invariant -/

theorem Request.SameKey.symm {r r' : Request} (h : r.SameKey r') : r'.SameKey r :=
  ⟨h.1.symm, h.2.symm⟩

/-- The commit of another call leaves a call as it is. -/
theorem IntakeCall.Coherent.publish {gen : Generated} {req : IntakeRequest} {db : Database}
    {call : IntakeCall} {lead : Request} {new : List Delivery} {requests : Table Request.id}
    {deliveries : Table Delivery.id} (h : call.Coherent gen req db)
    (hins : db.requests.insert? lead = some requests)
    (hrows : deliveries.rows = db.deliveries.rows ++ new) (hnew : ∀ d ∈ new, d.requestId = lead.id)
    (hleads : ∀ l, call.lead? = some l → ¬ l.SameKey lead ∧ l.id ≠ lead.id)
    (hids : ∀ d ∈ call.newDeliveries, ∀ d' ∈ new, d.id ≠ d'.id) :
    call.Coherent gen req ⟨requests, deliveries, db.deliveryAttempts⟩ := by
  have hfree := Table.get?_eq_none_of_insert? hins
  have hkeys : ∀ l : Request, ¬ l.SameKey lead → (∀ r ∈ db.requests.rows, ¬ l.SameKey r) →
      ∀ r ∈ requests.rows, ¬ l.SameKey r := by
    intro l hlead hall r hr
    rcases (Table.mem_insert? hins).mp hr with hr | rfl
    · exact hall r hr
    · exact hlead
  have hget : ∀ id, id ≠ lead.id → db.requests.get? id = none → requests.get? id = none := by
    intro id hne hnone
    rw [Table.get?_insert? hins, if_neg hne, hnone]
  have hkept : ∀ r ∈ db.requests.rows, r ∈ requests.rows ∧ r.id ≠ lead.id := by
    intro r hr
    refine ⟨(Table.mem_insert? hins).mpr (Or.inl hr), fun heq => ?_⟩
    have hsome := Table.get?_of_mem hr
    rw [heq, hfree] at hsome
    cases hsome
  -- the new rows belong to the new lead
  have hothers : ∀ id, id ≠ lead.id → (new.filter fun d => d.requestId == id) = [] := by
    intro id hne
    rw [List.filter_eq_nil_iff]
    intro d hd heq
    exact hne ((eq_of_beq heq).symm.trans (hnew d hd))
  cases call with
  | ready => trivial
  | aborted => trivial
  | inserted l =>
      obtain ⟨hrow, hkey, hnone⟩ := h
      obtain ⟨hapart, hne⟩ := hleads l rfl
      exact ⟨hrow, hkeys l hapart hkey, hget l.id hne hnone⟩
  | queued l ds =>
      obtain ⟨hrow, hkey, hnone, rows, hbound, hds, hnodup, hfresh⟩ := h
      obtain ⟨hapart, hne⟩ := hleads l rfl
      refine ⟨hrow, hkeys l hapart hkey, hget l.id hne hnone, rows, hbound, hds, hnodup, ?_⟩
      intro d hd
      rw [Table.get?_eq_none_iff]
      intro d' hd' heq
      rw [hrows, List.mem_append] at hd'
      rcases hd' with hd' | hd'
      · exact Table.get?_eq_none_iff.mp (hfresh d hd) d' hd' heq
      · exact hids d hd d' hd' heq.symm
  | conflicted l =>
      obtain ⟨hrow, r, hr, hkey⟩ := h
      exact ⟨hrow, r, (hkept r hr).1, hkey⟩
  | answered answer =>
      obtain ⟨l, hrow, r, hr, hkey, heq⟩ := h
      refine ⟨l, hrow, r, (hkept r hr).1, hkey, ?_⟩
      rw [hrows, List.countP_append, List.countP_eq_length_filter (l := new),
        hothers r.id (hkept r hr).2]
      exact heq
  | committed answer =>
      obtain ⟨l, hrow, r, hr, hkey, hid, hreceived, hwinner⟩ := h
      refine ⟨l, hrow, r, (hkept r hr).1, hkey, hid, hreceived, fun hfalse => ?_⟩
      obtain ⟨rfl, rows, hbound, hcount, hfilter⟩ := hwinner hfalse
      refine ⟨rfl, rows, hbound, hcount, ?_⟩
      rw [hrows, List.filter_append, hothers r.id (hkept r hr).2, List.append_nil]
      exact hfilter

section Steps

variable {gen : ι → Generated} {req : ι → IntakeRequest} {s : IntakeState ι}

/-- A statement that publishes nothing. -/
theorem IntakeInv.set (h : IntakeInv gen req s) {i : ι} {call : IntakeCall}
    (hcall : call.Coherent (gen i) (req i) s.db)
    (hleads : ∀ j l l', j ≠ i → call.lead? = some l → (s.calls j).lead? = some l' →
      ¬ l.SameKey l' ∧ l.id ≠ l'.id)
    (hids : ∀ j, j ≠ i → ∀ d ∈ call.newDeliveries, ∀ d' ∈ (s.calls j).newDeliveries, d.id ≠ d'.id)
    (hopen : (s.calls i).open_)
    (hafter : ∀ answer, call = .committed answer → answer.duplicate = true) :
    IntakeInv gen req (s.set i call) where
  constrained := h.constrained
  referenced := h.referenced
  calls j := by
    by_cases hj : j = i
    · subst hj
      rw [IntakeState.calls_set_self]
      exact hcall
    · rw [IntakeState.calls_set_of_ne hj]
      exact h.calls j
  leadsApart j k l l' hne hl hl' := by
    by_cases hj : j = i
    · subst hj
      rw [IntakeState.calls_set_self] at hl
      rw [IntakeState.calls_set_of_ne hne.symm] at hl'
      exact hleads k l l' hne.symm hl hl'
    · rw [IntakeState.calls_set_of_ne hj] at hl
      by_cases hk : k = i
      · subst hk
        rw [IntakeState.calls_set_self] at hl'
        obtain ⟨hkey, hid⟩ := hleads j l' l hj hl' hl
        exact ⟨fun hsame => hkey hsame.symm, hid.symm⟩
      · rw [IntakeState.calls_set_of_ne hk] at hl'
        exact h.leadsApart j k l l' hne hl hl'
  deliveriesApart j k hne d hd d' hd' := by
    by_cases hj : j = i
    · subst hj
      rw [IntakeState.calls_set_self] at hd
      rw [IntakeState.calls_set_of_ne hne.symm] at hd'
      exact hids k hne.symm d hd d' hd'
    · rw [IntakeState.calls_set_of_ne hj] at hd
      by_cases hk : k = i
      · subst hk
        rw [IntakeState.calls_set_self] at hd'
        exact (hids j hj d' hd' d hd).symm
      · rw [IntakeState.calls_set_of_ne hk] at hd'
        exact h.deliveriesApart j k hne d hd d' hd'
  stored r hr := by
    obtain ⟨j, answer, hj, hfalse, hid⟩ := h.stored r hr
    have hne : j ≠ i := by
      rintro rfl
      rw [hj] at hopen
      exact hopen
    exact ⟨j, answer, (IntakeState.calls_set_of_ne hne).trans hj, hfalse, hid⟩
  once j k a b hj hk ha hb hid := by
    have hother : ∀ j' c, (s.set i call).calls j' = .committed c → c.duplicate = false →
        j' ≠ i := by
      rintro j' c hc hfalse rfl
      rw [IntakeState.calls_set_self] at hc
      rw [hafter c hc] at hfalse
      cases hfalse
    rw [IntakeState.calls_set_of_ne (hother j a hj ha)] at hj
    rw [IntakeState.calls_set_of_ne (hother k b hk hb)] at hk
    exact h.once j k a b hj hk ha hb hid

/-- The same for a call that holds nothing afterwards. -/
theorem IntakeInv.set_empty (h : IntakeInv gen req s) {i : ι} {call : IntakeCall}
    (hcall : call.Coherent (gen i) (req i) s.db) (hopen : (s.calls i).open_)
    (hlead : call.lead? = none) (hnew : call.newDeliveries = [])
    (hafter : ∀ answer, call = .committed answer → answer.duplicate = true) :
    IntakeInv gen req (s.set i call) := by
  refine h.set hcall ?_ ?_ hopen hafter
  · intro j l l' _ hl
    rw [hlead] at hl
    cases hl
  · intro j _ d hd
    rw [hnew] at hd
    cases hd

/-- The commit of a new lead. -/
theorem IntakeInv.publish (h : IntakeInv gen req s) {i : ι} {lead : Request} {new : List Delivery}
    {requests : Table Request.id} {deliveries : Table Delivery.id}
    (hqueued : s.calls i = .queued lead new) (hins : s.db.requests.insert? lead = some requests)
    (hrows : deliveries.rows = s.db.deliveries.rows ++ new) :
    IntakeInv gen req
      { db := ⟨requests, deliveries, s.db.deliveryAttempts⟩
        calls := Function.update s.calls i
          (.committed ⟨lead.id, false, lead.receivedAt, new.length⟩) } := by
  have hcall := h.calls i
  rw [hqueued] at hcall
  obtain ⟨hrow, hkey, hfree, rows, hbound, rfl, _, _⟩ := hcall
  have haccepted := accepted_of_publish hrow hkey h.referenced hins hbound hrows
  have hlead : (s.calls i).lead? = some lead := by
    rw [hqueued]
    rfl
  have hown : (s.calls i).newDeliveries = leadDeliveries (gen i) lead rows := by
    rw [hqueued]
    rfl
  have hnew : ∀ d ∈ leadDeliveries (gen i) lead rows, d.requestId = lead.id :=
    fun d hd => requestId_of_mem_leadDeliveries hd
  -- of the others, a committed call's lead was stored before
  have hother : ∀ j a, j ≠ i → s.calls j = .committed a → a.duplicate = false →
      a.requestId ≠ lead.id := by
    intro j a _ hj hfalse heq
    have hcoherent := h.calls j
    rw [hj] at hcoherent
    obtain ⟨_, _, r, hr, _, hid, _⟩ := hcoherent
    have hsome := Table.get?_of_mem hr
    rw [← hid, heq, hfree] at hsome
    cases hsome
  refine ⟨haccepted.constrained h.constrained, ?_, fun j => ?_, fun j k l l' hne hl hl' => ?_,
    fun j k hne d hd d' hd' => ?_, fun r hr => ?_, fun j k a b hj hk ha hb hid => ?_⟩
  · intro d hd
    rw [hrows, List.mem_append] at hd
    rcases hd with hd | hd
    · obtain ⟨known, hknown⟩ := h.referenced d hd
      refine ⟨known, ?_⟩
      rw [Table.get?_insert? hins, if_neg (ne_of_free h.referenced hfree hd)]
      exact hknown
    · exact ⟨lead, by rw [hnew d hd, Table.get?_insert? hins, if_pos rfl]⟩
  · by_cases hj : j = i
    · subst hj
      dsimp only
      rw [Function.update_self]
      refine ⟨lead, hrow, lead, (Table.mem_insert? hins).mpr (Or.inr rfl), ⟨rfl, rfl⟩, rfl, rfl,
        fun _ => ⟨rfl, rows, hbound, ?_, ?_⟩⟩
      · show (leadDeliveries (gen j) lead rows).length = rows.length
        rw [leadDeliveries, List.length_map, ← List.length_map (f := Prod.fst),
          map_fst_proposedRows]
      · show deliveries.rows.filter _ = _
        rw [hrows, List.filter_append, List.filter_eq_nil_iff.mpr, List.nil_append,
          List.filter_eq_self.mpr]
        · exact fun d hd => beq_iff_eq.mpr (hnew d hd)
        · exact fun d hd heq => ne_of_free h.referenced hfree hd (eq_of_beq heq)
    · dsimp only
      rw [Function.update_of_ne hj]
      exact (h.calls j).publish hins hrows hnew
        (fun l hl => h.leadsApart j i l lead hj hl hlead)
        (fun d hd d' hd' => h.deliveriesApart j i hj d hd d' (hown ▸ hd'))
  · exact h.leadsApart j k l l' hne (lead?_update_committed hl) (lead?_update_committed hl')
  · exact h.deliveriesApart j k hne d (newDeliveries_update_committed hd) d'
      (newDeliveries_update_committed hd')
  · rcases (Table.mem_insert? hins).mp hr with hr | rfl
    · obtain ⟨j, answer, hj, hfalse, hid⟩ := h.stored r hr
      have hne : j ≠ i := by
        rintro rfl
        rw [hqueued] at hj
        cases hj
      exact ⟨j, answer, (Function.update_of_ne hne ..).trans hj, hfalse, hid⟩
    · exact ⟨i, _, Function.update_self .., rfl, rfl⟩
  · dsimp only at hj hk
    by_cases hji : j = i <;> by_cases hki : k = i
    · rw [hji, hki]
    · subst hji
      rw [Function.update_self] at hj
      rw [Function.update_of_ne hki] at hk
      obtain rfl := IntakeCall.committed.inj hj
      exact absurd hid.symm (hother k b hki hk hb)
    · subst hki
      rw [Function.update_self] at hk
      rw [Function.update_of_ne hji] at hj
      obtain rfl := IntakeCall.committed.inj hk
      exact absurd hid (hother j a hji hj ha)
    · rw [Function.update_of_ne hji] at hj
      rw [Function.update_of_ne hki] at hk
      exact h.once j k a b hj hk ha hb hid

theorem IntakeInv.step {t : IntakeState ι} {e : IntakeLabel ι} (h : IntakeInv gen req s)
    (hstep : IntakeStep gen req s e t) : IntakeInv gen req t := by
  cases hstep with
  | @insert i lead requests hready hrow hkey hwait hins =>
      have hopen : (s.calls i).open_ := by
        rw [hready]
        trivial
      refine h.set ⟨hrow, hkey, Table.get?_eq_none_of_insert? hins⟩ ?_ ?_ hopen ?_
      · intro j l l' _ hl hl'
        obtain rfl := Option.some.inj hl
        exact hwait j l' hl'
      · intro j _ d hd
        cases hd
      · intro answer heq
        cases heq
  | @conflict i lead existing hready hrow hmem hkey =>
      have hopen : (s.calls i).open_ := by
        rw [hready]
        trivial
      exact h.set_empty ⟨hrow, existing, hmem, hkey⟩ hopen rfl rfl fun answer heq => by cases heq
  | @select i lead existing hconflicted hmem hkey =>
      have hcall := h.calls i
      have hopen : (s.calls i).open_ := by
        rw [hconflicted]
        trivial
      rw [hconflicted] at hcall
      exact h.set_empty ⟨lead, hcall.1, existing, hmem, hkey, rfl⟩ hopen rfl rfl
        fun answer heq => by cases heq
  | @queue i lead requests db ids new hinserted hins hqueue hnew hwait =>
      have hcall := h.calls i
      have hopen : (s.calls i).open_ := by
        rw [hinserted]
        trivial
      have hlead : (s.calls i).lead? = some lead := by
        rw [hinserted]
        rfl
      rw [hinserted] at hcall
      obtain ⟨hrow, hkey, hfree⟩ := hcall
      obtain ⟨rows, hbound, hinsd⟩ := insertDeliveries_spec (dedupe_nodup _) hqueue
      have hall := @newTargets_of_free (gen i) s.db lead rows requests h.referenced hfree
      have heq : new = leadDeliveries (gen i) lead rows := by
        have hdel := hinsd.deliveries
        rw [hnew, hall] at hdel
        exact List.append_cancel_left hdel
      have hids : new.map Delivery.id = ids := by
        rw [hinsd.ids_eq, hall, heq, leadDeliveries, List.map_map]
        rfl
      have hnodup := db.deliveries.nodup
      rw [hnew, List.map_append, List.nodup_append] at hnodup
      obtain ⟨_, hnodup, hdisjoint⟩ := hnodup
      refine h.set ⟨hrow, hkey, hfree, rows, hbound, heq, hnodup, fun d hd => ?_⟩ ?_ ?_ hopen ?_
      · rw [Table.get?_eq_none_iff]
        intro d' hd' hsame
        exact hdisjoint _ (List.mem_map.mpr ⟨d', hd', rfl⟩) _ (List.mem_map.mpr ⟨d, hd, rfl⟩) hsame
      · intro j l l' hj hl hl'
        obtain rfl := Option.some.inj hl
        exact h.leadsApart i j lead l' (Ne.symm hj) hlead hl'
      · intro j _ d hd d' hd' hsame
        exact hwait j d' hd' (hids ▸ hsame ▸ List.mem_map.mpr ⟨d, hd, rfl⟩)
      · intro answer heq
        cases heq
  | commit hqueued hins hrows => exact h.publish hqueued hins hrows
  | @commitAnswer i answer hanswered =>
      have hcall := h.calls i
      have hopen : (s.calls i).open_ := by
        rw [hanswered]
        trivial
      rw [hanswered] at hcall
      obtain ⟨lead, hrow, r, hr, hkey, rfl⟩ := hcall
      refine h.set_empty ⟨lead, hrow, r, hr, hkey, rfl, rfl, fun hfalse => by cases hfalse⟩ hopen
        rfl rfl ?_
      intro answer heq
      cases heq
      rfl
  | @abort i hopen => exact h.set_empty trivial hopen rfl rfl fun answer heq => by cases heq

omit [DecidableEq ι] in
theorem IntakeInv.init : IntakeInv gen req ⟨.empty, fun _ => .ready⟩ where
  constrained := Database.empty_constrained
  referenced d hd := by cases hd
  calls _ := trivial
  leadsApart i j l l' _ hl := by cases hl
  deliveriesApart i j _ d hd := by cases hd
  stored r hr := by cases hr
  once i j a b hi := by cases hi

theorem intakeInv_of_reachable (h : (intake gen req).Reachable s) : IntakeInv gen req s := by
  induction h with
  | init h0 => exact h0 ▸ IntakeInv.init
  | step _ _ hstep ih => exact ih.step hstep

end Steps

/-! ## A commit is `acceptRequest` -/

theorem foldlM_insertDelivery_of_free {now : Instant} {requestId : RequestId}
    {proposed : List (RecipientRow × DeliveryId)} {db : Database} {ids : List DeliveryId}
    (hurls : (proposed.map fun p => p.1.url).Nodup) (hids : (proposed.map Prod.snd).Nodup)
    (hfresh : ∀ p ∈ proposed, db.deliveries.get? p.2 = none)
    (hfree : ∀ p ∈ proposed, db.deliveries.rows.any (Delivery.isFor requestId p.1.url) = false) :
    ∃ db', proposed.foldlM (insertDelivery now requestId) (db, ids) =
      .ok (db', ids ++ proposed.map Prod.snd) := by
  induction proposed generalizing db ids with
  | nil => exact ⟨db, by rw [List.map_nil, List.append_nil]; rfl⟩
  | cons p ps ih =>
      rw [List.map_cons, List.nodup_cons] at hurls hids
      rw [List.forall_mem_cons] at hfresh hfree
      obtain ⟨deliveries, hins⟩ := @Table.exists_insert? _ _ _ _ db.deliveries
        (newDelivery now requestId p.2 p.1) hfresh.1
      have hfirst : insertDelivery now requestId (db, ids) p =
          .ok ({ db with deliveries := deliveries }, ids ++ [p.2]) := by
        have hany : ¬ (db.deliveries.rows.any fun d => d.requestId == requestId &&
            d.recipientUrl == p.1.url) = true := by
          rw [Bool.not_eq_true]
          exact hfree.1
        unfold insertDelivery
        rw [if_neg hany, hins]
      -- the others meet no conflict with the row just inserted
      obtain ⟨db', hrest⟩ := @ih { db with deliveries := deliveries } (ids ++ [p.2]) hurls.2 hids.2
        (fun q hq => by
          show deliveries.get? q.2 = none
          rw [Table.get?_insert? hins, if_neg, hfresh.2 q hq]
          intro heq
          have hsame : q.2 = p.2 := heq
          exact hids.1 (hsame ▸ List.mem_map.mpr ⟨q, hq, rfl⟩))
        (fun q hq => by
          show deliveries.rows.any _ = false
          rw [Table.rows_insert? hins, any_isFor_append, hfree.2 q hq]
          exact fun heq => hurls.1 (heq ▸ List.mem_map.mpr ⟨q, hq, rfl⟩))
      refine ⟨db', ?_⟩
      rw [List.foldlM_cons, hfirst]
      apply hrest.trans
      rw [List.append_assoc]
      rfl

theorem Database.ext_rows {db db' : Database} (hrequests : db.requests.rows = db'.requests.rows)
    (hdeliveries : db.deliveries.rows = db'.deliveries.rows)
    (hjournal : db.deliveryAttempts = db'.deliveryAttempts) : db = db' := by
  obtain ⟨⟨_, _⟩, ⟨_, _⟩, _⟩ := db
  obtain ⟨⟨_, _⟩, ⟨_, _⟩, _⟩ := db'
  dsimp only at hrequests hdeliveries hjournal
  subst hrequests hdeliveries hjournal
  rfl

/-- A new lead whose ids are free is accepted. -/
theorem acceptRequest_of_free {gen : Generated} {req : IntakeRequest} {db : Database}
    {lead : Request} {rows : List RecipientRow} {requests : Table Request.id}
    {deliveries : Table Delivery.id} (hrow : requestRow gen req = .ok lead)
    (hkey : ∀ r ∈ db.requests.rows, ¬ lead.SameKey r) (hreferenced : db.Referenced)
    (hins : db.requests.insert? lead = some requests) (hbound : Bound (dedupe req.recipients) rows)
    (hrows : deliveries.rows = db.deliveries.rows ++ leadDeliveries gen lead rows) :
    acceptRequest gen req db = .ok (⟨requests, deliveries, db.deliveryAttempts⟩,
      ⟨lead.id, false, lead.receivedAt, (leadDeliveries gen lead rows).length⟩) := by
  obtain ⟨hsource, hkeyText, hpayload, hid, hnow⟩ := requestRow_eq_ok hrow
  have hfree := Table.get?_eq_none_of_insert? hins
  have hlead : (⟨gen.requestId, lead.sourceId, lead.idempotencyKey, lead.payload, gen.now⟩ :
      Request) = lead := by
    rw [← hid, ← hnow]
  have hfind : db.requests.rows.find? (fun r => r.sourceId == lead.sourceId &&
      r.idempotencyKey == lead.idempotencyKey) = none := by
    rw [List.find?_eq_none]
    intro r hr hhas
    exact hkey r hr (Request.sameKey_iff_hasKey.mpr hhas)
  have hids : (leadDeliveries gen lead rows).map Delivery.id =
      (proposedRows gen rows).map Prod.snd := by
    rw [leadDeliveries, List.map_map]
    rfl
  have hnodup := deliveries.nodup
  rw [hrows, List.map_append, List.nodup_append, hids] at hnodup
  obtain ⟨_, hnodup, hdisjoint⟩ := hnodup
  obtain ⟨db', hfold⟩ := @foldlM_insertDelivery_of_free gen.now lead.id (proposedRows gen rows)
    { db with requests := requests } [] (hbound.nodup (dedupe_nodup _)) hnodup
    (fun p hp => by
      rw [Table.get?_eq_none_iff]
      intro d hd heq
      exact hdisjoint _ (List.mem_map.mpr ⟨d, hd, rfl⟩) _ (List.mem_map.mpr ⟨p, hp, rfl⟩) heq)
    (fun p _ => by
      rw [List.any_eq_false]
      intro d hd hfor
      exact ne_of_free hreferenced hfree hd (Delivery.isFor_iff.mp hfor).1)
  have hdel : insertDeliveries gen lead.id (dedupe req.recipients)
      { db with requests := requests } = .ok (db', (proposedRows gen rows).map Prod.snd) := by
    unfold insertDeliveries
    rw [(Fallible.mapM_eq_ok_iff _ _ _).mpr hbound]
    exact hfold
  obtain ⟨new, hnew, hinserted⟩ := foldlM_insertDelivery (hbound.nodup (dedupe_nodup _)) hfold
  have hall := @newTargets_of_free gen db lead rows requests hreferenced hfree
  have hdb : db' = ⟨requests, deliveries, db.deliveryAttempts⟩ := by
    refine Database.ext_rows (congrArg Table.rows hinserted.requests) ?_ hinserted.journal
    rw [hinserted.deliveries, hall, hrows]
    rfl
  unfold acceptRequest
  simp only [hsource, hkeyText, hpayload, bind, Except.bind, hfind, hlead, hins]
  rw [← hid, hdel, hdb]
  simp only [pure, Except.pure, ← hnow, ← hids, List.length_map]

/-- Every commit is one `acceptRequest` on the committed state, whatever else is
open. -/
theorem commit_eq_acceptRequest {gen : ι → Generated} {req : ι → IntakeRequest}
    {s t : IntakeState ι} {i : ι} (h : (intake gen req).Reachable s)
    (hstep : IntakeStep gen req s (.commit i) t) :
    ∃ answer, t.calls i = .committed answer ∧
      acceptRequest (gen i) (req i) s.db = .ok (t.db, answer) := by
  have hinv := intakeInv_of_reachable h
  have hcall := hinv.calls i
  cases hstep with
  | commit hqueued hins hrows =>
      rw [hqueued] at hcall
      obtain ⟨hrow, hkey, _, rows, hbound, rfl, _⟩ := hcall
      exact ⟨_, Function.update_self .., acceptRequest_of_free hrow hkey hinv.referenced hins hbound
        hrows⟩
  | commitAnswer hanswered =>
      rw [hanswered] at hcall
      obtain ⟨lead, hrow, r, hr, hkey, rfl⟩ := hcall
      obtain ⟨hsource, hkeyText, hpayload, _, _⟩ := requestRow_eq_ok hrow
      refine ⟨_, s.calls_set_self i _, ?_⟩
      have hhas := Request.sameKey_iff_hasKey.mp hkey
      obtain ⟨r', hfind⟩ := Option.isSome_iff_exists.mp (List.find?_isSome.mpr ⟨r, hr, hhas⟩)
      have hsame : lead.SameKey r' := Request.sameKey_iff_hasKey.mpr (List.find?_some hfind)
      obtain rfl : r' = r := hinv.constrained.keys r' (List.mem_of_find?_eq_some hfind) r hr
        (hsame.1.symm.trans hkey.1) (hsame.2.symm.trans hkey.2)
      have hfind' : s.db.requests.rows.find? (fun r => r.sourceId == lead.sourceId &&
        r.idempotencyKey == lead.idempotencyKey) = some r' := hfind
      unfold acceptRequest
      simp only [hsource, hkeyText, hpayload, bind, Except.bind, hfind', pure, Except.pure]
      rfl

end LeadQueue
