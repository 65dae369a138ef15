import LeadQueue.Intake.Effect
import LeadQueue.Service

/-!
# The unique constraints

A lead is unique by (source, key) and a delivery by (lead, URL). No statement
but intake's inserts touches these columns, so both hold in every reachable
state because of the two conflict rules.
-/

namespace LeadQueue

open Relational Transition

/-- `requests_idempotency_unique` and `deliveries_request_recipient_unique`. -/
structure Database.Constrained (db : Database) : Prop where
  keys : ∀ r ∈ db.requests.rows, ∀ r' ∈ db.requests.rows, r.sourceId = r'.sourceId →
    r.idempotencyKey = r'.idempotencyKey → r = r'
  targets : ∀ d ∈ db.deliveries.rows, ∀ d' ∈ db.deliveries.rows, d.requestId = d'.requestId →
    d.recipientUrl = d'.recipientUrl → d = d'

theorem Database.empty_constrained : Database.empty.Constrained where
  keys r hr := by cases hr
  targets d hd := by cases hd

theorem mem_newTargets {requestId : RequestId} {db : Database}
    {proposed : List (RecipientRow × DeliveryId)} {p : RecipientRow × DeliveryId} :
    p ∈ newTargets requestId db proposed ↔ p ∈ proposed ∧
      ∀ d ∈ db.deliveries.rows, d.requestId = requestId → d.recipientUrl ≠ p.1.url := by
  unfold newTargets
  rw [List.mem_filter, Bool.not_eq_true', List.any_eq_false]
  simp only [Delivery.isFor_iff, not_and]

section Insert

variable {now : Instant} {requestId : RequestId} {proposed : List (RecipientRow × DeliveryId)}
  {db db' : Database} {ids : List DeliveryId}

theorem Inserted.mem_iff (h : Inserted now requestId proposed db db' ids) {d : Delivery} :
    d ∈ db'.deliveries.rows ↔ d ∈ db.deliveries.rows ∨
      ∃ p ∈ newTargets requestId db proposed, newDelivery now requestId p.2 p.1 = d := by
  rw [h.deliveries, List.mem_append, List.mem_map]

theorem Inserted.targets (h : Inserted now requestId proposed db db' ids)
    (hurls : (proposed.map fun p => p.1.url).Nodup)
    (hdb : ∀ d ∈ db.deliveries.rows, ∀ d' ∈ db.deliveries.rows, d.requestId = d'.requestId →
      d.recipientUrl = d'.recipientUrl → d = d') :
    ∀ d ∈ db'.deliveries.rows, ∀ d' ∈ db'.deliveries.rows, d.requestId = d'.requestId →
      d.recipientUrl = d'.recipientUrl → d = d' := by
  intro d hd d' hd' hrequest hurl
  rcases h.mem_iff.mp hd with hd | ⟨p, hp, rfl⟩ <;>
    rcases h.mem_iff.mp hd' with hd' | ⟨p', hp', rfl⟩
  · exact hdb d hd d' hd' hrequest hurl
  · exact absurd hurl ((mem_newTargets.mp hp').2 d hd hrequest)
  · exact absurd hurl.symm ((mem_newTargets.mp hp).2 d' hd' hrequest.symm)
  · have hsame : p = p' :=
      List.inj_on_of_nodup_map hurls (mem_newTargets.mp hp).1 (mem_newTargets.mp hp').1 hurl
    rw [hsame]

/-- Every proposed row is there in the end, as a new row or as the old one it
conflicts with. -/
theorem Inserted.exists_target (h : Inserted now requestId proposed db db' ids)
    {p : RecipientRow × DeliveryId} (hp : p ∈ proposed) :
    ∃ d ∈ db'.deliveries.rows, d.requestId = requestId ∧ d.recipientUrl = p.1.url := by
  by_cases hold : ∃ d ∈ db.deliveries.rows, d.requestId = requestId ∧ d.recipientUrl = p.1.url
  · obtain ⟨d, hd, hfor⟩ := hold
    exact ⟨d, h.mem_iff.mpr (Or.inl hd), hfor⟩
  · have hnew : p ∈ newTargets requestId db proposed :=
      mem_newTargets.mpr ⟨hp, fun d hd hof hurl => hold ⟨d, hd, hof, hurl⟩⟩
    exact ⟨_, h.mem_iff.mpr (Or.inr ⟨p, hnew, rfl⟩), rfl, rfl⟩

end Insert

theorem Accepted.constrained {gen : Generated} {req : IntakeRequest} {db db' : Database}
    {answer : IntakeAccepted} (h : Accepted gen req db db' answer) (hdb : db.Constrained) :
    db'.Constrained := by
  cases h with
  | duplicate => exact hdb
  | @new sourceId key payload requests rows _ ids _ _ _ hfree hins hbound hinserted =>
      refine ⟨?_, hinserted.targets (hbound.nodup (dedupe_nodup _)) hdb.targets⟩
      -- the new lead's key was free
      have hnew : ∀ r ∈ db.requests.rows, r.sourceId = sourceId → r.idempotencyKey ≠ key := by
        intro r hr hsource hkey
        have hfalse := hfree r hr
        rw [Request.hasKey_iff.mpr ⟨hsource, hkey⟩] at hfalse
        cases hfalse
      rw [hinserted.requests]
      intro r hr r' hr' hsource hkey
      rcases (Table.mem_insert? hins).mp hr with hr | rfl <;>
        rcases (Table.mem_insert? hins).mp hr' with hr' | rfl
      · exact hdb.keys r hr r' hr' hsource hkey
      · exact absurd hkey (hnew r hr hsource)
      · exact absurd hkey.symm (hnew r' hr' hsource.symm)
      · rfl

/-- Acceptance adds deliveries, and leaves the known ones alone. -/
theorem Accepted.mem {gen : Generated} {req : IntakeRequest} {db db' : Database}
    {answer : IntakeAccepted} (h : Accepted gen req db db' answer) {d : Delivery}
    (hd : d ∈ db.deliveries.rows) : d ∈ db'.deliveries.rows := by
  cases h with
  | duplicate => exact hd
  | new _ _ _ _ _ _ hinserted => exact hinserted.mem_iff.mpr (Or.inl hd)

/-! ## Every step -/

namespace Service

/-- A step is intake, or leaves the leads and the targets of the rows alone. -/
theorem step_targets {settings : Settings} {s t : Service} {e : Event}
    (h : step settings s e = some t) :
    (∃ gen req answer, e = .accept gen req ∧ gen.now ≤ s.clock ∧
      acceptRequest gen req s.db = .ok (t.db, answer)) ∨
    (∃ gen requestId recipients answer, e = .attach gen requestId recipients ∧
      gen.now ≤ s.clock ∧
      attachRecipients gen requestId recipients s.db = .ok (some (t.db, answer))) ∨
    (t.db.requests = s.db.requests ∧ ∀ id, ∃ f : Delivery → Delivery,
      (∀ d : Delivery, d.SameTarget (f d)) ∧
        t.db.deliveries.get? id = (s.db.deliveries.get? id).map f) := by
  rcases step_updates h with ⟨gen, ⟨req, rfl⟩ | ⟨requestId, recipients, rfl⟩⟩ | hupdates
  · obtain ⟨hnow, db, answer, heq, rfl⟩ := step_accept.mp h
    exact Or.inl ⟨gen, req, answer, rfl, hnow, heq⟩
  · obtain ⟨hnow, db, answer, heq, rfl⟩ := step_attach.mp h
    exact Or.inr (Or.inl ⟨gen, requestId, recipients, answer, rfl, hnow, heq⟩)
  · exact Or.inr (Or.inr hupdates)

end Service

/-- A delivery stays with its lead and its URL. -/
theorem Service.step_keeps_target {settings : Settings} {s t : Service} {e : Event}
    (h : Service.step settings s e = some t) {d : Delivery} (hd : d ∈ s.db.deliveries.rows) :
    ∃ d' ∈ t.db.deliveries.rows, d.SameTarget d' := by
  rcases Service.step_targets h with ⟨gen, req, answer, _, _, haccept⟩ |
    ⟨gen, requestId, recipients, answer, _, _, hattach⟩ | ⟨_, hrows⟩
  · exact ⟨d, (acceptRequest_spec haccept).mem hd, .refl d⟩
  · obtain ⟨_, _, _, hinserted⟩ := attachRecipients_spec hattach
    exact ⟨d, hinserted.mem_iff.mpr (Or.inl hd), .refl d⟩
  · obtain ⟨f, htarget, hmap⟩ := hrows d.id
    rw [Table.get?_of_mem hd] at hmap
    exact ⟨f d, Table.mem_of_get? hmap, htarget d⟩

/-- Updates that keep the target columns keep the constraints. -/
theorem Database.Constrained.of_updates {db db' : Database} (hdb : db.Constrained)
    (hrequests : db'.requests = db.requests)
    (hrows : ∀ id, ∃ f : Delivery → Delivery, (∀ d : Delivery, d.SameTarget (f d)) ∧
      db'.deliveries.get? id = (db.deliveries.get? id).map f) : db'.Constrained where
  keys := hrequests ▸ hdb.keys
  targets d hd d' hd' hrequest hurl := by
    have hold : ∀ x ∈ db'.deliveries.rows, ∃ y ∈ db.deliveries.rows, y.SameTarget x := by
      intro x hx
      obtain ⟨f, htarget, hmap⟩ := hrows x.id
      rw [Table.get?_of_mem hx] at hmap
      obtain ⟨y, hy, rfl⟩ := Option.map_eq_some_iff.mp hmap.symm
      exact ⟨y, Table.mem_of_get? hy, htarget y⟩
    obtain ⟨y, hy, hyd⟩ := hold d hd
    obtain ⟨y', hy', hyd'⟩ := hold d' hd'
    have hsame : y = y' := hdb.targets y hy y' hy'
      (hyd.requestId.symm.trans (hrequest.trans hyd'.requestId))
      (hyd.recipientUrl.symm.trans (hurl.trans hyd'.recipientUrl))
    apply Table.eq_of_key_eq hd hd'
    show d.id = d'.id
    rw [hyd.id, hyd'.id, hsame]

theorem Service.step_constrained {settings : Settings} {s t : Service} {e : Event}
    (h : Service.step settings s e = some t) (hs : s.db.Constrained) : t.db.Constrained := by
  rcases Service.step_targets h with ⟨gen, req, answer, _, _, haccept⟩ |
    ⟨gen, requestId, recipients, answer, _, _, hattach⟩ | ⟨hrequests, hrows⟩
  · exact (acceptRequest_spec haccept).constrained hs
  · obtain ⟨_, rows, hbound, hins⟩ := attachRecipients_spec hattach
    exact ⟨hins.requests ▸ hs.keys, hins.targets (hbound.nodup (dedupe_nodup _)) hs.targets⟩
  · exact hs.of_updates hrequests hrows

theorem constrained_of_reachable {settings : Settings} {ok : Service → Event → Prop} {s : Service}
    (h : (service settings).ReachableBy ok s) : s.db.Constrained := by
  induction h with
  | init h0 =>
      obtain ⟨clock, rfl⟩ := h0
      exact Database.empty_constrained
  | step _ _ hstep ih => exact Service.step_constrained hstep ih

end LeadQueue
