import LeadQueue.Guarantees.PayloadStorage
import LeadQueue.Intake.Constraints
import LeadQueue.Schemas.Body

/-!
# How many deliveries a lead can have

`max_recipients_per_request` bounds the recipients of one body. Deliveries are
also created by `attachRecipients`, where nothing counts: the bound holds as
long as no attachment brings more new URLs than there is room for.
-/

namespace LeadQueue

open Relational Transition

def Database.recipientCount (db : Database) (requestId : RequestId) : ℕ :=
  db.deliveries.rows.countP fun d => d.requestId == requestId

/-- The distinct URLs that the lead has no delivery for. -/
def Database.newUrls (db : Database) (requestId : RequestId) (recipients : List RecipientIn) :
    Finset PyStr :=
  (recipients.map RecipientIn.url).toFinset.filter fun url =>
    ∀ d ∈ db.deliveries.rows, d.requestId = requestId → d.recipientUrl.str ≠ url

/-! ## Counting an insert -/

section Insert

variable {gen : Generated} {requestId : RequestId} {recipients : List RecipientIn}
  {rows : List RecipientRow} {db db' : Database} {ids : List DeliveryId}

variable (gen) in
theorem urls_proposedRows (hbound : Bound recipients rows) :
    (proposedRows gen rows).map (fun p => p.1.url.str) = recipients.map RecipientIn.url := by
  rw [← hbound.urls, ← map_fst_proposedRows gen rows, List.map_map, map_fst_proposedRows]
  rfl

theorem urls_newTargets_nodup (hbound : Bound (dedupe recipients) rows) :
    ((newTargets requestId db (proposedRows gen rows)).map fun p => p.1.url.str).Nodup := by
  have hall : ((proposedRows gen rows).map fun p => p.1.url.str).Nodup := by
    rw [urls_proposedRows gen hbound]
    exact dedupe_nodup _
  exact hall.sublist (List.filter_sublist.map _)

variable (gen) in
/-- The rows without a conflict are those of the new URLs. -/
theorem urls_newTargets (hbound : Bound (dedupe recipients) rows) :
    ((newTargets requestId db (proposedRows gen rows)).map fun p => p.1.url.str).toFinset =
      db.newUrls requestId recipients := by
  ext u
  rw [List.mem_toFinset, Database.newUrls, Finset.mem_filter, List.mem_toFinset,
    ← url_mem_dedupe, ← urls_proposedRows gen hbound, List.mem_map, List.mem_map]
  constructor
  · rintro ⟨p, hp, rfl⟩
    obtain ⟨hmem, hfree⟩ := mem_newTargets.mp hp
    exact ⟨⟨p, hmem, rfl⟩, fun d hd hr heq => hfree d hd hr (PgText.ext heq)⟩
  · rintro ⟨⟨p, hmem, rfl⟩, hfree⟩
    exact ⟨p, mem_newTargets.mpr ⟨hmem, fun d hd hr heq => hfree d hd hr (congrArg _ heq)⟩, rfl⟩

/-- There is one for each new URL. -/
theorem length_newTargets (hbound : Bound (dedupe recipients) rows) :
    (newTargets requestId db (proposedRows gen rows)).length =
      (db.newUrls requestId recipients).card := by
  rw [← urls_newTargets gen hbound,
    List.toFinset_card_of_nodup (urls_newTargets_nodup hbound), List.length_map]

theorem Inserted.recipientCount {now : Instant} {proposed : List (RecipientRow × DeliveryId)}
    (h : Inserted now requestId proposed db db' ids) (other : RequestId) :
    db'.recipientCount other =
      db.recipientCount other + if other = requestId then
        (newTargets requestId db proposed).length else 0 := by
  unfold Database.recipientCount
  rw [h.deliveries, List.countP_append, List.countP_map]
  congr 1
  split
  · rename_i heq
    subst heq
    rw [List.countP_eq_length]
    intro p _
    exact beq_self_eq_true other
  · rename_i hne
    rw [List.countP_eq_zero]
    intro p _ heq
    exact hne (eq_of_beq heq).symm

end Insert

/-- An attachment adds as many deliveries as it brings new URLs. -/
theorem recipientCount_attach {gen : Generated} {requestId : RequestId}
    {recipients : List RecipientIn} {db db' : Database} {answer : AttachRecipientsResponse}
    (h : attachRecipients gen requestId recipients db = .ok (some (db', answer)))
    (other : RequestId) :
    db'.recipientCount other = db.recipientCount other +
      if other = requestId then (db.newUrls requestId recipients).card else 0 := by
  obtain ⟨_, rows, hbound, hins⟩ := attachRecipients_spec h
  rw [hins.recipientCount other, length_newTargets hbound]

/-- The limit survives an attachment exactly when there is room for its new
URLs. -/
theorem attach_within_limit_iff {settings : Settings} {gen : Generated} {requestId : RequestId}
    {recipients : List RecipientIn} {db db' : Database} {answer : AttachRecipientsResponse}
    (h : attachRecipients gen requestId recipients db = .ok (some (db', answer)))
    (hdb : ∀ other, db.recipientCount other ≤ settings.maxRecipientsPerRequest) :
    (∀ other, db'.recipientCount other ≤ settings.maxRecipientsPerRequest) ↔
      db.recipientCount requestId + (db.newUrls requestId recipients).card ≤
        settings.maxRecipientsPerRequest := by
  constructor
  · intro hall
    have hcount := hall requestId
    rwa [recipientCount_attach h, if_pos rfl] at hcount
  · intro hfits other
    rw [recipientCount_attach h]
    split
    · rename_i heq
      rw [heq]
      exact hfits
    · exact hdb other

/-- A new lead has a delivery for each distinct URL of its body. -/
theorem Accepted.recipientCount_le {gen : Generated} {req : IntakeRequest} {db db' : Database}
    {answer : IntakeAccepted} (h : Accepted gen req db db' answer)
    (hlead : db.Referenced)
    (other : RequestId) :
    db'.recipientCount other ≤ db.recipientCount other ∨
      db'.recipientCount other ≤ req.recipients.length := by
  cases h with
  | duplicate => exact Or.inl le_rfl
  | @new sourceId key payload requests rows _ ids _ _ _ _ hins hbound hinserted =>
      rw [hinserted.recipientCount other]
      split
      · rename_i heq
        subst heq
        right
        -- nothing refers to an id that was free
        have hnone : db.recipientCount gen.requestId = 0 := by
          rw [Database.recipientCount, List.countP_eq_zero]
          intro d hd heq
          obtain ⟨lead, hsome⟩ := hlead d hd
          rw [eq_of_beq heq, Table.get?_eq_none_of_insert? hins] at hsome
          cases hsome
        have hnew : Database.recipientCount { db with requests := requests } gen.requestId = 0 :=
          hnone
        rw [hnew, length_newTargets hbound, Nat.zero_add]
        calc (Database.newUrls _ gen.requestId req.recipients).card
            ≤ (req.recipients.map RecipientIn.url).toFinset.card := Finset.card_filter_le _ _
          _ ≤ (req.recipients.map RecipientIn.url).length := List.toFinset_card_le _
          _ = req.recipients.length := List.length_map _
      · exact Or.inl le_rfl

/-! ## Runs -/

/-- The bodies the two endpoints let through. -/
def Event.ValidBody (settings : Settings) : Event → Prop
  | .accept _ req => ∃ lib body, validateIntake lib settings body = .ok req
  | .attach _ _ recipients => ∃ lib body, validateAttach lib body = .ok recipients
  | _ => True

/-- An attachment brings no more new URLs than there is room for. -/
def Service.AttachFits (settings : Settings) (s : Service) : Event → Prop
  | .attach _ requestId recipients =>
      s.db.recipientCount requestId + (s.db.newUrls requestId recipients).card ≤
        settings.maxRecipientsPerRequest
  | _ => True

/-- Updates that keep the target columns keep the counts. -/
theorem recipientCount_of_updates {db db' : Database}
    (hrows : ∀ id, ∃ f : Delivery → Delivery, (∀ d : Delivery, d.SameTarget (f d)) ∧
      db'.deliveries.get? id = (db.deliveries.get? id).map f) (requestId : RequestId) :
    db'.recipientCount requestId = db.recipientCount requestId := by
  apply Table.countP_eq_of_get?
  intro id
  obtain ⟨f, htarget, hmap⟩ := hrows id
  constructor
  · rintro ⟨d', hd', hrequest⟩
    obtain ⟨d, hd, rfl⟩ := Option.map_eq_some_iff.mp (hmap.symm.trans hd')
    exact ⟨d, hd, (htarget d).requestId ▸ hrequest⟩
  · rintro ⟨d, hd, hrequest⟩
    exact ⟨f d, by rw [hmap, hd]; rfl, by rwa [(htarget d).requestId]⟩

/-- A step with a valid body keeps the limit exactly when it is no attachment
that brings too much. -/
theorem Service.step_within_limit_iff {settings : Settings} {s t : Service} {e : Event}
    (h : Service.step settings s e = some t) (hbody : e.ValidBody settings)
    (hlead : s.db.Referenced)
    (hs : ∀ requestId, s.db.recipientCount requestId ≤ settings.maxRecipientsPerRequest) :
    (∀ requestId, t.db.recipientCount requestId ≤ settings.maxRecipientsPerRequest) ↔
      s.AttachFits settings e := by
  by_cases hattach : ∃ gen requestId recipients, e = .attach gen requestId recipients
  · obtain ⟨gen, requestId, recipients, rfl⟩ := hattach
    obtain ⟨_, db, answer, hdb, rfl⟩ := Service.step_attach.mp h
    exact attach_within_limit_iff hdb hs
  have hfits : s.AttachFits settings e := by
    cases e with
    | attach gen requestId recipients => exact absurd ⟨gen, requestId, recipients, rfl⟩ hattach
    | _ => trivial
  refine iff_of_true (fun requestId => ?_) hfits
  rcases Service.step_targets h with ⟨gen, req, answer, rfl, _, haccept⟩ |
    ⟨gen, requestId, recipients, _, rfl, _⟩ | ⟨_, hrows⟩
  · obtain ⟨lib, body, hvalid⟩ := hbody
    have hlimit := (checkLimits_eq_ok (validateIntake_eq_ok_iff.mp hvalid).limits).2.2
    rcases (acceptRequest_spec haccept).recipientCount_le hlead requestId with hle | hle
    · exact hle.trans (hs requestId)
    · exact hle.trans hlimit
  · exact absurd ⟨gen, requestId, recipients, rfl⟩ hattach
  · rw [recipientCount_of_updates hrows]
    exact hs requestId

/-- As long as every attachment fits, no lead has more deliveries than
`max_recipients_per_request`, and the first that does not fit breaks the limit. -/
theorem recipients_within_limit {settings : Settings} {s : Service}
    (h : (service settings).ReachableBy
      (fun s e => e.ValidBody settings ∧ s.AttachFits settings e) s) :
    (∀ requestId, s.db.recipientCount requestId ≤ settings.maxRecipientsPerRequest) ∧
      ∀ e t, e.ValidBody settings → Service.step settings s e = some t →
        ((∀ requestId, t.db.recipientCount requestId ≤ settings.maxRecipientsPerRequest) ↔
          s.AttachFits settings e) := by
  have hwithin : ∀ requestId,
      s.db.recipientCount requestId ≤ settings.maxRecipientsPerRequest := by
    induction h with
    | init h0 =>
        obtain ⟨clock, rfl⟩ := h0
        exact fun _ => Nat.zero_le _
    | step hs hok hstep ih =>
        exact (Service.step_within_limit_iff hstep hok.1 (referenced_of_reachable hs) ih).mpr hok.2
  exact ⟨hwithin, fun e t hbody hstep =>
    Service.step_within_limit_iff hstep hbody (referenced_of_reachable h) hwithin⟩

/-- One recipient for each lead. -/
def oneRecipient : Settings :=
  { Settings.default with
    maxRecipientsPerRequest := 1
    maxRecipientsPerRequest_pos := Nat.one_pos }

/-- A lead for one recipient. -/
def oneRecipientLead : IntakeRequest where
  sourceId := .ofString "site"
  idempotencyKey := .ofString "k1"
  payload := (formBody .null).payload
  recipients := [⟨.ofString "https://crm.example.com/leads", none,
    .ofString "https://crm.example.com:443"⟩]

def otherRecipient : RecipientIn :=
  ⟨.ofString "https://mail.example.com/leads", none, .ofString "https://mail.example.com:443"⟩

theorem oneRecipientLead_valid :
    validateIntake asciiLibrary oneRecipient (formBody .null) = .ok oneRecipientLead := rfl

theorem otherRecipient_valid :
    validateAttach asciiLibrary [⟨otherRecipient.url, none⟩] = .ok [otherRecipient] := rfl

theorem recipients_within_limit_attachedAgain :
    ∃ s : Service, s.db.recipientCount 1 = 1 ∧
      s.db.recipientCount 1 ≤ oneRecipient.maxRecipientsPerRequest := by
  have haccept : (service oneRecipient).ReachableBy
      (fun s e => e.ValidBody oneRecipient ∧ s.AttachFits oneRecipient e) _ :=
    @Machine.ReachableBy.step _ _ _ _ _ _ (.accept ⟨0, 1, fun _ => 10⟩ oneRecipientLead)
      (.init ⟨0, rfl⟩) ⟨⟨_, _, oneRecipientLead_valid⟩, trivial⟩ rfl
  have hvalid : validateAttach asciiLibrary (formBody .null).recipients =
      .ok oneRecipientLead.recipients := rfl
  have hattach : (service oneRecipient).ReachableBy
      (fun s e => e.ValidBody oneRecipient ∧ s.AttachFits oneRecipient e) _ :=
    @Machine.ReachableBy.step _ _ _ _ _ _
      (.attach ⟨0, 0, fun _ => 11⟩ 1 oneRecipientLead.recipients) haccept
      ⟨⟨_, _, hvalid⟩, by
        show (_ : ℕ) ≤ _
        decide +kernel⟩ rfl
  exact ⟨_, by decide +kernel, (recipients_within_limit hattach).1 1⟩

/-- The lead is accepted with the recipient it may have, and another one is
attached to it. -/
theorem attach_passes_limit :
    ∃ s, (service oneRecipient).ReachableBy (fun _ e => e.ValidBody oneRecipient) s ∧
      oneRecipient.maxRecipientsPerRequest < s.db.recipientCount 1 := by
  have haccept : (service oneRecipient).ReachableBy (fun _ e => e.ValidBody oneRecipient) _ :=
    @Machine.ReachableBy.step _ _ _ _ _ _ (.accept ⟨0, 1, fun _ => 10⟩ oneRecipientLead)
      (.init ⟨0, rfl⟩) ⟨_, _, oneRecipientLead_valid⟩ rfl
  have hattach : (service oneRecipient).ReachableBy (fun _ e => e.ValidBody oneRecipient) _ :=
    @Machine.ReachableBy.step _ _ _ _ _ _ (.attach ⟨0, 0, fun _ => 11⟩ 1 [otherRecipient])
      haccept ⟨_, _, otherRecipient_valid⟩ rfl
  exact ⟨_, hattach, by decide +kernel⟩

end LeadQueue
