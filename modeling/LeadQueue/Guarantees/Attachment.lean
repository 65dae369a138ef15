import LeadQueue.Guarantees.RecipientLimit

/-!
# Attaching recipients, call after call

What a sequence of committed `attachRecipients` calls adds to a lead. The
deduplication drops repeats within a call and the conflict rule those across
calls, so the URLs of the lead become a union, and nothing that was there
changes.
-/

namespace LeadQueue

open Relational

/-- The URLs a lead has deliveries for. -/
def Database.deliveryUrls (db : Database) (requestId : RequestId) : Finset PyStr :=
  ((db.deliveries.rows.filter fun d => d.requestId = requestId).map
    fun d => d.recipientUrl.str).toFinset

theorem Database.mem_deliveryUrls {db : Database} {requestId : RequestId} {url : PyStr} :
    url ∈ db.deliveryUrls requestId ↔
      ∃ d ∈ db.deliveries.rows, d.requestId = requestId ∧ d.recipientUrl.str = url := by
  simp [Database.deliveryUrls, and_assoc]

/-- The distinct URLs of a list. -/
def distinctUrls (recipients : List RecipientIn) : Finset PyStr :=
  (recipients.map RecipientIn.url).toFinset

theorem Database.newUrls_eq (db : Database) (requestId : RequestId)
    (recipients : List RecipientIn) :
    db.newUrls requestId recipients = distinctUrls recipients \ db.deliveryUrls requestId := by
  ext url
  rw [Database.newUrls, Finset.mem_filter, Finset.mem_sdiff, Database.mem_deliveryUrls,
    distinctUrls]
  apply and_congr_right'
  push Not
  rfl

/-! ## Calls -/

/-- One call: its list, and what the database generates for it. -/
structure AttachCall where
  gen : Generated
  recipients : List RecipientIn

/-- All URLs given to the calls. -/
def givenUrls (calls : List AttachCall) : Finset PyStr :=
  distinctUrls (calls.flatMap AttachCall.recipients)

theorem mem_givenUrls {calls : List AttachCall} {url : PyStr} :
    url ∈ givenUrls calls ↔ ∃ call ∈ calls, url ∈ distinctUrls call.recipients := by
  simp only [givenUrls, distinctUrls, List.mem_toFinset, List.map_flatMap, List.mem_flatMap]

theorem givenUrls_append (calls calls' : List AttachCall) :
    givenUrls (calls ++ calls') = givenUrls calls ∪ givenUrls calls' := by
  ext url
  rw [Finset.mem_union, mem_givenUrls, mem_givenUrls, mem_givenUrls]
  simp only [List.mem_append, or_and_right, exists_or]

/-- Calls for one lead, one after the other; `none` when one of them does not
commit or does not know the lead. -/
def attachAll (requestId : RequestId) :
    List AttachCall → Database → Option (Database × List AttachRecipientsResponse)
  | [], db => some (db, [])
  | call :: calls, db =>
      match attachRecipients call.gen requestId call.recipients db with
      | .ok (some (db₁, answer)) =>
          (attachAll requestId calls db₁).map fun r => (r.1, answer :: r.2)
      | _ => none

theorem attachAll_cons {requestId : RequestId} {call : AttachCall} {calls : List AttachCall}
    {db db' : Database} {answers : List AttachRecipientsResponse}
    (h : attachAll requestId (call :: calls) db = some (db', answers)) :
    ∃ db₁ answer rest,
      attachRecipients call.gen requestId call.recipients db = .ok (some (db₁, answer)) ∧
      attachAll requestId calls db₁ = some (db', rest) ∧ answers = answer :: rest := by
  rw [attachAll] at h
  split at h
  · rename_i db₁ answer hcall
    obtain ⟨⟨db₂, rest⟩, hrest, heq⟩ := Option.map_eq_some_iff.mp h
    obtain ⟨rfl, rfl⟩ := Prod.mk.inj heq
    exact ⟨db₁, answer, rest, hcall, hrest, rfl⟩
  · cases h

/-- What one answer says about its call. -/
structure AttachCall.Answered (call : AttachCall) (answer : AttachRecipientsResponse) : Prop where
  added : answer.added = answer.deliveryIds.length
  counts : answer.added + answer.alreadyPresent = (distinctUrls call.recipients).card

/-- The calls have appended `new`. -/
structure Additions (requestId : RequestId) (calls : List AttachCall) (db db' : Database)
    (answers : List AttachRecipientsResponse) (new : List Delivery) : Prop where
  lead : ∀ call ∈ calls, (db.requests.get? requestId).isSome
  bound : ∀ call ∈ calls, ∃ rows, Bound (dedupe call.recipients) rows
  requests : db'.requests = db.requests
  journal : db'.deliveryAttempts = db.deliveryAttempts
  rows : db'.deliveries.rows = db.deliveries.rows ++ new
  ids : answers.flatMap AttachRecipientsResponse.deliveryIds = new.map Delivery.id
  created : ∀ d ∈ new, ∃ call ∈ calls, ∃ id r, d = newDelivery call.gen.now requestId id r
  urls_nodup : (new.map fun d => d.recipientUrl.str).Nodup
  urls : (new.map fun d => d.recipientUrl.str).toFinset =
    givenUrls calls \ db.deliveryUrls requestId
  answered : List.Forall₂ AttachCall.Answered calls answers

theorem Additions.deliveryUrls {requestId : RequestId} {calls : List AttachCall}
    {db db' : Database} {answers : List AttachRecipientsResponse} {new : List Delivery}
    (h : Additions requestId calls db db' answers new) :
    db'.deliveryUrls requestId = db.deliveryUrls requestId ∪ givenUrls calls := by
  have hnew : (new.filter fun d => d.requestId = requestId) = new := by
    rw [List.filter_eq_self]
    intro d hd
    obtain ⟨_, _, _, _, rfl⟩ := h.created d hd
    exact decide_eq_true rfl
  rw [Database.deliveryUrls, h.rows, List.filter_append, List.map_append, List.toFinset_append,
    hnew, h.urls]
  exact Finset.union_sdiff_self_eq_union

theorem Additions.nil (requestId : RequestId) (db : Database) :
    Additions requestId [] db db [] [] where
  lead _ h := by cases h
  bound _ h := by cases h
  requests := rfl
  journal := rfl
  rows := (List.append_nil _).symm
  ids := rfl
  created _ h := by cases h
  urls_nodup := List.nodup_nil
  urls := (Finset.empty_sdiff _).symm
  answered := .nil

/-- Two sequences of calls, the second on what the first left. -/
theorem Additions.append {requestId : RequestId} {calls calls' : List AttachCall}
    {db db₁ db' : Database} {answers answers' : List AttachRecipientsResponse}
    {new new' : List Delivery} (h : Additions requestId calls db db₁ answers new)
    (h' : Additions requestId calls' db₁ db' answers' new') :
    Additions requestId (calls ++ calls') db db' (answers ++ answers') (new ++ new') where
  lead call hcall := by
    rcases List.mem_append.mp hcall with hcall | hcall
    · exact h.lead call hcall
    · exact h.requests ▸ h'.lead call hcall
  bound call hcall := (List.mem_append.mp hcall).elim (h.bound call) (h'.bound call)
  requests := h'.requests.trans h.requests
  journal := h'.journal.trans h.journal
  rows := by rw [h'.rows, h.rows, List.append_assoc]
  ids := by rw [List.flatMap_append, h.ids, h'.ids, List.map_append]
  created d hd := by
    rcases List.mem_append.mp hd with hd | hd
    · obtain ⟨call, hcall, hrest⟩ := h.created d hd
      exact ⟨call, List.mem_append_left _ hcall, hrest⟩
    · obtain ⟨call, hcall, hrest⟩ := h'.created d hd
      exact ⟨call, List.mem_append_right _ hcall, hrest⟩
  urls_nodup := by
    rw [List.map_append]
    apply h.urls_nodup.append h'.urls_nodup
    intro url hurl hurl'
    -- what the first calls were given is there for the second ones
    rw [← List.mem_toFinset, h.urls, Finset.mem_sdiff] at hurl
    rw [← List.mem_toFinset, h'.urls, Finset.mem_sdiff, h.deliveryUrls] at hurl'
    exact hurl'.2 (Finset.mem_union_right _ hurl.1)
  urls := by
    rw [List.map_append, List.toFinset_append, h.urls, h'.urls, h.deliveryUrls, givenUrls_append]
    ext url
    simp only [Finset.mem_union, Finset.mem_sdiff]
    tauto
  answered := List.rel_append h.answered h'.answered

/-! ## One call -/

theorem attachRecipients_answer {gen : Generated} {requestId : RequestId}
    {recipients : List RecipientIn} {db db' : Database} {answer : AttachRecipientsResponse}
    (h : attachRecipients gen requestId recipients db = .ok (some (db', answer))) :
    answer.added = answer.deliveryIds.length ∧
      answer.alreadyPresent = (dedupe recipients).length - answer.deliveryIds.length := by
  unfold attachRecipients at h
  split at h
  · cases h
  · obtain ⟨⟨db₁, ids⟩, _, h⟩ := Fallible.bind_eq_ok_iff.mp h
    cases h
    exact ⟨rfl, rfl⟩

theorem additions_of_attach {requestId : RequestId} {call : AttachCall} {db db' : Database}
    {answer : AttachRecipientsResponse}
    (h : attachRecipients call.gen requestId call.recipients db = .ok (some (db', answer))) :
    ∃ new, Additions requestId [call] db db' [answer] new := by
  obtain ⟨hlead, rows, hbound, hins⟩ := attachRecipients_spec h
  obtain ⟨hadded, hpresent⟩ := attachRecipients_answer h
  have hgiven : givenUrls [call] = distinctUrls call.recipients := by
    ext url
    rw [mem_givenUrls]
    simp
  refine ⟨_, ?_, ?_, hins.requests, hins.journal, hins.deliveries, ?_, ?_, ?_, ?_, ?_⟩
  · exact fun _ _ => hlead
  · intro c hc
    obtain rfl := List.mem_singleton.mp hc
    exact ⟨rows, hbound⟩
  · rw [List.flatMap_cons, List.flatMap_nil, List.append_nil, hins.ids_eq, List.map_map]
    rfl
  · intro d hd
    obtain ⟨p, _, rfl⟩ := List.mem_map.mp hd
    exact ⟨call, List.mem_singleton_self call, p.2, p.1, rfl⟩
  · rw [List.map_map]
    exact urls_newTargets_nodup hbound
  · rw [List.map_map, hgiven, ← Database.newUrls_eq]
    exact urls_newTargets _ hbound
  · refine .cons ⟨hadded, ?_⟩ .nil
    -- no more rows are added than there are distinct URLs
    have hle : answer.deliveryIds.length ≤ (dedupe call.recipients).length := by
      rw [hins.ids_eq, List.length_map, length_newTargets hbound, length_dedupe]
      exact Finset.card_filter_le _ _
    rw [hadded, hpresent, Nat.add_sub_cancel' hle, length_dedupe]
    rfl

theorem additions_of_attachAll {requestId : RequestId} {calls : List AttachCall}
    {db db' : Database} {answers : List AttachRecipientsResponse}
    (h : attachAll requestId calls db = some (db', answers)) :
    ∃ new, Additions requestId calls db db' answers new := by
  induction calls generalizing db answers with
  | nil =>
      cases h
      exact ⟨[], .nil requestId _⟩
  | cons call calls ih =>
      obtain ⟨db₁, answer, rest, hcall, hrest, rfl⟩ := attachAll_cons h
      obtain ⟨first, hfirst⟩ := additions_of_attach hcall
      obtain ⟨others, hothers⟩ := ih hrest
      exact ⟨first ++ others, hfirst.append hothers⟩

/-! ## Repeated and refused calls -/

/-- Rows that all meet a conflict leave the table as it is. -/
theorem foldlM_insertDelivery_present {now : Instant} {requestId : RequestId}
    {proposed : List (RecipientRow × DeliveryId)} {acc : Database × List DeliveryId}
    (h : ∀ p ∈ proposed, acc.1.deliveries.rows.any (Delivery.isFor requestId p.1.url) = true) :
    proposed.foldlM (insertDelivery now requestId) acc = .ok acc := by
  induction proposed with
  | nil => rfl
  | cons p ps ih =>
      obtain ⟨hp, hps⟩ := List.forall_mem_cons.mp h
      have hfirst : insertDelivery now requestId acc p = .ok acc := if_pos hp
      rw [List.foldlM_cons, hfirst]
      exact ih hps

/-- A call whose URLs are all there commits and adds nothing. -/
theorem attachRecipients_present {gen : Generated} {requestId : RequestId}
    {recipients : List RecipientIn} {rows : List RecipientRow} {db : Database}
    (hlead : (db.requests.get? requestId).isSome) (hbound : Bound (dedupe recipients) rows)
    (hurls : distinctUrls recipients ⊆ db.deliveryUrls requestId) :
    attachRecipients gen requestId recipients db =
      .ok (some (db, ⟨requestId, 0, (distinctUrls recipients).card, []⟩)) := by
  have hpresent : ∀ p ∈ proposedRows gen rows,
      db.deliveries.rows.any (Delivery.isFor requestId p.1.url) = true := by
    intro p hp
    have hurl : p.1.url.str ∈ distinctUrls recipients := by
      rw [distinctUrls, List.mem_toFinset, ← url_mem_dedupe,
        ← urls_proposedRows gen hbound]
      exact List.mem_map.mpr ⟨p, hp, rfl⟩
    obtain ⟨d, hd, hrequest, hsame⟩ := Database.mem_deliveryUrls.mp (hurls hurl)
    exact List.any_eq_true.mpr ⟨d, hd, Delivery.isFor_iff.mpr ⟨hrequest, PgText.ext hsame⟩⟩
  have hinsert : insertDeliveries gen requestId (dedupe recipients) db = .ok (db, []) := by
    rw [insertDeliveries, (Fallible.mapM_eq_ok_iff _ _ _).mpr hbound]
    exact foldlM_insertDelivery_present hpresent
  have hknown : (db.requests.get? requestId).isNone = false := by
    rw [Option.isNone_eq_false_iff]
    exact hlead
  have hcard : (distinctUrls recipients).card = (dedupe recipients).length :=
    (length_dedupe recipients).symm
  rw [hcard]
  simp [attachRecipients, hknown, hinsert, bind, Except.bind, pure, Except.pure]

theorem attachRecipients_unknown {gen : Generated} {requestId : RequestId}
    {recipients : List RecipientIn} {db : Database} (h : db.requests.get? requestId = none) :
    attachRecipients gen requestId recipients db = .ok none := by
  simp [attachRecipients, h, pure, Except.pure]

/-! ## What the calls do together -/

/-- The answer to call `i` names the delivery of this URL. -/
def ReportedBy (requestId : RequestId) (db' : Database) (answers : List AttachRecipientsResponse)
    (url : PyStr) (i : ℕ) : Prop :=
  ∃ answer d, answers[i]? = some answer ∧ d ∈ db'.deliveries.rows ∧ d.requestId = requestId ∧
    d.recipientUrl.str = url ∧ d.id ∈ answer.deliveryIds

/-- In a list without repetitions an element comes from one of the parts. -/
theorem index_unique_of_flatMap {α β : Type} {f : α → List β} {xs : List α}
    (h : (xs.flatMap f).Nodup) {i j : ℕ} {a b : α} {x : β} (hi : xs[i]? = some a)
    (hj : xs[j]? = some b) (ha : x ∈ f a) (hb : x ∈ f b) : i = j := by
  have hapart := List.pairwise_iff_getElem.mp (List.nodup_flatMap.mp h).2
  obtain ⟨hilt, rfl⟩ := List.getElem?_eq_some_iff.mp hi
  obtain ⟨hjlt, rfl⟩ := List.getElem?_eq_some_iff.mp hj
  rcases Nat.lt_trichotomy i j with hlt | heq | hgt
  · exact absurd hb (hapart i j hilt hjlt hlt ha)
  · exact heq
  · exact absurd ha (hapart j i hjlt hilt hgt hb)

theorem Additions.reported_once {requestId : RequestId} {calls : List AttachCall}
    {db db' : Database} {answers : List AttachRecipientsResponse} {new : List Delivery}
    (h : Additions requestId calls db db' answers new) {url : PyStr}
    (hgiven : url ∈ givenUrls calls) (hfree : url ∉ db.deliveryUrls requestId) :
    ∃! i, ReportedBy requestId db' answers url i := by
  have hnew : ∀ d ∈ db'.deliveries.rows, d.requestId = requestId → d.recipientUrl.str = url →
      d ∈ new := by
    intro d hd hrequest hurl
    rw [h.rows] at hd
    refine (List.mem_append.mp hd).resolve_left fun hold => hfree ?_
    exact Database.mem_deliveryUrls.mpr ⟨d, hold, hrequest, hurl⟩
  have hids : (answers.flatMap AttachRecipientsResponse.deliveryIds).Nodup := by
    have hall := db'.deliveries.nodup
    rw [h.rows, List.map_append] at hall
    rw [h.ids]
    exact hall.of_append_right
  obtain ⟨d, hd, hurl⟩ : ∃ d ∈ new, d.recipientUrl.str = url := by
    rw [← List.mem_map, ← List.mem_toFinset, h.urls]
    exact Finset.mem_sdiff.mpr ⟨hgiven, hfree⟩
  have hreported : d.id ∈ answers.flatMap AttachRecipientsResponse.deliveryIds := by
    rw [h.ids]
    exact List.mem_map.mpr ⟨d, hd, rfl⟩
  obtain ⟨answer, hanswer, hid⟩ := List.mem_flatMap.mp hreported
  obtain ⟨i, hi⟩ := List.mem_iff_getElem?.mp hanswer
  refine ⟨i, ⟨answer, d, hi, ?_, ?_, hurl, hid⟩, ?_⟩
  · rw [h.rows]
    exact List.mem_append_right _ hd
  · obtain ⟨_, _, _, _, rfl⟩ := h.created d hd
    rfl
  · rintro j ⟨other, d', hj, hd', hrequest, hurl', hid'⟩
    have hsame : d' = d := List.inj_on_of_nodup_map h.urls_nodup (hnew d' hd' hrequest hurl') hd
      (hurl'.trans hurl.symm)
    rw [hsame] at hid'
    exact index_unique_of_flatMap hids hj hi hid' hid

/-- A delivery that a call created: pending, never tried, and due from the
call's transaction on. -/
structure Delivery.QueuedBy (call : AttachCall) (requestId : RequestId) (d : Delivery) :
    Prop where
  requestId : d.requestId = requestId
  status : d.status = .pending
  attempts : d.attempts = 0 ∧ d.totalAttempts = 0
  due : ∀ now, call.gen.now ≤ now → d.due now = true

theorem newDelivery_queuedBy (call : AttachCall) (requestId : RequestId) (id : DeliveryId)
    (r : RecipientRow) : (newDelivery call.gen.now requestId id r).QueuedBy call requestId where
  requestId := rfl
  status := rfl
  attempts := ⟨rfl, rfl⟩
  due _ hnow := Delivery.due_iff.mpr ⟨Or.inl rfl, hnow⟩

/-- What a sequence of committed calls for one lead does. -/
structure AttachEffect (requestId : RequestId) (calls : List AttachCall) (db db' : Database)
    (answers : List AttachRecipientsResponse) : Prop where
  requests : db'.requests = db.requests
  journal : db'.deliveryAttempts = db.deliveryAttempts
  kept : ∀ d ∈ db.deliveries.rows, db'.deliveries.get? d.id = some d
  created : ∀ d ∈ db'.deliveries.rows, d ∈ db.deliveries.rows ∨
    ∃ call ∈ calls, d.QueuedBy call requestId
  urls : db'.deliveryUrls requestId = db.deliveryUrls requestId ∪ givenUrls calls
  anyOrder : ∀ calls' db'' answers',
    (calls'.map AttachCall.recipients).Perm (calls.map AttachCall.recipients) →
    attachAll requestId calls' db = some (db'', answers') →
    db''.deliveryUrls requestId = db'.deliveryUrls requestId
  answered : List.Forall₂ AttachCall.Answered calls answers
  reported : ∀ answer ∈ answers, ∀ id ∈ answer.deliveryIds,
    db.deliveries.get? id = none ∧ ∃ d, db'.deliveries.get? id = some d ∧ d.requestId = requestId
  once : ∀ url ∈ givenUrls calls, url ∉ db.deliveryUrls requestId →
    ∃! i, ReportedBy requestId db' answers url i
  again : ∀ call ∈ calls, ∀ gen, attachRecipients gen requestId call.recipients db' =
    .ok (some (db', ⟨requestId, 0, (distinctUrls call.recipients).card, []⟩))

theorem Additions.reported {requestId : RequestId} {calls : List AttachCall}
    {db db' : Database} {answers : List AttachRecipientsResponse} {new : List Delivery}
    (h : Additions requestId calls db db' answers new) {answer : AttachRecipientsResponse}
    (hanswer : answer ∈ answers) {id : DeliveryId} (hid : id ∈ answer.deliveryIds) :
    db.deliveries.get? id = none ∧
      ∃ d, db'.deliveries.get? id = some d ∧ d.requestId = requestId := by
  have hnew : id ∈ new.map Delivery.id := by
    rw [← h.ids]
    exact List.mem_flatMap.mpr ⟨answer, hanswer, hid⟩
  obtain ⟨d, hd, rfl⟩ := List.mem_map.mp hnew
  have hmem : d ∈ db'.deliveries.rows := by
    rw [h.rows]
    exact List.mem_append_right _ hd
  constructor
  · -- ids are unique in the table afterwards
    rw [Option.eq_none_iff_forall_ne_some]
    intro old hold
    have hall := db'.deliveries.nodup
    rw [h.rows, List.map_append] at hall
    have holdId : d.id ∈ db.deliveries.rows.map Delivery.id :=
      List.mem_map.mpr ⟨old, Table.mem_of_get? hold, Table.key_of_get? hold⟩
    exact List.disjoint_of_nodup_append hall holdId hnew
  · obtain ⟨_, _, _, _, heq⟩ := h.created d hd
    exact ⟨d, Table.get?_of_mem hmem, heq ▸ rfl⟩

theorem givenUrls_perm {calls calls' : List AttachCall}
    (h : (calls'.map AttachCall.recipients).Perm (calls.map AttachCall.recipients)) :
    givenUrls calls' = givenUrls calls := by
  have hexists : ∀ (cs : List AttachCall) (url : PyStr), url ∈ givenUrls cs ↔
      ∃ recipients ∈ cs.map AttachCall.recipients, url ∈ distinctUrls recipients := by
    intro cs url
    rw [mem_givenUrls]
    simp
  ext url
  rw [hexists, hexists]
  simp only [h.mem_iff]

/-- Committed calls for a lead make its URLs the union of the old ones and the
given ones, in whatever order they come; each new URL is reported by one call,
what was there stays, and a repeated call adds nothing. A call for a lead that
does not exist writes nothing. -/
theorem attach_calls_effect {requestId : RequestId} {calls : List AttachCall} {db db' : Database}
    {answers : List AttachRecipientsResponse}
    (h : attachAll requestId calls db = some (db', answers)) :
    AttachEffect requestId calls db db' answers ∧
      ∀ other gen recipients, db.requests.get? other = none →
        attachRecipients gen other recipients db = .ok none := by
  obtain ⟨new, hadd⟩ := additions_of_attachAll h
  refine ⟨⟨hadd.requests, hadd.journal, ?_, ?_, hadd.deliveryUrls, ?_, hadd.answered, ?_, ?_, ?_⟩,
    fun _ _ _ hnone => attachRecipients_unknown hnone⟩
  · intro d hd
    apply Table.get?_of_mem
    rw [hadd.rows]
    exact List.mem_append_left _ hd
  · intro d hd
    rw [hadd.rows] at hd
    apply (List.mem_append.mp hd).imp_right
    intro hd
    obtain ⟨call, hcall, id, r, rfl⟩ := hadd.created d hd
    exact ⟨call, hcall, newDelivery_queuedBy call requestId id r⟩
  · intro calls' db'' answers' hperm h'
    obtain ⟨_, hadd'⟩ := additions_of_attachAll h'
    rw [hadd'.deliveryUrls, hadd.deliveryUrls, givenUrls_perm hperm]
  · exact fun answer hanswer id hid => hadd.reported hanswer hid
  · exact fun url hgiven hfree => hadd.reported_once hgiven hfree
  · intro call hcall gen
    obtain ⟨rows, hbound⟩ := hadd.bound call hcall
    apply attachRecipients_present _ hbound
    · rw [hadd.deliveryUrls]
      intro url hurl
      exact Finset.mem_union_right _ (mem_givenUrls.mpr ⟨call, hcall, hurl⟩)
    · exact hadd.requests ▸ hadd.lead call hcall

namespace Attachment

def recipient (host : String) : RecipientIn :=
  ⟨.ofString ("https://" ++ host ++ "/hook"), none, .ofString ("https://" ++ host)⟩

/-- Ids from `first` on. -/
def generated (first : ℕ) : Generated := ⟨0, 0, fun i => BitVec.ofNat 128 (first + i)⟩

/-- Two calls that overlap in themselves, with each other and with the lead. -/
def calls : List AttachCall :=
  [⟨generated 10, [recipient "b.example", recipient "a.example", recipient "b.example"]⟩,
    ⟨generated 20, [recipient "b.example", recipient "c.example"]⟩]

end Attachment

/-- Three URLs and three deliveries, one from the lead and one from each call. -/
theorem attach_calls_effect_overlapping :
    ∃ db db' answers, AttachEffect 0 Attachment.calls db db' answers ∧
      answers.map AttachRecipientsResponse.added = [1, 1] ∧
      (db'.deliveryUrls 0).card = 3 := by
  obtain ⟨s, _, hp⟩ := exists_reachable_of_moves .default [Move.accept 0 Move.lead]
    (fun s => (attachAll 0 Attachment.calls s.db).any
      fun r : Database × List AttachRecipientsResponse =>
        decide (r.2.map AttachRecipientsResponse.added = [1, 1] ∧
          (r.1.deliveryUrls 0).card = 3)) (by decide +kernel)
  obtain ⟨⟨db', answers⟩, hrun, hp⟩ := (Option.any_eq_true _ _).mp hp
  obtain ⟨hadded, hurls⟩ := of_decide_eq_true hp
  exact ⟨s.db, db', answers, (attach_calls_effect hrun).1, hadded, hurls⟩

end LeadQueue
