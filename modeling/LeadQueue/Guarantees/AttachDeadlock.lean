import LeadQueue.Guarantees.Attachment
import LeadQueue.Library.KeyWaits

/-!
# Attachments that wait for each other

Concurrent calls for one lead insert their URLs in the order of their lists, and
an insert waits for an open transaction that has inserted the same URL. Nothing
puts the lists in a common order, so calls can wait for each other in a cycle.
Which lists let them is settled by the lists and the URLs already there.
-/

namespace LeadQueue

open Relational Transition

/-- The URLs a call for a lead inserts, in order: none when the lead is not
known or a value cannot be bound. -/
def Database.attachUrls (db : Database) (requestId : RequestId) (recipients : List RecipientIn) :
    List PyStr :=
  if (db.requests.get? requestId).isNone then []
  else
    match (dedupe recipients).mapM bindRecipient with
    | .ok rows => rows.map fun row => row.url.str
    | .error _ => []

theorem attachUrls_eq {db : Database} {requestId : RequestId} {recipients : List RecipientIn}
    {rows : List RecipientRow} (hlead : (db.requests.get? requestId).isSome)
    (hbound : Bound (dedupe recipients) rows) :
    db.attachUrls requestId recipients = (dedupe recipients).map RecipientIn.url := by
  have hrows := (Fallible.mapM_eq_ok_iff _ _ _).mpr hbound
  rw [Database.attachUrls, if_neg (by simpa [Option.isSome_iff_ne_none] using hlead), hrows]
  exact hbound.urls

/-- The lists of concurrent calls for one lead. -/
def attachLists {ι : Type} (db : Database) (requestId : RequestId)
    (recipients : ι → List RecipientIn) (i : ι) : List PyStr :=
  db.attachUrls requestId (recipients i)

/-! ## The calls one after the other -/

section Sequential

variable {ι : Type} [DecidableEq ι] {db : Database} {requestId : RequestId}
  {recipients : ι → List RecipientIn}
  {s : KeyWaits.State ι PyStr}

theorem mem_attachUrls {calls : List AttachCall} {db' : Database}
    {answers : List AttachRecipientsResponse} {new : List Delivery} {call : AttachCall}
    (h : Additions requestId calls db db' answers new) (hcall : call ∈ calls) (url : PyStr) :
    url ∈ db.attachUrls requestId call.recipients ↔ url ∈ distinctUrls call.recipients := by
  obtain ⟨rows, hbound⟩ := h.bound call hcall
  rw [attachUrls_eq (h.lead call hcall) hbound, url_mem_dedupe, distinctUrls, List.mem_toFinset]

/-- What concurrent calls have stored is what the committed ones store when they
are made one after the other, in any order. -/
theorem stored_eq_deliveryUrls
    (hs : (KeyWaits.machine (attachLists db requestId recipients)
      (db.deliveryUrls requestId)).Reachable s)
    {order : List ι} (horder : ∀ i, i ∈ order ↔ s.txs i = none) {gen : ι → Generated}
    {db' : Database} {answers : List AttachRecipientsResponse}
    (hrun : attachAll requestId (order.map fun i => ⟨gen i, recipients i⟩) db =
      some (db', answers)) :
    s.stored = db'.deliveryUrls requestId := by
  obtain ⟨new, hadd⟩ := additions_of_attachAll hrun
  ext url
  rw [(KeyWaits.inv_of_reachable hs).stored_iff, hadd.deliveryUrls, Finset.mem_union,
    mem_givenUrls]
  apply or_congr_right
  constructor
  · rintro ⟨i, hi, hurl⟩
    have hcall := List.mem_map_of_mem (f := fun i => (⟨gen i, recipients i⟩ : AttachCall))
      ((horder i).mpr hi)
    exact ⟨_, hcall, (mem_attachUrls hadd hcall url).mp hurl⟩
  · rintro ⟨call, hcall, hurl⟩
    obtain ⟨i, hi, rfl⟩ := List.mem_map.mp hcall
    exact ⟨i, (horder i).mp hi, (mem_attachUrls hadd hcall url).mpr hurl⟩

/-- A call that is about to commit has inserted what the call alone would add to
the committed database. -/
theorem held_eq_newUrls
    (hs : (KeyWaits.machine (attachLists db requestId recipients)
      (db.deliveryUrls requestId)).Reachable s)
    {i : ι} {held : List PyStr} (hi : s.txs i = some ⟨[], held⟩) {db' : Database}
    (hdb : s.stored = db'.deliveryUrls requestId) {rows : List RecipientRow}
    (hlead : (db.requests.get? requestId).isSome)
    (hbound : Bound (dedupe (recipients i)) rows) :
    held.toFinset = db'.newUrls requestId (recipients i) := by
  obtain ⟨done, hlist, hdone⟩ := (KeyWaits.inv_of_reachable hs).held i _ hi
  rw [List.append_nil] at hlist
  subst hlist
  ext url
  rw [List.mem_toFinset, hdone, hdb, Database.newUrls_eq, Finset.mem_sdiff, attachLists,
    attachUrls_eq hlead hbound, url_mem_dedupe, distinctUrls, List.mem_toFinset]

end Sequential

/-! ## Concurrent calls -/

/-- Concurrent calls for a lead never wait for each other in a cycle, and all
commit, exactly when their lists do not cross over the URLs already there. In
either case the calls that have committed leave the URLs they leave when they
are made one after the other. -/
theorem attach_calls_commit_iff {ι : Type} [Fintype ι] [DecidableEq ι] (db : Database)
    (requestId : RequestId) (recipients : ι → List RecipientIn) :
    (KeyWaits.AllCommit (attachLists db requestId recipients) (db.deliveryUrls requestId) ↔
      ¬ KeyWaits.Crossing (attachLists db requestId recipients) (db.deliveryUrls requestId)) ∧
    ∀ s, (KeyWaits.machine (attachLists db requestId recipients)
        (db.deliveryUrls requestId)).Reachable s →
      ∀ (order : List ι) (gen : ι → Generated) db' answers,
        (∀ i, i ∈ order ↔ s.txs i = none) →
        attachAll requestId (order.map fun i => ⟨gen i, recipients i⟩) db =
          some (db', answers) →
        s.stored = db'.deliveryUrls requestId :=
  ⟨KeyWaits.allCommit_iff _ _, fun _ hs _ _ _ _ horder hrun =>
    stored_eq_deliveryUrls hs horder hrun⟩

/-- Calls whose lists follow one order of the URLs all commit. -/
theorem attach_sorted_calls_commit {ι α : Type} [Fintype ι] [DecidableEq ι] [Preorder α]
    (rank : PyStr → α) (db : Database) (requestId : RequestId)
    (recipients : ι → List RecipientIn)
    (h : ∀ i, (attachLists db requestId recipients i).Pairwise fun a b => rank a < rank b) :
    KeyWaits.AllCommit (attachLists db requestId recipients) (db.deliveryUrls requestId) :=
  (KeyWaits.allCommit_iff _ _).mpr (KeyWaits.not_crossing_of_sorted rank h)

namespace AttachDeadlock

/-- Two calls with the same two recipients, the other way round. -/
def swapped : Fin 2 → List RecipientIn
  | 0 => [Attachment.recipient "b.example", Attachment.recipient "c.example"]
  | 1 => [Attachment.recipient "c.example", Attachment.recipient "b.example"]

def urlB : PyStr := (Attachment.recipient "b.example").url

def urlC : PyStr := (Attachment.recipient "c.example").url

end AttachDeadlock

/-- After each of them has inserted its first URL, both wait. -/
theorem attach_calls_deadlock :
    ¬ ∀ settings : Settings, settings.Validated → ∀ s, (service settings).Reachable s →
      ∀ requestId, (s.db.requests.get? requestId).isSome →
      ∀ (n : ℕ) (recipients : Fin n → List RecipientIn),
      KeyWaits.AllCommit (attachLists s.db requestId recipients)
        (s.db.deliveryUrls requestId) := by
  intro h
  obtain ⟨s, hs, hp⟩ := exists_reachable_of_moves .default [Move.accept 0 Move.lead]
    (fun s => (s.db.requests.get? 0).isSome && decide
      (attachLists s.db 0 AttachDeadlock.swapped 0 = [AttachDeadlock.urlB, AttachDeadlock.urlC] ∧
        attachLists s.db 0 AttachDeadlock.swapped 1 =
          [AttachDeadlock.urlC, AttachDeadlock.urlB] ∧
        AttachDeadlock.urlB ∉ s.db.deliveryUrls 0 ∧ AttachDeadlock.urlC ∉ s.db.deliveryUrls 0))
    (by decide +kernel)
  rw [Bool.and_eq_true] at hp
  obtain ⟨hlead, hp⟩ := hp
  obtain ⟨hfirst, hsecond, hb, hc⟩ := of_decide_eq_true hp
  have hcommit := h .default Settings.default_validated s hs 0 hlead 2 AttachDeadlock.swapped
  apply (KeyWaits.allCommit_iff _ _).mp hcommit
  exact KeyWaits.crossing_of_swapped (by decide) (by decide) hfirst hsecond hb hc

end LeadQueue
