import LeadQueue.Intake.Overlap
import LeadQueue.Service
import Mathlib.Tactic.FinCases

/-!
# One lead for each key

However many calls arrive with one key, however their statements interleave and
whichever of them are rolled back, the key has at most one lead. One of the
committed calls created it; the others answer with that lead and write nothing.
-/

namespace LeadQueue

open Relational Transition

/-- Bodies with one key. -/
def IntakeRequest.SameKey (q q' : IntakeRequest) : Prop :=
  q.sourceId = q'.sourceId ∧ q.idempotencyKey = q'.idempotencyKey

/-- The lead of this answer is stored as the body has it, with a delivery for
each URL. -/
structure Database.Holds (db : Database) (req : IntakeRequest) (answer : IntakeAccepted) :
    Prop where
  lead : ∃ lead, db.requests.get? answer.requestId = some lead ∧
    lead.sourceId.str = req.sourceId ∧ lead.idempotencyKey.str = req.idempotencyKey ∧
    jsonbParam req.payload = .ok lead.payload ∧ lead.receivedAt = answer.receivedAt
  recipientCount : answer.recipientCount = (req.recipients.map RecipientIn.url).toFinset.card
  each : ∀ url ∈ req.recipients.map RecipientIn.url, ∃! d, d ∈ db.deliveries.rows ∧
    d.requestId = answer.requestId ∧ d.recipientUrl.str = url
  /-- A URL is called by the name of its first mention. -/
  firstMention : ∀ d ∈ db.deliveries.rows, d.requestId = answer.requestId →
    d.status = .pending ∧ ∃ r,
      req.recipients.find? (fun r => decide (r.url = d.recipientUrl.str)) = some r ∧
        d.recipientName.map PgText.str = r.name

/-! ## What the creator stored -/

section Stored

variable {gen : Generated} {req : IntakeRequest} {db : Database} {lead : Request}
  {rows : List RecipientRow}

theorem mem_leadDeliveries {d : Delivery} (hbound : Bound (dedupe req.recipients) rows)
    (h : d ∈ leadDeliveries gen lead rows) :
    d.status = .pending ∧ ∃ r,
      req.recipients.find? (fun r => decide (r.url = d.recipientUrl.str)) = some r ∧
        d.recipientName.map PgText.str = r.name := by
  obtain ⟨p, hp, rfl⟩ := List.mem_map.mp h
  have hrow : p.1 ∈ rows := by
    rw [← map_fst_proposedRows gen rows]
    exact List.mem_map.mpr ⟨p, hp, rfl⟩
  obtain ⟨r, hr, hbind⟩ := hbound.exists_of_mem hrow
  obtain ⟨hurl, hname, _⟩ := bindRecipient_spec hbind
  refine ⟨rfl, r, ?_, hname⟩
  show req.recipients.find? (fun r => decide (r.url = p.1.url.str)) = some r
  rw [hurl]
  exact mem_dedupe hr

theorem exists_mem_leadDeliveries {url : PyStr} (hbound : Bound (dedupe req.recipients) rows)
    (h : url ∈ req.recipients.map RecipientIn.url) :
    ∃ d ∈ leadDeliveries gen lead rows, d.recipientUrl.str = url := by
  obtain ⟨p, hp, rfl⟩ := @Bound.exists_proposed _ _ gen hbound _ h
  exact ⟨_, List.mem_map.mpr ⟨p, hp, rfl⟩, rfl⟩

theorem holds_of_stored {answer : IntakeAccepted} (hdb : db.Constrained)
    (hrow : requestRow gen req = .ok lead) (hlead : lead ∈ db.requests.rows)
    (hbound : Bound (dedupe req.recipients) rows) (hid : answer.requestId = lead.id)
    (hreceived : answer.receivedAt = lead.receivedAt) (hcount : answer.recipientCount = rows.length)
    (hfilter : (db.deliveries.rows.filter fun d => d.requestId == lead.id) =
      leadDeliveries gen lead rows) :
    db.Holds req answer := by
  obtain ⟨hsource, hkey, hpayload, _, _⟩ := requestRow_eq_ok hrow
  have hmem : ∀ d, d ∈ leadDeliveries gen lead rows ↔
      d ∈ db.deliveries.rows ∧ d.requestId = answer.requestId := by
    intro d
    rw [← hfilter, List.mem_filter, beq_iff_eq, hid]
  constructor
  · exact ⟨lead, by rw [hid, Table.get?_of_mem hlead], textParam_str hsource, textParam_str hkey,
      hpayload, hreceived.symm⟩
  · rw [hcount, ← hbound.length_eq, length_dedupe]
  · intro url hurl
    obtain ⟨d, hd, rfl⟩ := @exists_mem_leadDeliveries gen _ lead _ _ hbound hurl
    obtain ⟨hd, hof⟩ := (hmem d).mp hd
    refine ⟨d, ⟨hd, hof, rfl⟩, ?_⟩
    rintro d' ⟨hd', hof', hurl'⟩
    exact hdb.targets d' hd' d hd (hof'.trans hof.symm) (PgText.ext hurl')
  · intro d hd hof
    exact mem_leadDeliveries hbound ((hmem d).mpr ⟨hd, hof⟩)

end Stored

/-! ## All calls -/

variable {ι : Type} {gen : ι → Generated} {req : ι → IntakeRequest} {s : IntakeState ι}

/-- Behind every answer is the lead of its key. -/
theorem exists_lead_of_committed (hinv : IntakeInv gen req s) {i : ι} {answer : IntakeAccepted}
    (h : s.calls i = .committed answer) :
    ∃ r ∈ s.db.requests.rows, answer.requestId = r.id ∧ answer.receivedAt = r.receivedAt ∧
      r.sourceId.str = (req i).sourceId ∧ r.idempotencyKey.str = (req i).idempotencyKey ∧
      (answer.duplicate = false → s.db.Holds (req i) answer) := by
  have hcall := hinv.calls i
  rw [h] at hcall
  obtain ⟨lead, hrow, r, hr, hsame, hid, hreceived, hcreator⟩ := hcall
  obtain ⟨hsource, hkey, _⟩ := requestRow_eq_ok hrow
  refine ⟨r, hr, hid, hreceived, hsame.1 ▸ textParam_str hsource, hsame.2 ▸ textParam_str hkey,
    fun hfalse => ?_⟩
  obtain ⟨rfl, rows, hbound, hcount, hfilter⟩ := hcreator hfalse
  exact holds_of_stored hinv.constrained hrow hr hbound hid hreceived hcount hfilter

variable [DecidableEq ι]

/-- Only the creator of a lead writes. -/
theorem IntakeStep.db_eq_or_creates {t : IntakeState ι} {e : IntakeLabel ι}
    (h : IntakeStep gen req s e t) :
    t.db = s.db ∨ ∃ i first, e = .commit i ∧ t.calls i = .committed first ∧
      first.duplicate = false := by
  cases h with
  | insert => exact Or.inl rfl
  | conflict => exact Or.inl rfl
  | select => exact Or.inl rfl
  | queue => exact Or.inl rfl
  | commit => exact Or.inr ⟨_, _, rfl, Function.update_self .., rfl⟩
  | commitAnswer => exact Or.inl rfl
  | abort => exact Or.inl rfl

/-- A key has at most one lead. Of the committed calls for it exactly one created
that lead, from its own body; all of them answer with it, and no step but the
creator's commit changes a table. -/
theorem intake_once (h : (intake gen req).Reachable s) :
    (∀ r ∈ s.db.requests.rows, ∀ r' ∈ s.db.requests.rows, r.SameKey r' → r = r') ∧
    (∀ i answer, s.calls i = .committed answer →
      ∃ creator first, s.calls creator = .committed first ∧ first.duplicate = false ∧
        (req i).SameKey (req creator) ∧ s.db.Holds (req creator) first ∧
        answer.requestId = first.requestId ∧ answer.receivedAt = first.receivedAt ∧
        ∀ j other, s.calls j = .committed other → (req i).SameKey (req j) →
          other.duplicate = false → j = creator) ∧
    ∀ e t, IntakeStep gen req s e t → t.db = s.db ∨ ∃ i first, e = .commit i ∧
      t.calls i = .committed first ∧ first.duplicate = false := by
  have hinv := intakeInv_of_reachable h
  refine ⟨fun r hr r' hr' hsame => hinv.constrained.keys r hr r' hr' hsame.1 hsame.2, ?_,
    fun e t hstep => hstep.db_eq_or_creates⟩
  intro i answer hi
  obtain ⟨r, hr, hid, hreceived, hsource, hkey, _⟩ := exists_lead_of_committed hinv hi
  obtain ⟨creator, first, hfirst, hnew, hfirstId⟩ := hinv.stored r hr
  obtain ⟨r', hr', hid', hreceived', hsource', hkey', hholds⟩ :=
    exists_lead_of_committed hinv hfirst
  obtain rfl : r = r' := Table.eq_of_key_eq hr hr' (hfirstId.symm.trans hid')
  refine ⟨creator, first, hfirst, hnew, ⟨hsource.symm.trans hsource', hkey.symm.trans hkey'⟩,
    hholds hnew, hid.trans hid'.symm, hreceived.trans hreceived'.symm, ?_⟩
  intro j other hj hsame hcreated
  obtain ⟨r', hr', hid'', _, hsource'', hkey'', _⟩ := exists_lead_of_committed hinv hj
  -- both created the lead of this key
  obtain rfl : r = r' := hinv.constrained.keys r hr r' hr'
    (PgText.ext (hsource.trans (hsame.1.trans hsource''.symm)))
    (PgText.ext (hkey.trans (hsame.2.trans hkey''.symm)))
  exact hinv.once j creator other first hj hfirst hcreated hnew (hid''.trans hid'.symm)

/-- One key, sent three times. The second body names a URL twice. -/
def retried (i : Fin 3) : IntakeRequest :=
  if i = 1 then
    { Move.lead with
      recipients := [⟨.ofString "https://a.example/hook", some (.ofString "A"),
          .ofString "https://a.example"⟩,
        ⟨.ofString "https://a.example/hook", none, .ofString "https://a.example"⟩] }
  else Move.lead

def retriedIds (i : Fin 3) : Generated := ⟨0, i.val, fun n => 10 * (i.val + 1) + n⟩

/-- The first call is rolled back after its insert, the second one commits, the
third one finds the key. -/
theorem intake_once_afterAbort :
    ∃ (s : IntakeState (Fin 3)) (answer : IntakeAccepted), s.calls 2 = .committed answer ∧
      ∃ creator first, s.calls creator = .committed first ∧ first.duplicate = false ∧
        s.db.Holds (retried creator) first ∧ answer.requestId = first.requestId := by
  have hstart : (intake retriedIds retried).Reachable ⟨.empty, fun _ => .ready⟩ := .init rfl
  have hfirst := IntakeStep.reachable hstart
    (.insert (i := 0) rfl rfl (fun r hr => by cases hr) (fun j other hj => by cases hj) rfl)
  have haborted := IntakeStep.reachable hfirst (.abort (i := 0) trivial)
  have hinserted := IntakeStep.reachable haborted
    (.insert (i := 1) rfl rfl (fun r hr => by cases hr)
      (fun j other hj => by fin_cases j <;> cases hj) rfl)
  have hqueued := IntakeStep.reachable hinserted
    (.queue (i := 1) rfl rfl rfl rfl (fun j d hd => by fin_cases j <;> cases hd))
  have hcommitted := IntakeStep.reachable hqueued
    (.commit (i := 1) rfl rfl (@rfl _ (Table.rows ⟨[_], List.nodup_singleton _⟩)))
  have hconflicted := IntakeStep.reachable hcommitted
    (.conflict (i := 2) rfl rfl List.mem_cons_self ⟨rfl, rfl⟩)
  have hselected := IntakeStep.reachable hconflicted
    (.select (i := 2) rfl List.mem_cons_self ⟨rfl, rfl⟩)
  have hanswered := IntakeStep.reachable hselected (.commitAnswer (i := 2) rfl)
  obtain ⟨creator, first, hfirst, hnew, _, hholds, hid, _⟩ := (intake_once hanswered).2.1 2 _ rfl
  exact ⟨_, _, rfl, creator, first, hfirst, hnew, hholds, hid⟩

end LeadQueue
