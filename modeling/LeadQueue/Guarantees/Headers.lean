import LeadQueue.Life.Invariant
import LeadQueue.Schemas
import LeadQueue.Sender

/-!
# Every accepted lead can be sent

A claim carries its lead's `source_id` into a header. Intake admits any text of
up to 200 characters that is not blank and has no U+0000; a header holds ASCII
without control characters.
-/

namespace LeadQueue

open Relational Transition

/-- A claim hands out the lead as it was stored. -/
structure Claim.Carries (c : Claim) (lead : Request) : Prop where
  sourceId : c.delivery.sourceId = lead.sourceId
  idempotencyKey : c.delivery.idempotencyKey = lead.idempotencyKey
  receivedAt : c.delivery.receivedAt = lead.receivedAt
  payload : c.delivery.payload = lead.payload

theorem carries_of_claimedRow {settings : Settings} {call : ClaimCall} {db : Database}
    {row : ClaimedRow} (h : row ∈ claimedRows call db) :
    ∃ lead, db.requests.get? (toClaimed row).requestId = some lead ∧
      Claim.Carries ⟨call.workerId, call.now, call.now + settings.lease, toClaimed row⟩ lead :=
  ⟨row.request, (mem_claimedRows.mp h).2, rfl, rfl, rfl, rfl⟩

theorem claim_carries_lead {settings : Settings} {s : Service}
    (h : (service settings).Reachable s) {c : Claim} (hc : c ∈ s.claims) :
    ∃ lead, s.db.requests.get? c.delivery.requestId = some lead ∧ c.Carries lead := by
  induction h with
  | init h0 =>
      obtain ⟨clock, rfl⟩ := h0
      cases hc
  | @step s t e _ _ hstep ih =>
      -- the lead was there before the step, and no step changes it
      suffices hold : ∃ lead, s.db.requests.get? c.delivery.requestId = some lead ∧
          c.Carries lead by
        obtain ⟨lead, hlead, hcarries⟩ := hold
        exact ⟨lead, Service.step_requests hstep hlead, hcarries⟩
      rcases Service.step_claims hstep with hsame | ⟨call, db, claimed, _, _, hclaim, happend⟩
      · exact ih (hsame ▸ hc)
      · rcases List.mem_append.mp (happend ▸ hc) with hc | hc
        · exact ih hc
        · obtain ⟨lost, hspec⟩ := claimBatch_spec hclaim
          obtain rfl := hspec.returned
          obtain ⟨row, hrow, rfl⟩ := Service.mem_newClaims.mp hc
          exact carries_of_claimedRow hrow

/-- The headers of every attempt for an accepted lead are legal exactly when
its stripped `source_id` and the configured user agent are. -/
theorem headers_legal_iff {settings : Settings} {s : Service} {c : Claim} {lead : Request}
    {value sourceId : PyStr} (hs : (service settings).Reachable s) (hc : c ∈ s.claims)
    (hlead : s.db.requests.get? c.delivery.requestId = some lead)
    (hvalid : requiredText value = .ok sourceId) (hstored : lead.sourceId.str = sourceId) :
    (∀ header ∈ buildHeaders c.delivery settings, LegalHeaderValue header.2) ↔
      LegalHeaderValue (PyStr.strip value) ∧ LegalHeaderValue settings.userAgent := by
  obtain ⟨lead', hlead', hcarries⟩ := claim_carries_lead hs hc
  obtain rfl : lead = lead' := Option.some.inj (hlead.symm.trans hlead')
  obtain ⟨_, _, hstrip, _⟩ := requiredText_eq_ok_iff.mp hvalid
  rw [buildHeaders_legal_iff, hcarries.sourceId, hstored, hstrip, and_comm]

namespace Headers

/-- A lead from a source of this name, claimed. -/
def claimed (sourceId : PyStr) : List (Service → Event) :=
  [Move.accept 0 { Move.lead with sourceId := sourceId }, Move.claim .default Move.workerA 1]

/-- The first claim of the lead, found in the state. -/
def finds (sourceId : PyStr) (s : Service) : Bool :=
  (s.claim? Move.first 1).any fun c : Claim =>
    (s.db.requests.get? c.delivery.requestId).any fun lead => lead.sourceId.str == sourceId

/-- "квиз" -/
def cyrillic : PyStr := .ofString "квиз"

theorem exists_claimed {sourceId : PyStr}
    (h : (Machine.play (Service.step .default) (fun _ _ => True) (.empty 0)
      (claimed sourceId)).any (finds sourceId) = true) :
    ∃ s c lead, (service .default).Reachable s ∧ c ∈ s.claims ∧
      s.db.requests.get? c.delivery.requestId = some lead ∧ lead.sourceId.str = sourceId := by
  obtain ⟨s, hs, hp⟩ := exists_reachable_of_moves .default _ _ h
  obtain ⟨c, hc, hlead⟩ := (Option.any_eq_true _ _).mp hp
  obtain ⟨lead, hget, hsource⟩ := (Option.any_eq_true _ _).mp hlead
  exact ⟨s, c, lead, hs, (Service.claim?_eq_some hc).1, hget, beq_iff_eq.mp hsource⟩

end Headers

/-- The headers for a source named "quiz" are legal. -/
theorem headers_legal_quiz :
    ∃ s c, (service .default).Reachable s ∧ c ∈ s.claims ∧
      ∀ header ∈ buildHeaders c.delivery .default, LegalHeaderValue header.2 := by
  obtain ⟨s, c, lead, hs, hc, hlead, hstored⟩ :=
    @Headers.exists_claimed (.ofString "quiz") (by decide +kernel)
  exact ⟨s, c, hs, hc, (headers_legal_iff hs hc hlead
    (by decide +kernel : requiredText (.ofString "quiz") = .ok (.ofString "quiz")) hstored).mpr
    ⟨by decide +kernel, by decide +kernel⟩⟩

/-- A Cyrillic source name is accepted and its lead cannot be sent. -/
theorem cyrillic_source_not_sendable :
    ¬ ∀ settings : Settings, settings.Validated → LegalHeaderValue settings.userAgent →
      ∀ s c lead value sourceId, (service settings).Reachable s → c ∈ s.claims →
      s.db.requests.get? c.delivery.requestId = some lead →
      requiredText value = .ok sourceId → lead.sourceId.str = sourceId →
      ∀ header ∈ buildHeaders c.delivery settings, LegalHeaderValue header.2 := by
  intro h
  obtain ⟨s, c, lead, hs, hc, hlead, hstored⟩ :=
    @Headers.exists_claimed Headers.cyrillic (by decide +kernel)
  have hlegal := h .default Settings.default_validated (by decide +kernel) s c lead
    Headers.cyrillic Headers.cyrillic hs hc hlead (by decide +kernel) hstored
  have hsource := ((buildHeaders_legal_iff _ _).mp hlegal).2
  obtain ⟨lead', hlead', hcarries⟩ := claim_carries_lead hs hc
  obtain rfl : lead = lead' := Option.some.inj (hlead.symm.trans hlead')
  rw [hcarries.sourceId, hstored] at hsource
  exact absurd hsource (by decide +kernel)

end LeadQueue
