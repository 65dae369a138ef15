import LeadQueue.Guarantees.DeliveredFinal
import LeadQueue.Guarantees.FleetRecords
import LeadQueue.Guarantees.Headers
import LeadQueue.Network

/-!
# The journal and the recipient agree

Everything the queue knows of an attempt goes back to what `send` returned for
it, and that to what the recipient answered. So a status code in the journal is
the one the stub gave to this very attempt, and a delivered lead is one that the
stub confirmed, under the delivery's key and with the lead's own payload.
-/

namespace LeadQueue

open Relational Transition Stub

/-- A known entry is the report of the result recorded for it. -/
theorem reported_of_known {settings : Settings} {s : Service} (hs : (service settings).Reachable s)
    {id : DeliveryId} {k : ℕ} {a : Attempt} (ha : s.db.deliveryAttempts.get? (id, k) = some a)
    (hknown : a.outcome ≠ .unknown) :
    ∃ c result, s.claim? id k = some c ∧ s.result? id k = some result ∧ a.Reports c result := by
  obtain ⟨x, _, hx, _, hlife, _, hxa⟩ := lives_of_entry hs .refl ha
  obtain ⟨_, _, _, hclaims, hresults, _⟩ := Service.parts_of_life hx
  have hsome : (x.results k).isSome := ((life_inv hlife).known_iff k).mpr ⟨a, hxa, hknown⟩
  obtain ⟨result, hresult⟩ := Option.isSome_iff_exists.mp hsome
  obtain ⟨c, b, hc, hb, hreports⟩ := faithful_of_reachable hlife k result hresult
  obtain rfl : a = b := Option.some.inj (hxa.symm.trans hb)
  exact ⟨c, result, hclaims ▸ hc, hresults ▸ hresult, hreports⟩

namespace Life

/-- The placeholder of a lost attempt shows no code. -/
def Placeholders (l : Life) : Prop :=
  ∀ n a, l.journal n = some a → a.outcome = .unknown → a.statusCode = none

theorem statusCode_of_lostEntry {workerId : WorkerId} {now : Instant} {row : Delivery}
    {a : Attempt} (h : lostEntry workerId now row = .ok (some a)) : a.statusCode = none := by
  unfold lostEntry at h
  split at h
  · obtain ⟨a', ha', heq⟩ := Fallible.map_eq_ok_iff.mp h
    cases heq
    obtain ⟨ms, _, ha'⟩ := Fallible.bind_eq_ok_iff.mp ha'
    cases ha'
    rfl
  · cases h

theorem Placeholders.recorded {settings : Settings} {l : Life} {n : ℕ} {workerId : WorkerId}
    {claim : ClaimedDelivery} {result : AttemptResult} {row : Delivery} {ms : Int4}
    {text : Option PgText} {scheduled : Option Instant} (h : l.Placeholders)
    (hinv : l.Inv settings) (hnone : l.results n = none) :
    (l.recorded n result row
      (attemptEntry workerId claim result ms text scheduled)).Placeholders := by
  intro k a ha hunknown
  by_cases hk : k = n
  · -- the entry that is written is known
    subst hk
    obtain rfl : _ = a := Option.some.inj (journal_recorded_self.symm.trans ha)
    rw [journalAfter_outcome fun b hb => hinv.unrecorded hnone hb] at hunknown
    exact absurd hunknown (attemptEntry_outcome_ne _ _ _ _ _ _)
  · exact h k a ((journal_recorded_of_ne hk).symm.trans ha) hunknown

theorem Placeholders.step {settings : Settings} {l l' : Life} {d : Event} (h : l.Placeholders)
    (hinv : l.Inv settings) (hstep : Step settings l d l') : l'.Placeholders := by
  cases hstep with
  | advance _ => exact h
  | claim _ _ hlost =>
      intro n a ha hunknown
      rcases eq_some_of_addNew ha with hold | ⟨_, rfl, rfl⟩
      · exact h n a hold hunknown
      · exact statusCode_of_lostEntry hlost
  | success _ hnone _ _ _ => exact h.recorded hinv hnone
  | failure _ hnone _ _ _ _ _ => exact h.recorded hinv hnone
  | requeue _ _ => exact h

end Life

theorem placeholders_of_reachable {settings : Settings} {l : Life}
    (h : (life settings).Reachable l) : l.Placeholders := by
  refine h.invariant (fun l hstarts => ?_)
    fun _ _ _ hs hplaceholders _ hstep => hplaceholders.step (life_inv hs) hstep
  obtain ⟨_, _, _, _, _, _, _, _, hjournal⟩ := hstarts
  intro n a ha
  rw [hjournal] at ha
  cases ha

theorem statusCode_of_unknown {settings : Settings} {s : Service}
    (hs : (service settings).Reachable s) {a : Attempt} (ha : a ∈ s.db.deliveryAttempts.rows)
    (hunknown : a.outcome = .unknown) : a.statusCode = none := by
  obtain ⟨x, _, _, _, hlife, _, hxa⟩ := lives_of_entry hs .refl (Table.get?_of_mem ha)
  exact placeholders_of_reachable hlife _ a hxa hunknown

theorem send_statusCode {settings : Settings} {startedAt finishedAt : Instant}
    {exchange : Exchange} {code : ℕ}
    (h : (send settings startedAt finishedAt exchange).statusCode = some code) :
    ∃ response, exchange = .answered response ∧ response.statusCode = code := by
  cases exchange with
  | answered response => exact ⟨response, rfl, Option.some.inj h⟩
  | deadlineExceeded => cases h
  | timeout message => cases h
  | transportError message => cases h
  | unexpected message => cases h

/-- The body of the `k`-th attempt to deliver a lead. -/
def bodyOf (row : Delivery) (lead : Request) (k : ℕ) : Body where
  deliveryId := row.id.str
  requestId := row.requestId.str
  sourceId := lead.sourceId
  idempotencyKey := lead.idempotencyKey
  receivedAt := lead.receivedAt
  attempt := k
  payload := lead.payload

theorem buildBody_of_claim {settings : Settings} {clock : Instant} {row : Delivery} {k : ℕ}
    {c : Claim} {lead : Request} (hfits : c.Fits settings clock row k) (hlead : c.Carries lead) :
    buildBody c.delivery = bodyOf row lead k := by
  have hnumber : c.delivery.attemptNumber = k := hfits.number
  simp only [buildBody, bodyOf, hfits.deliveryId, hfits.requestId, hnumber, hlead.sourceId,
    hlead.idempotencyKey, hlead.receivedAt, hlead.payload]

namespace Network

variable {settings : Settings} {sends : HttpRequest → Bool} {route : PgText → Option PyStr}
  {n n' : Network}

theorem Delivers.step {e : NetworkEvent} {key : DeliveryId × ℕ} {exchange : Exchange}
    (h : n.Delivers settings route key exchange) (hstep : n.step settings sends route e = some n') :
    n'.Delivers settings route key exchange := by
  cases exchange with
  | answered response =>
      obtain ⟨q, hq, hgives⟩ := h
      obtain ⟨q', hq', hrequest, hstage⟩ := step_posted hstep hq
      refine ⟨q', hq', fun name hname => ?_⟩
      obtain ⟨r, hr, hgiven⟩ := hgives name (hrequest ▸ hname)
      have hr : q.stage = .answered r := Posted.answer?_eq_some.mp hr
      exact ⟨r, Posted.answer?_eq_some.mpr (hstage r hr), hgiven⟩
  | _ => trivial

structure Inv (settings : Settings) (route : PgText → Option PyStr) (n : Network) : Prop where
  fleet : n.fleet.Inv settings
  /-- A request is the request of a claim. -/
  posted : ∀ key q, n.posted key = some q → ∃ c, n.fleet.service.claim? key.1 key.2 = some c ∧
    q.request = httpRequest settings c.delivery
  /-- What is known of an attempt is what `send` made of its exchange. -/
  sent : ∀ key result, n.fleet.Has key result → ∃ startedAt finishedAt exchange,
    result = send settings startedAt finishedAt exchange ∧ n.Delivers settings route key exchange

theorem inv_empty (clock : Instant) : (empty clock).Inv settings route where
  fleet := Fleet.inv_empty clock
  posted _ _ h := by cases h
  sent _ _ h := by
    rcases h with h | ⟨_, _, _, h, _⟩
    · cases h
    · cases h

/-- A claim is not forgotten. -/
theorem Inv.claim?_mono (h : n.Inv settings route) {e : NetworkEvent}
    (hstep : n.step settings sends route e = some n') {id : DeliveryId} {k : ℕ} {c : Claim}
    (hc : n.fleet.service.claim? id k = some c) : n'.fleet.service.claim? id k = some c := by
  rcases step_fleet_cases hstep with hsame | ⟨d, _, _, hfleet, _⟩
  · rw [hsame]
    exact hc
  · rcases h.fleet.service_step hfleet with ⟨_, hsame⟩ | ⟨_, _, hs⟩
    · rw [hsame]
      exact hc
    · exact Service.step_claim?_mono hs hc

theorem Inv.step (h : n.Inv settings route) {e : NetworkEvent}
    (hstep : n.step settings sends route e = some n') : n'.Inv settings route where
  fleet := by
    rcases step_fleet_cases hstep with hsame | ⟨d, _, _, hfleet, _⟩
    · rw [hsame]
      exact h.fleet
    · exact h.fleet.step hfleet
  posted key q' hq' := by
    rcases posted_cases hstep hq' with
      ⟨q, hq, hrequest, _⟩ | ⟨w, p, claim, rfl, hp, htask, _, rfl⟩
    · obtain ⟨c, hc, hof⟩ := h.posted key q hq
      exact ⟨c, h.claim?_mono hstep hc, hrequest.trans hof⟩
    · obtain ⟨hheld, rfl⟩ := Process.task?_eq_some htask
      obtain ⟨⟨⟨c, hc, _, hdelivery⟩, _⟩, _⟩ := h.fleet.owes w claim ⟨p, hp, hheld⟩
      exact ⟨c, h.claim?_mono hstep hc, hdelivery ▸ rfl⟩
  sent key result hhas := by
    have hold : n.fleet.Has key result → ∃ startedAt finishedAt exchange,
        result = send settings startedAt finishedAt exchange ∧
          n'.Delivers settings route key exchange := by
      intro hhas
      obtain ⟨startedAt, finishedAt, exchange, heq, hdelivers⟩ := h.sent key result hhas
      exact ⟨startedAt, finishedAt, exchange, heq, hdelivers.step hstep⟩
    rcases step_fleet_cases hstep with hsame | ⟨d, rfl, hallows, hfleet, _⟩
    · exact hold (hsame ▸ hhas)
    · rcases h.fleet.has_step hfleet hhas with
        hbefore | ⟨w, startedAt, finishedAt, exchange, rfl, heq⟩
      · exact hold hbefore
      · exact ⟨startedAt, finishedAt, exchange, heq, Delivers.step hallows hstep⟩

end Network

theorem network_inv {settings : Settings} {sends : HttpRequest → Bool}
    {route : PgText → Option PyStr} {ok : Network → NetworkEvent → Prop} {n : Network}
    (h : (network settings sends route).ReachableBy ok n) : n.Inv settings route := by
  refine h.invariant (fun n hinit => ?_) fun _ _ _ _ hinv _ hstep => hinv.step hstep
  obtain ⟨clock, rfl⟩ := hinit
  exact Network.inv_empty clock

namespace Network

variable {settings : Settings} {sends : HttpRequest → Bool} {route : PgText → Option PyStr}
  {n : Network}

/-- The request of the attempt was answered so, if it went to the stub. -/
def Answered (route : PgText → Option PyStr) (n : Network) (key : DeliveryId × ℕ) (code : ℕ) :
    Prop :=
  ∃ q, n.posted key = some q ∧
    ∀ name, route q.request.url = some name → q.stage = .answered (.status code)

/-- A status code the queue knows is the recipient's. -/
theorem Inv.answered (h : n.Inv settings route)
    (hdeadline : settings.attemptDeadlineSeconds < silentHoldSeconds) {key : DeliveryId × ℕ}
    {result : AttemptResult} {code : ℕ} (hhas : n.fleet.Has key result)
    (hcode : result.statusCode = some code) : n.Answered route key code := by
  obtain ⟨startedAt, finishedAt, exchange, rfl, hdelivers⟩ := h.sent key result hhas
  obtain ⟨response, rfl, rfl⟩ := send_statusCode hcode
  obtain ⟨q, hq, hgives⟩ := hdelivers
  refine ⟨q, hq, fun name hname => ?_⟩
  obtain ⟨r, hr, hgiven⟩ := hgives name hname
  rw [Posted.answer?_eq_some.mp hr]
  cases r with
  | status code =>
      obtain rfl : code = _ := Option.some.inj hgiven
      rfl
  | silent =>
      simp only [RespondedWith.given?, if_neg (not_le.mpr hdeadline)] at hgiven
      cases hgiven

/-- Success is a 2xx code the queue knows. -/
theorem Inv.succeeded_iff (h : n.Inv settings route) {key : DeliveryId × ℕ}
    {result : AttemptResult} (hhas : n.fleet.Has key result) :
    result.succeeded = true ↔ ∃ code, result.statusCode = some code ∧ 200 ≤ code ∧ code < 300 := by
  obtain ⟨startedAt, finishedAt, exchange, rfl, _⟩ := h.sent key result hhas
  rw [send_succeeded_iff]
  constructor
  · rintro ⟨response, rfl, hlow, hhigh⟩
    exact ⟨response.statusCode, rfl, hlow, hhigh⟩
  · rintro ⟨code, hcode, hlow, hhigh⟩
    obtain ⟨response, rfl, rfl⟩ := send_statusCode hcode
    exact ⟨response, rfl, hlow, hhigh⟩

end Network

/-- In every state of workers and stub: an entry of the journal is a success
exactly when it shows a 2xx code; a code it shows is the one with which the stub
answered that attempt; and a delivered row has an attempt that was posted to its
URL, under its own id, with its lead's payload, and that the stub, if it was the
stub's, confirmed. A deadline above the stub's silence is left out. -/
theorem journal_matches_recipient {settings : Settings} {sends : HttpRequest → Bool}
    {route : PgText → Option PyStr} {n : Network} (h : (network settings sends route).Reachable n)
    (hdeadline : settings.attemptDeadlineSeconds < silentHoldSeconds) :
    (∀ a ∈ n.fleet.service.db.deliveryAttempts.rows,
      (a.outcome = .success ↔ ∃ code, a.statusCode = some code ∧ 200 ≤ code ∧ code < 300) ∧
      ∀ code, a.statusCode = some code →
        n.Answered route (a.deliveryId, a.attemptNumber) code) ∧
    ∀ row ∈ n.fleet.service.db.deliveries.rows, row.status = .delivered →
      ∃ k lead q, n.fleet.service.db.requests.get? row.requestId = some lead ∧
        n.posted (row.id, k) = some q ∧ q.request.url = row.recipientUrl ∧
        q.request.headers.lookup "Idempotency-Key" = some row.id.str ∧
        q.request.body = bodyOf row lead k ∧
        ∀ name, route row.recipientUrl = some name →
          ∃ r, q.stage = .answered r ∧ r.Confirms := by
  have hinv := network_inv h
  have hs := hinv.fleet.reachable
  have hentry : ∀ a ∈ n.fleet.service.db.deliveryAttempts.rows,
      (a.outcome = .success ↔ ∃ code, a.statusCode = some code ∧ 200 ≤ code ∧ code < 300) ∧
      ∀ code, a.statusCode = some code →
        n.Answered route (a.deliveryId, a.attemptNumber) code := by
    intro a ha
    by_cases hout : a.outcome = .unknown
    · simp [hout, statusCode_of_unknown hs ha hout]
    obtain ⟨c, result, _, hresult, hreports⟩ := reported_of_known hs (Table.get?_of_mem ha) hout
    have hhas : n.fleet.Has (a.deliveryId, a.attemptNumber) result := Or.inl hresult
    constructor
    · rw [hreports.outcome, hreports.statusCode, ← hinv.succeeded_iff hhas]
      cases result.succeeded <;> simp
    · intro code hcode
      exact hinv.answered hdeadline hhas (hreports.statusCode ▸ hcode)
  refine ⟨hentry, fun row hrow hdelivered => ?_⟩
  have hget := Table.get?_of_mem hrow
  have hx := Service.life_eq_some_iff.mpr ⟨row, hget, rfl⟩
  obtain ⟨k, a, ha, hsuccess⟩ := proven_of_reachable (life_of_reachable hs hx) hdelivered
  obtain ⟨hmem, hkey⟩ := Table.get?_eq_some_iff.mp ha
  obtain ⟨hiff, hcodes⟩ := hentry a hmem
  obtain ⟨code, hcode, hlow, hhigh⟩ := hiff.mp hsuccess
  obtain ⟨q, hq, hanswered⟩ := hcodes code hcode
  rw [show (a.deliveryId, a.attemptNumber) = (row.id, k) from hkey] at hq
  obtain ⟨c, hc, hrequest⟩ := hinv.posted _ q hq
  have hfits := (inv_of_reachable hs hx).fits k c hc
  obtain ⟨lead, hlead, hcarries⟩ := claim_carries_lead hs (Service.claim?_eq_some hc).1
  have hurl : q.request.url = row.recipientUrl := by
    rw [hrequest]
    exact hfits.recipientUrl
  refine ⟨k, lead, q, hfits.requestId ▸ hlead, hq, hurl, ?_, ?_, fun name hname => ?_⟩
  · rw [hrequest]
    exact congrArg (fun id : DeliveryId => some id.str) hfits.deliveryId
  · rw [hrequest]
    exact buildBody_of_claim hfits hcarries
  · exact ⟨_, hanswered name (hurl ▸ hname), hlow, hhigh⟩

/-- A delivered lead, and the stub's answer. -/
theorem journal_matches_recipient_confirmed :
    ∃ n row k q, (network .default Network.Move.anyRequest Network.Move.crm).Reachable n ∧
      row ∈ n.fleet.service.db.deliveries.rows ∧ row.status = .delivered ∧
      n.posted (row.id, k) = some q ∧ ∃ r, q.stage = .answered r ∧ r.Confirms := by
  obtain ⟨n, hn, hp⟩ := exists_networkBy_of_moves .default Network.Move.anyRequest
    Network.Move.crm (fun _ _ => True) Network.Move.confirmed
    (fun n => n.fleet.service.db.deliveries.rows.any fun d => decide (d.status = .delivered))
    (by decide +kernel)
  obtain ⟨row, hrow, hp⟩ := List.any_eq_true.mp hp
  have hdelivered := of_decide_eq_true hp
  obtain ⟨k, _, q, _, hq, _, _, _, hconfirmed⟩ :=
    (journal_matches_recipient hn (by decide +kernel)).2 row hrow hdelivered
  exact ⟨n, row, k, q, hn, hrow, hdelivered, hq, hconfirmed _ rfl⟩

end LeadQueue
