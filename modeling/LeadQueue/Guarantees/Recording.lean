import LeadQueue.Life.Invariant
import LeadQueue.Sender

/-!
# A confirmed delivery is recorded

The record of a success stores a piece of the recipient's answer, and Postgres
refuses text with U+0000. Everything else about the record goes through: the
claim's delivery exists, and its journal number is free or held by a
placeholder.
-/

namespace LeadQueue

open Relational Transition

/-- Delivered, never due again, and journalled as a success. -/
structure ConfirmedIn (db : Database) (claim : ClaimedDelivery) : Prop where
  row : ∃ row, db.deliveries.get? claim.deliveryId = some row ∧ row.status = .delivered ∧
    ∀ now, row.due now = false
  entry : ∃ a, db.deliveryAttempts.get? (claim.deliveryId, claim.attemptNumber) = some a ∧
    a.outcome = .success

/-- The state a recorded success leaves behind. -/
theorem confirmed_of_recordResult {settings : Settings} {s : Service} {c : Claim}
    {result : AttemptResult} {draw : Draw} {now : Instant} {db : Database}
    (hs : (service settings).Reachable s) (hc : c ∈ s.claims)
    (hnew : s.result? c.delivery.deliveryId c.attemptNumber = none)
    (hsucc : result.succeeded = true)
    (hrec : recordResult settings c.workerId c.delivery result draw now s.db = .ok db) :
    ConfirmedIn db c.delivery := by
  have hclaim := claim?_of_mem hs hc
  obtain ⟨entry, hspec⟩ := recordResult_success hsucc hrec
  obtain ⟨ms, text, _, _, rfl⟩ := hspec.entry_eq
  cases hget : s.db.deliveries.get? c.delivery.deliveryId with
  | none =>
      have hfree := (Service.tidy_of_reachable hs _ hget c.attemptNumber).1
      rw [hclaim] at hfree
      cases hfree
  | some row =>
      have hinv := inv_of_reachable hs (Service.life_eq_some_iff.mpr ⟨row, hget, rfl⟩)
      have hid : row.id = c.delivery.deliveryId := Table.key_of_get? hget
      constructor
      · have hstatus : (if undelivered c.delivery.deliveryId row then deliveredRow result now row
            else row).status = .delivered := by
          by_cases hdel : row.status = .delivered
          · simp [undelivered, hdel]
          · simp [undelivered, hid, hdel, deliveredRow, markDelivered, deliveriesSyncClaimable]
        refine ⟨_, by rw [hspec.deliveries, hget, Option.map_some], hstatus, fun t => ?_⟩
        simp [Delivery.due, Delivery.unresolved, hstatus]
      · refine ⟨_, (hspec.journal _).trans (if_pos rfl), ?_⟩
        refine (Life.journalAfter_outcome fun a ha => hinv.unrecorded hnew ha).trans ?_
        simp [attemptEntry, hsucc]

/-- The record of a 2xx answer commits, and leaves the delivery confirmed,
exactly when the part of the body that is kept has no U+0000 and the attempt
took less than 2^31 milliseconds. -/
theorem success_recorded_iff {settings : Settings} {s : Service} {c : Claim}
    {response : Response} {startedAt finishedAt now : Instant} {draw : Draw}
    (hs : (service settings).Reachable s) (hc : c ∈ s.claims)
    (hnew : s.result? c.delivery.deliveryId c.attemptNumber = none)
    (h2xx : 200 ≤ response.statusCode ∧ response.statusCode < 300) :
    (∃ db, recordResult settings c.workerId c.delivery
        (send settings startedAt finishedAt (.answered response)) draw now s.db = .ok db ∧
      ConfirmedIn db c.delivery) ↔
    (∀ text ∈ response.text,
      (0 : CodePoint) ∉ (PyStr.strip text).take settings.responseExcerptBytes) ∧
      finishedAt - startedAt < 2147483648000 := by
  have hsucc : (send settings startedAt finishedAt (.answered response)).succeeded = true :=
    send_succeeded_iff.mpr ⟨response, rfl, h2xx⟩
  have hcommit := @recordResult_success_isOk_iff settings c.workerId c.delivery _ draw now s.db
    hsucc
  rw [AttemptResult.durationMs_fits_iff] at hcommit
  have hexcerpt := excerpt_storable_iff response settings.responseExcerptBytes
  constructor
  · rintro ⟨db, hrec, _⟩
    obtain ⟨hduration, htext⟩ := hcommit.mp ⟨db, hrec⟩
    exact ⟨hexcerpt.mp htext, hduration⟩
  · rintro ⟨hbody, hduration⟩
    obtain ⟨db, hrec⟩ := hcommit.mpr ⟨hduration, hexcerpt.mpr hbody⟩
    exact ⟨db, hrec, confirmed_of_recordResult hs hc hnew hsucc hrec⟩

namespace Recording

/-- A worker has claimed the lead's one delivery. -/
def claimed : List (Service → Event) :=
  [Move.accept 0 Move.lead, Move.claim .default Move.workerA 1]

/-- A 200 with this body. -/
def okWith (body : PyStr) : Response := ⟨200, some body, body.length⟩

/-- The record of an answer to the first attempt. -/
def recordAnswer (c : Claim) (body : PyStr) (s : Service) : Except Raised Database :=
  recordResult .default c.workerId c.delivery
    (send .default s.clock s.clock (.answered (okWith body))) Move.noJitter s.clock s.db

end Recording

/-- A plain body is recorded. -/
theorem success_recorded_plain :
    ∃ s c db, (service .default).Reachable s ∧ c ∈ s.claims ∧
      Recording.recordAnswer c (.ofString "ok") s = .ok db ∧ ConfirmedIn db c.delivery := by
  obtain ⟨s, hs, hp⟩ := exists_reachable_of_moves .default Recording.claimed
    (fun s => (s.claim? Move.first 1).isSome && (s.result? Move.first 1).isNone)
    (by decide +kernel)
  simp only [Bool.and_eq_true, Option.isNone_iff_eq_none] at hp
  obtain ⟨hclaim, hres⟩ := hp
  obtain ⟨c, hc⟩ := Option.isSome_iff_exists.mp hclaim
  obtain ⟨hmem, hcid, hcn⟩ := Service.claim?_eq_some hc
  obtain ⟨db, hrec, hconfirmed⟩ := (@success_recorded_iff .default s c
    (Recording.okWith (.ofString "ok")) s.clock s.clock s.clock Move.noJitter hs hmem
    (hcid ▸ hcn ▸ hres) (by decide)).mpr ⟨by decide +kernel, by rw [sub_self]; norm_num⟩
  exact ⟨s, c, db, hs, hmem, hrec, hconfirmed⟩

/-- A body of one U+0000 rolls the success back. -/
theorem success_with_nul_not_recorded :
    ¬ ∀ settings : Settings, settings.Validated → ∀ s c response startedAt finishedAt now draw,
      (service settings).Reachable s → c ∈ s.claims →
      s.result? c.delivery.deliveryId c.attemptNumber = none →
      200 ≤ response.statusCode ∧ response.statusCode < 300 →
      0 ≤ finishedAt - startedAt ∧ finishedAt - startedAt ≤ micros settings.attemptDeadlineSeconds →
      ∃ db, recordResult settings c.workerId c.delivery
          (send settings startedAt finishedAt (.answered response)) draw now s.db = .ok db ∧
        ConfirmedIn db c.delivery := by
  intro h
  obtain ⟨s, hs, hp⟩ := exists_reachable_of_moves .default Recording.claimed
    (fun s => (s.result? Move.first 1).isNone && (s.claim? Move.first 1).any fun c : Claim =>
      !(Recording.recordAnswer c [0] s).isOk)
    (by decide +kernel)
  simp only [Bool.and_eq_true, Option.isNone_iff_eq_none, Option.any_eq_true] at hp
  obtain ⟨hres, c, hc, herror⟩ := hp
  obtain ⟨hmem, hcid, hcn⟩ := Service.claim?_eq_some hc
  obtain ⟨db, hrec, _⟩ := h .default Settings.default_validated s c (Recording.okWith [0]) s.clock
    s.clock s.clock Move.noJitter hs hmem (hcid ▸ hcn ▸ hres) (by decide)
    (by rw [sub_self]; decide +kernel)
  rw [show Recording.recordAnswer c [0] s = .ok db from hrec] at herror
  cases herror

end LeadQueue
