import LeadQueue.Intake
import LeadQueue.Library.Machine
import LeadQueue.Queue.Record
import LeadQueue.Queue.Requeue

/-!
# The service as a machine

A state is the committed database, the database server's clock, and what the
workers know: every claim handed out so far and every result whose transaction
committed. An event is one committed transaction or the passage of time. The
clock of a transaction, `now()`, is fixed when it starts, so it may lie before
the server's clock when it commits. The snapshot a claim ranks by, the scan of a
requeue and the rows they meet locked are left open: any table and any set will
do, the ones other transactions really leave behind among them.

A dead worker is one whose claims are never recorded. A record may come at any
later time, from any worker that holds a claim, at most once for each claim: a
worker sends once for each claim and does not try a failed commit again.
-/

namespace LeadQueue

open Transition

/-- A claim as the worker that made it holds it. -/
structure Claim where
  workerId : WorkerId
  claimedAt : Instant
  leaseExpiresAt : Instant
  delivery : ClaimedDelivery

namespace Claim

def attemptNumber (c : Claim) : ℕ := c.delivery.attemptNumber

/-- The journal key of the claim's attempt. -/
def key (c : Claim) : DeliveryId × ℕ := (c.delivery.deliveryId, c.delivery.attemptNumber)

end Claim

structure Service where
  db : Database
  clock : Instant
  claims : List Claim
  results : List ((DeliveryId × ℕ) × AttemptResult)

namespace Service

def empty (clock : Instant) : Service := ⟨.empty, clock, [], []⟩

/-- The claim of attempt `n` of a delivery. -/
def claim? (s : Service) (id : DeliveryId) (n : ℕ) : Option Claim :=
  s.claims.find? fun c => c.key = (id, n)

/-- The committed result of attempt `n` of a delivery. -/
def result? (s : Service) (id : DeliveryId) (n : ℕ) : Option AttemptResult :=
  (s.results.find? fun r => r.1 = (id, n)).map Prod.snd

end Service

inductive Event where
  | advance (t : Instant)
  | accept (gen : Generated) (req : IntakeRequest)
  | attach (gen : Generated) (requestId : RequestId) (recipients : List RecipientIn)
  | claim (call : ClaimCall)
  | record (id : DeliveryId) (n : ℕ) (result : AttemptResult) (draw : Draw) (now : Instant)
  | requeueRequest (call : RequeueScan) (requestId : RequestId)
      (recipients : Option (List PyStr)) (includeDelivered : Bool)
  | requeueBulk (call : RequeueScan) (filter : BulkFilter) (limit : ℕ)

/-- The claims a call's answer stands for. -/
def newClaims (settings : Settings) (call : ClaimCall) (claimed : List ClaimedDelivery) :
    List Claim :=
  claimed.map fun d => ⟨call.workerId, call.now, call.now + settings.lease, d⟩

namespace Service

/-- One transaction, or time passing. `none`: the event cannot happen, or its
transaction does not commit. -/
def step (settings : Settings) (s : Service) : Event → Option Service
  | .advance t => if s.clock ≤ t then some { s with clock := t } else none
  | .accept gen req =>
      if gen.now ≤ s.clock then
        match acceptRequest gen req s.db with
        | .ok (db, _) => some { s with db := db }
        | .error _ => none
      else none
  | .attach gen requestId recipients =>
      if gen.now ≤ s.clock then
        match attachRecipients gen requestId recipients s.db with
        | .ok (some (db, _)) => some { s with db := db }
        | _ => none
      else none
  | .claim call =>
      if call.now ≤ s.clock ∧ call.Valid settings then
        match claimBatch settings call s.db with
        | .ok (db, claimed) =>
            some { s with db := db, claims := s.claims ++ newClaims settings call claimed }
        | .error _ => none
      else none
  | .record id n result draw now =>
      -- at most one result for each claim
      if now ≤ s.clock ∧ (s.result? id n).isNone then
        match s.claim? id n with
        | some c =>
            match recordResult settings c.workerId c.delivery result draw now s.db with
            | .ok db => some { s with db := db, results := s.results ++ [((id, n), result)] }
            | .error _ => none
        | none => none
      else none
  | .requeueRequest call requestId recipients includeDelivered =>
      if call.now ≤ s.clock then
        match requeueRequest call requestId recipients includeDelivered s.db with
        | .ok (some (db, _)) => some { s with db := db }
        | _ => none
      else none
  | .requeueBulk call filter limit =>
      if call.now ≤ s.clock then
        match requeueBulk call filter limit s.db with
        | .ok (db, _) => some { s with db := db }
        | .error _ => none
      else none

/-- The ids a requeue event makes pending. -/
def requeuedIds (s : Service) : Event → List DeliveryId
  | .requeueRequest call requestId recipients includeDelivered =>
      match requeueRequest call requestId recipients includeDelivered s.db with
      | .ok (some (_, outcome)) => outcome.requeuedIds
      | _ => []
  | .requeueBulk call filter limit =>
      match requeueBulk call filter limit s.db with
      | .ok (_, outcome) => outcome.requeuedIds
      | .error _ => []
  | _ => []

/-! ## What one step can do -/

theorem step_advance {settings : Settings} {s t : Service} {time : Instant} :
    step settings s (.advance time) = some t ↔ s.clock ≤ time ∧ t = { s with clock := time } := by
  simp [step, eq_comm]

theorem step_accept {settings : Settings} {s t : Service} {gen : Generated}
    {req : IntakeRequest} :
    step settings s (.accept gen req) = some t ↔
      gen.now ≤ s.clock ∧ ∃ db answer, acceptRequest gen req s.db = .ok (db, answer) ∧
        t = { s with db := db } := by
  simp only [step]
  constructor
  · intro h
    split at h
    · rename_i hnow
      split at h
      · rename_i db answer heq
        cases h
        exact ⟨hnow, db, answer, heq, rfl⟩
      · cases h
    · cases h
  · rintro ⟨hnow, db, answer, heq, rfl⟩
    rw [if_pos hnow, heq]

theorem step_attach {settings : Settings} {s t : Service} {gen : Generated}
    {requestId : RequestId} {recipients : List RecipientIn} :
    step settings s (.attach gen requestId recipients) = some t ↔
      gen.now ≤ s.clock ∧ ∃ db answer,
        attachRecipients gen requestId recipients s.db = .ok (some (db, answer)) ∧
        t = { s with db := db } := by
  simp only [step]
  constructor
  · intro h
    split at h
    · rename_i hnow
      split at h
      · rename_i db answer heq
        cases h
        exact ⟨hnow, db, answer, heq, rfl⟩
      · cases h
    · cases h
  · rintro ⟨hnow, db, answer, heq, rfl⟩
    rw [if_pos hnow, heq]

/-- Intake changes the database only, and only adds to it. -/
theorem step_intake {settings : Settings} {s t : Service} {e : Event} {gen : Generated}
    (he : (∃ req, e = .accept gen req) ∨
      ∃ requestId recipients, e = .attach gen requestId recipients)
    (h : step settings s e = some t) :
    gen.now ≤ s.clock ∧ ∃ db, Extends gen.now s.db db ∧ t = { s with db := db } := by
  rcases he with ⟨req, rfl⟩ | ⟨requestId, recipients, rfl⟩
  · obtain ⟨hnow, db, answer, heq, ht⟩ := step_accept.mp h
    exact ⟨hnow, db, acceptRequest_extends heq, ht⟩
  · obtain ⟨hnow, db, answer, heq, ht⟩ := step_attach.mp h
    exact ⟨hnow, db, attachRecipients_extends heq, ht⟩

theorem step_claim {settings : Settings} {s t : Service} {call : ClaimCall} :
    step settings s (.claim call) = some t ↔
      call.now ≤ s.clock ∧ call.Valid settings ∧ ∃ db claimed,
        claimBatch settings call s.db = .ok (db, claimed) ∧
        t = { s with db := db, claims := s.claims ++ newClaims settings call claimed } := by
  simp only [step]
  constructor
  · intro h
    split at h
    · rename_i hguard
      split at h
      · rename_i db claimed heq
        cases h
        exact ⟨hguard.1, hguard.2, db, claimed, heq, rfl⟩
      · cases h
    · cases h
  · rintro ⟨hnow, hvalid, db, claimed, heq, rfl⟩
    simp [hnow, hvalid, heq]

theorem step_record {settings : Settings} {s t : Service} {id : DeliveryId} {n : ℕ}
    {result : AttemptResult} {draw : Draw} {now : Instant} :
    step settings s (.record id n result draw now) = some t ↔
      now ≤ s.clock ∧ s.result? id n = none ∧ ∃ c db, s.claim? id n = some c ∧
        recordResult settings c.workerId c.delivery result draw now s.db = .ok db ∧
        t = { s with db := db, results := s.results ++ [((id, n), result)] } := by
  simp only [step, Option.isNone_iff_eq_none]
  constructor
  · intro h
    split at h
    · rename_i hguard
      split at h
      · rename_i c hc
        split at h
        · rename_i db heq
          cases h
          exact ⟨hguard.1, hguard.2, c, db, hc, heq, rfl⟩
        · cases h
      · cases h
    · cases h
  · rintro ⟨hnow, hnone, c, db, hc, heq, rfl⟩
    simp [hnow, hnone, hc, heq]

/-- Both manual retries are one requeue statement. -/
theorem step_requeue {settings : Settings} {s t : Service} {e : Event} {call : RequeueScan}
    (he : (∃ requestId recipients includeDelivered,
        e = .requeueRequest call requestId recipients includeDelivered) ∨
      ∃ filter limit, e = .requeueBulk call filter limit)
    (h : step settings s e = some t) :
    call.now ≤ s.clock ∧ ∃ where_ includeDelivered limit,
      s.requeuedIds e = (requeue call where_ includeDelivered limit s.db).2.requeuedIds ∧
      t = { s with db := (requeue call where_ includeDelivered limit s.db).1 } := by
  rcases he with ⟨requestId, recipients, includeDelivered, rfl⟩ | ⟨filter, limit, rfl⟩
  · simp only [step] at h
    split at h
    · split at h
      · rename_i hnow _ db outcome heq
        cases h
        obtain ⟨named, _, hspec⟩ := requeueRequest_spec heq
        refine ⟨hnow, requestWhere requestId named, includeDelivered, none, ?_, ?_⟩
        · rw [← hspec]
          simp only [requeuedIds, heq]
        · rw [← hspec]
      · cases h
    · cases h
  · simp only [step] at h
    split at h
    · split at h
      · rename_i hnow _ db outcome heq
        cases h
        have hspec := requeueBulk_spec heq
        refine ⟨hnow, bulkWhere filter s.db, true, some limit, ?_, ?_⟩
        · rw [← hspec]
          simp only [requeuedIds, heq]
        · rw [← hspec]
      · cases h
    · cases h

/-- Only a claim adds claims. -/
theorem step_claims {settings : Settings} {s t : Service} {e : Event}
    (h : step settings s e = some t) :
    t.claims = s.claims ∨ ∃ call db claimed, e = .claim call ∧ call.Valid settings ∧
      claimBatch settings call s.db = .ok (db, claimed) ∧
      t.claims = s.claims ++ newClaims settings call claimed := by
  cases e with
  | advance time =>
      obtain ⟨_, rfl⟩ := step_advance.mp h
      exact Or.inl rfl
  | accept gen req =>
      obtain ⟨_, db, _, rfl⟩ := step_intake (Or.inl ⟨req, rfl⟩) h
      exact Or.inl rfl
  | attach gen requestId recipients =>
      obtain ⟨_, db, _, rfl⟩ := step_intake (Or.inr ⟨requestId, recipients, rfl⟩) h
      exact Or.inl rfl
  | claim call =>
      obtain ⟨_, hvalid, db, claimed, hclaim, rfl⟩ := step_claim.mp h
      exact Or.inr ⟨call, db, claimed, rfl, hvalid, hclaim, rfl⟩
  | record id n result draw now =>
      obtain ⟨_, _, c, db, _, _, rfl⟩ := step_record.mp h
      exact Or.inl rfl
  | requeueRequest call requestId recipients includeDelivered =>
      obtain ⟨_, _, _, _, _, rfl⟩ :=
        step_requeue (Or.inl ⟨requestId, recipients, includeDelivered, rfl⟩) h
      exact Or.inl rfl
  | requeueBulk call filter limit =>
      obtain ⟨_, _, _, _, _, rfl⟩ := step_requeue (Or.inr ⟨filter, limit, rfl⟩) h
      exact Or.inl rfl

/-- The clock after an event. -/
def clockAfter (clock : Instant) : Event → Instant
  | .advance t => t
  | _ => clock

/-- The result an event commits. -/
def recordedBy : Event → List ((DeliveryId × ℕ) × AttemptResult)
  | .record id n result _ _ => [((id, n), result)]
  | _ => []

/-- What a step does outside the database, claims apart. -/
theorem step_memory {settings : Settings} {s t : Service} {e : Event}
    (h : step settings s e = some t) :
    t.clock = clockAfter s.clock e ∧ t.results = s.results ++ recordedBy e := by
  cases e with
  | advance time =>
      obtain ⟨_, rfl⟩ := step_advance.mp h
      exact ⟨rfl, (List.append_nil _).symm⟩
  | accept gen req =>
      obtain ⟨_, db, _, rfl⟩ := step_intake (Or.inl ⟨req, rfl⟩) h
      exact ⟨rfl, (List.append_nil _).symm⟩
  | attach gen requestId recipients =>
      obtain ⟨_, db, _, rfl⟩ := step_intake (Or.inr ⟨requestId, recipients, rfl⟩) h
      exact ⟨rfl, (List.append_nil _).symm⟩
  | claim call =>
      obtain ⟨_, _, db, claimed, _, rfl⟩ := step_claim.mp h
      exact ⟨rfl, (List.append_nil _).symm⟩
  | record id n result draw now =>
      obtain ⟨_, _, c, db, _, _, rfl⟩ := step_record.mp h
      exact ⟨rfl, rfl⟩
  | requeueRequest call requestId recipients includeDelivered =>
      obtain ⟨_, _, _, _, _, rfl⟩ :=
        step_requeue (Or.inl ⟨requestId, recipients, includeDelivered, rfl⟩) h
      exact ⟨rfl, (List.append_nil _).symm⟩
  | requeueBulk call filter limit =>
      obtain ⟨_, _, _, _, _, rfl⟩ := step_requeue (Or.inr ⟨filter, limit, rfl⟩) h
      exact ⟨rfl, (List.append_nil _).symm⟩

/-- A step is intake, or leaves the leads and the target columns alone. -/
theorem step_updates {settings : Settings} {s t : Service} {e : Event}
    (h : step settings s e = some t) :
    (∃ gen, (∃ req, e = .accept gen req) ∨
      ∃ requestId recipients, e = .attach gen requestId recipients) ∨
    (t.db.requests = s.db.requests ∧ ∀ id, ∃ f : Delivery → Delivery,
      (∀ d : Delivery, d.SameTarget (f d)) ∧
        t.db.deliveries.get? id = (s.db.deliveries.get? id).map f) := by
  cases e with
  | advance time =>
      obtain ⟨_, rfl⟩ := step_advance.mp h
      exact Or.inr ⟨rfl, fun id => ⟨fun d => d, .refl, by simp⟩⟩
  | accept gen req => exact Or.inl ⟨gen, Or.inl ⟨req, rfl⟩⟩
  | attach gen requestId recipients => exact Or.inl ⟨gen, Or.inr ⟨requestId, recipients, rfl⟩⟩
  | claim call =>
      obtain ⟨_, _, db, claimed, hclaim, rfl⟩ := step_claim.mp h
      obtain ⟨lost, hspec⟩ := claimBatch_spec hclaim
      refine Or.inr ⟨hspec.requests, fun id => ⟨_, fun d => ?_, hspec.deliveries id⟩⟩
      split
      · exact ⟨rfl, rfl, rfl, rfl, rfl⟩
      · exact .refl d
  | record id n result draw now =>
      obtain ⟨_, _, c, db, _, hrec, rfl⟩ := step_record.mp h
      obtain ⟨f, _, _, _, htarget, hrow, _⟩ := recordResult_frame hrec
      exact Or.inr ⟨requests_recordResult hrec, fun id => ⟨f, htarget, hrow id⟩⟩
  | requeueRequest call requestId recipients includeDelivered =>
      obtain ⟨_, where_, optIn, limit, _, rfl⟩ :=
        step_requeue (Or.inl ⟨requestId, recipients, includeDelivered, rfl⟩) h
      exact Or.inr ⟨rfl, fun id => ⟨_, requeue_target _ _ _ _ _,
        get?_requeue call where_ optIn limit s.db id⟩⟩
  | requeueBulk call filter limit =>
      obtain ⟨_, where_, optIn, cap, _, rfl⟩ := step_requeue (Or.inr ⟨filter, limit, rfl⟩) h
      exact Or.inr ⟨rfl, fun id => ⟨_, requeue_target _ _ _ _ _,
        get?_requeue call where_ optIn cap s.db id⟩⟩

/-- A lead, once stored, stays as it is. -/
theorem step_requests {settings : Settings} {s t : Service} {e : Event}
    (h : step settings s e = some t) {id : RequestId} {lead : Request}
    (hlead : s.db.requests.get? id = some lead) : t.db.requests.get? id = some lead := by
  rcases step_updates h with ⟨gen, he⟩ | ⟨hrequests, _⟩
  · obtain ⟨_, db, hext, rfl⟩ := step_intake he h
    exact hext.requests id lead hlead
  · rw [hrequests]
    exact hlead

/-- Intake leaves a delivery as it is or adds one with its lead. -/
theorem row_of_extends {now : Instant} {db db' : Database} (h : Extends now db db')
    (id : DeliveryId) :
    (∃ f : Delivery → Delivery, (∀ d : Delivery, d.SameTarget (f d)) ∧
      db'.deliveries.get? id = (db.deliveries.get? id).map f) ∨
    ∃ row, db'.deliveries.get? id = some row ∧ (db'.requests.get? row.requestId).isSome := by
  rcases h.deliveries id with hsame | ⟨_, requestId, r, hnew, hlead⟩
  · exact Or.inl ⟨fun d => d, .refl, by simpa using hsame⟩
  · exact Or.inr ⟨_, hnew, hlead⟩

/-- A row keeps its target columns; a new row belongs to a stored lead. -/
theorem step_rows {settings : Settings} {s t : Service} {e : Event}
    (h : step settings s e = some t) (id : DeliveryId) :
    (∃ f : Delivery → Delivery, (∀ d : Delivery, d.SameTarget (f d)) ∧
      t.db.deliveries.get? id = (s.db.deliveries.get? id).map f) ∨
    ∃ row, t.db.deliveries.get? id = some row ∧ (t.db.requests.get? row.requestId).isSome := by
  rcases step_updates h with ⟨gen, he⟩ | ⟨_, hrows⟩
  · obtain ⟨_, db, hext, rfl⟩ := step_intake he h
    exact row_of_extends hext id
  · exact Or.inl (hrows id)

/-! ## Claims and results by number -/

theorem claim?_eq_some {s : Service} {id : DeliveryId} {n : ℕ} {c : Claim}
    (h : s.claim? id n = some c) :
    c ∈ s.claims ∧ c.delivery.deliveryId = id ∧ c.attemptNumber = n := by
  have hkey : c.key = (id, n) := by simpa using List.find?_some h
  exact ⟨List.mem_of_find?_eq_some h, congrArg Prod.fst hkey, congrArg Prod.snd hkey⟩

theorem claim?_append (s : Service) (db : Database) (cs : List Claim) (id : DeliveryId) (n : ℕ) :
    claim? { s with db := db, claims := s.claims ++ cs } id n =
      (s.claim? id n).or (cs.find? fun c => c.key = (id, n)) :=
  List.find?_append

theorem result?_append (s : Service) (db : Database) (key : DeliveryId × ℕ)
    (result : AttemptResult) (id : DeliveryId) (n : ℕ) :
    result? { s with db := db, results := s.results ++ [(key, result)] } id n =
      (s.result? id n).or (if key = (id, n) then some result else none) := by
  simp only [result?, List.find?_append]
  cases s.results.find? fun r => r.1 = (id, n) with
  | some r => simp
  | none => by_cases h : key = (id, n) <;> simp [h]

/-- A claim is never forgotten. -/
theorem step_claim?_mono {settings : Settings} {s t : Service} {e : Event}
    (h : step settings s e = some t) {id : DeliveryId} {n : ℕ} {c : Claim}
    (hc : s.claim? id n = some c) : t.claim? id n = some c := by
  rcases step_claims h with hsame | ⟨call, db, claimed, _, _, _, happend⟩
  · unfold claim?
    rw [hsame]
    exact hc
  · unfold claim? at hc ⊢
    rw [happend, List.find?_append, hc, Option.some_or]

/-- A result appears only by being recorded. -/
theorem step_result?_none {settings : Settings} {s t : Service} {e : Event}
    (h : step settings s e = some t) {id : DeliveryId} {n : ℕ} (hnone : s.result? id n = none)
    (hother : ∀ r ∈ recordedBy e, r.1 ≠ (id, n)) : t.result? id n = none := by
  unfold result? at hnone ⊢
  rw [(step_memory h).2, List.find?_append, Option.map_eq_none_iff.mp hnone, Option.none_or,
    Option.map_eq_none_iff, List.find?_eq_none]
  exact fun r hr => by simpa using hother r hr

end Service

/-- Runs start from an empty database. -/
def service (settings : Settings) : Machine Service Event :=
  .ofFun (fun s => ∃ clock, s = .empty clock) (Service.step settings)

/-- Every delivery belongs to a stored lead. -/
theorem lead_of_delivery {settings : Settings} {ok : Service → Event → Prop} {s : Service}
    (h : (service settings).ReachableBy ok s) :
    ∀ {id : DeliveryId} {row : Delivery}, s.db.deliveries.get? id = some row →
      ∃ lead, s.db.requests.get? row.requestId = some lead := by
  induction h with
  | init h0 =>
      obtain ⟨clock, rfl⟩ := h0
      intro id row hrow
      cases hrow
  | step _ _ hstep ih =>
      intro id row hrow
      rcases Service.step_rows hstep id with ⟨f, htarget, hmap⟩ | ⟨row', hrow', hlead⟩
      · obtain ⟨old, hold, rfl⟩ := Option.map_eq_some_iff.mp (hmap.symm.trans hrow)
        obtain ⟨lead, hlead⟩ := ih hold
        exact ⟨lead, Service.step_requests hstep ((htarget old).requestId.symm ▸ hlead)⟩
      · obtain rfl : row' = row := Option.some.inj (hrow'.symm.trans hrow)
        exact Option.isSome_iff_exists.mp hlead

theorem referenced_of_reachable {settings : Settings} {ok : Service → Event → Prop} {s : Service}
    (h : (service settings).ReachableBy ok s) : s.db.Referenced :=
  fun _ hd => lead_of_delivery h (Relational.Table.get?_of_mem hd)

/-! ## Moves

Steps of a run in which transactions do not overlap, chosen from the state they
are taken in. -/

/-- A run from the empty database, computed. -/
theorem exists_reachableBy_of_moves (settings : Settings) (ok : Service → Event → Prop)
    [∀ s e, Decidable (ok s e)] (moves : List (Service → Event)) (p : Service → Bool)
    (h : (Machine.play (Service.step settings) ok (.empty 0) moves).any p = true) :
    ∃ s, (service settings).ReachableBy ok s ∧ p s = true :=
  Machine.exists_reachableBy_of_play ⟨0, rfl⟩ h

theorem exists_reachable_of_moves (settings : Settings) (moves : List (Service → Event))
    (p : Service → Bool)
    (h : (Machine.play (Service.step settings) (fun _ _ => True) (.empty 0) moves).any p = true) :
    ∃ s, (service settings).Reachable s ∧ p s = true :=
  exists_reachableBy_of_moves settings _ moves p h

/-- A run cut in two, with a condition on the steps of its second part. -/
theorem exists_later_of_moves (settings : Settings) (ok : Service → Event → Prop)
    [∀ s e, Decidable (ok s e)] (moves moves' : List (Service → Event))
    (p : Service → Service → Bool)
    (h : ((Machine.play (Service.step settings) (fun _ _ => True) (.empty 0) moves).any fun s =>
      (Machine.play (Service.step settings) ok s moves').any (p s)) = true) :
    ∃ s t, (service settings).Reachable s ∧ (service settings).LaterBy ok s t ∧ p s t = true :=
  Machine.exists_laterBy_of_play ⟨0, rfl⟩ h

namespace Move

def advance (span : Duration) (s : Service) : Event := .advance (s.clock + span)

def claim (settings : Settings) (workerId : WorkerId) (limit : ℕ) (s : Service) : Event :=
  .claim (.unlocked settings workerId limit s.clock s.db.deliveries)

/-- The lowest draw. -/
def noJitter : Draw := ⟨0, le_rfl, zero_le_one⟩

def record (id : DeliveryId) (n : ℕ) (result : AttemptResult) (s : Service) : Event :=
  .record id n result noJitter s.clock

/-- Retry every recipient of a lead. -/
def requeue (requestId : RequestId) (includeDelivered : Bool) (s : Service) : Event :=
  .requeueRequest (.unlocked s.clock (requestWhere requestId []) s.db.deliveries) requestId none
    includeDelivered

/-- Accept a lead; the database's ids count up from the lead's. -/
def accept (requestId : RequestId) (req : IntakeRequest) (s : Service) : Event :=
  .accept ⟨s.clock, requestId, fun i => requestId + BitVec.ofNat 128 (i + 1)⟩ req

/-- A lead with one recipient. -/
def lead : IntakeRequest where
  sourceId := .ofString "quiz"
  idempotencyKey := .ofString "7"
  payload := .null
  recipients := [⟨.ofString "https://a.example/hook", none, .ofString "https://a.example"⟩]

/-- The id of the first delivery of the lead with id 0. -/
def first : DeliveryId := 1

/-- An attempt that timed out. -/
def timedOut : AttemptResult where
  succeeded := false
  errorKind := some .timeout
  statusCode := none
  responseExcerpt := none
  startedAt := 0
  finishedAt := 0

/-- An attempt that was confirmed. -/
def confirmed : AttemptResult where
  succeeded := true
  errorKind := none
  statusCode := some 200
  responseExcerpt := none
  startedAt := 0
  finishedAt := 0

def workerA : WorkerId := ⟨[0x41], by decide⟩

def workerB : WorkerId := ⟨[0x42], by decide⟩

end Move

end LeadQueue
