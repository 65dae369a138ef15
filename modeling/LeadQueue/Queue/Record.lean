import LeadQueue.Queue.Claim
import LeadQueue.Retry

/-!
# Recording the outcome

`recordResult` moves the delivery to its next state and writes the journal
entry in one transaction. Success does not look at the lease; failure is
recorded only on a row that this worker id holds.
-/

namespace LeadQueue

open Relational

/-- What happened during one HTTP attempt. -/
structure AttemptResult where
  succeeded : Bool
  errorKind : Option ErrorKind
  statusCode : Option ℕ
  responseExcerpt : Option PyStr
  startedAt : Instant
  finishedAt : Instant
deriving DecidableEq

/-- `max(0, int(total_seconds() * 1000))`, on doubles. -/
def AttemptResult.durationMs (r : AttemptResult) : ℤ :=
  max 0 (floatToInt (float (float (((r.finishedAt - r.startedAt : ℤ) : ℚ) / 1000000) * 1000)))

theorem doubleMillis_nonpos {d : ℤ} (h : d < 0) :
    floatToInt (float (float ((d : ℚ) / 1000000) * 1000)) ≤ 0 := by
  have hd : (d : ℚ) < 0 := by exact_mod_cast h
  have hfirst : float ((d : ℚ) / 1000000) ≤ 0 := float_nonpos (by linarith)
  have hsecond : float (float ((d : ℚ) / 1000000) * 1000) ≤ 0 := float_nonpos (by linarith)
  unfold floatToInt
  split
  · exact Int.floor_le_iff.mpr (by push_cast; linarith)
  · exact Int.ceil_le.mpr (by push_cast; linarith)

/-- Two roundings to a double do not carry a count of microseconds across the
border of 2^31 milliseconds. -/
theorem doubleMillis_le_iff (d : ℤ) :
    floatToInt (float (float ((d : ℚ) / 1000000) * 1000)) ≤ 2147483647 ↔ d < 2147483648000 := by
  rcases eq_or_ne d 2147483648000 with rfl | hborder
  · exact iff_of_false (by decide +kernel) (by omega)
  rcases lt_or_ge d 0 with hneg | hpos
  · exact iff_of_true ((doubleMillis_nonpos hneg).trans (by norm_num)) (by omega)
  · have hd : (0 : ℚ) ≤ d := by exact_mod_cast hpos
    have hlow := @le_float ((d : ℚ) / 1000000) (by positivity)
    have hhigh := @float_le ((d : ℚ) / 1000000) (by positivity)
    generalize float ((d : ℚ) / 1000000) = seconds at *
    have hseconds : 0 ≤ seconds * 1000 := by linarith
    have hlow' := le_float hseconds
    have hhigh' := float_le hseconds
    have hms : 0 ≤ float (seconds * 1000) := by linarith
    rw [floatToInt, if_pos hms, ← Int.lt_add_one_iff, Int.floor_lt]
    push_cast
    constructor
    · intro hlt
      by_contra hge
      have hle : (2147483648001 : ℚ) ≤ d := by exact_mod_cast (by omega : 2147483648001 ≤ d)
      linarith
    · intro hlt
      have hle : (d : ℚ) ≤ 2147483647999 := by exact_mod_cast (by omega : d ≤ 2147483647999)
      linarith

/-- The duration fits its column exactly when it is less than 2^31 milliseconds. -/
theorem AttemptResult.durationMs_fits_iff (r : AttemptResult) :
    (∃ ms, int4 r.durationMs = .ok ms) ↔ r.finishedAt - r.startedAt < 2147483648000 := by
  rw [int4_isOk_iff, AttemptResult.durationMs, max_le_iff,
    and_iff_right (le_max_of_le_left (by norm_num)), and_iff_right (by norm_num)]
  exact doubleMillis_le_iff _

/-- The two roundings lose less than a microsecond, and the cast a millisecond. -/
theorem doubleMillis_close {d : ℤ} (hpos : 0 ≤ d) (hlt : d < 2147483648000) :
    0 ≤ floatToInt (float (float ((d : ℚ) / 1000000) * 1000)) ∧
      floatToInt (float (float ((d : ℚ) / 1000000) * 1000)) * 1000 ≤ d ∧
      d ≤ floatToInt (float (float ((d : ℚ) / 1000000) * 1000)) * 1000 + 1000 := by
  have hd : (0 : ℚ) ≤ d := by exact_mod_cast hpos
  have hbound : (d : ℚ) < 2147483648000 := by exact_mod_cast hlt
  have hlow := @le_float ((d : ℚ) / 1000000) (by positivity)
  have hhigh := @float_le ((d : ℚ) / 1000000) (by positivity)
  generalize float ((d : ℚ) / 1000000) = seconds at *
  have hseconds : 0 ≤ seconds * 1000 := by linarith
  have hlow' := le_float hseconds
  have hhigh' := float_le hseconds
  have hms : 0 ≤ float (seconds * 1000) := by linarith
  rw [floatToInt, if_pos hms]
  have hfloor := Int.floor_le (float (seconds * 1000))
  have hceil := Int.lt_floor_add_one (float (seconds * 1000))
  refine ⟨Int.floor_nonneg.mpr hms, ?_⟩
  generalize ⌊float (seconds * 1000)⌋ = ms at *
  constructor
  · have hupper : ((ms * 1000 : ℤ) : ℚ) < (d + 1 : ℤ) := by
      push_cast
      linarith
    exact Int.lt_add_one_iff.mp (by exact_mod_cast hupper)
  · have hlower : ((d : ℤ) : ℚ) < (ms * 1000 + 1000 + 1 : ℤ) := by
      push_cast
      linarith
    exact Int.lt_add_one_iff.mp (by exact_mod_cast hlower)

/-- A stored duration is short of the time that passed by at most a millisecond. -/
theorem AttemptResult.durationMs_close {r : AttemptResult} {ms : Int4}
    (h : ms.val = r.durationMs) :
    ms.val * 1000 ≤ max 0 (r.finishedAt - r.startedAt) ∧
      max 0 (r.finishedAt - r.startedAt) ≤ ms.val * 1000 + 1000 := by
  have hfits : r.finishedAt - r.startedAt < 2147483648000 :=
    (doubleMillis_le_iff _).mp ((le_max_right _ _).trans (h ▸ ms.upper))
  rw [AttemptResult.durationMs] at h
  generalize r.finishedAt - r.startedAt = d at *
  rcases lt_or_ge d 0 with hneg | hpos
  · rw [max_eq_left (doubleMillis_nonpos hneg)] at h
    rw [h, max_eq_left hneg.le]
    exact ⟨by norm_num, by norm_num⟩
  · obtain ⟨hms, hlow, hhigh⟩ := doubleMillis_close hpos hfits
    rw [h, max_eq_right hms, max_eq_right hpos]
    exact ⟨hlow, hhigh⟩

/-- `_truncate`. -/
def truncate (text : Option PyStr) (limit : ℕ) : Option PyStr :=
  text.map fun text =>
    if text.length ≤ limit then text else text.take limit ++ [PyStr.ellipsis]

/-! ## The two updates -/

/-- The `SET` of `_MARK_DELIVERED`. -/
def markDelivered (statusCode : Option ℕ) (now : Instant) (d : Delivery) : Delivery :=
  { d with
    status := .delivered
    deliveredAt := some now
    failedAt := none
    leaseExpiresAt := none
    lockedBy := none
    lastOutcome := some .success
    lastErrorKind := none
    lastStatusCode := statusCode
    lastError := none }

/-- The `WHERE` of `_MARK_DELIVERED`. -/
def undelivered (id : DeliveryId) (d : Delivery) : Bool :=
  d.id == id && d.status != .delivered

theorem undelivered_iff {id : DeliveryId} {d : Delivery} :
    undelivered id d = true ↔ d.id = id ∧ d.status ≠ .delivered := by
  simp [undelivered]

/-- The `SET` of `_MARK_FAILURE`. -/
def markFailure (result : AttemptResult) (lastError : Option PgText) (exhausted : Bool)
    (delay : Duration) (now : Instant) (d : Delivery) : Delivery :=
  { d with
    status := if exhausted then .failed else .pending
    nextAttemptAt := if exhausted then d.nextAttemptAt else now + delay
    failedAt := if exhausted then some now else none
    leaseExpiresAt := none
    lockedBy := none
    lastOutcome := some .failure
    lastErrorKind := result.errorKind
    lastStatusCode := result.statusCode
    lastError := lastError }

/-- The `WHERE` of `_MARK_FAILURE`. -/
def heldBy (id : DeliveryId) (workerId : WorkerId) (d : Delivery) : Bool :=
  d.id == id && d.lockedBy == some workerId && d.status == .inFlight

theorem heldBy_iff {id : DeliveryId} {workerId : WorkerId} {d : Delivery} :
    heldBy id workerId d = true ↔
      d.id = id ∧ d.lockedBy = some workerId ∧ d.status = .inFlight := by
  simp [heldBy, and_assoc]

/-- The row after a recorded success. -/
def deliveredRow (result : AttemptResult) (now : Instant) (d : Delivery) : Delivery :=
  deliveriesSyncClaimable now (markDelivered result.statusCode now d)

/-- The row after a recorded failure. -/
def failedRow (result : AttemptResult) (lastError : Option PgText) (exhausted : Bool)
    (delay : Duration) (now : Instant) (d : Delivery) : Delivery :=
  deliveriesSyncClaimable now (markFailure result lastError exhausted delay now d)

/-! ## The journal entry -/

/-- The row `_INSERT_ATTEMPT` proposes. -/
def attemptEntry (workerId : WorkerId) (claim : ClaimedDelivery) (result : AttemptResult)
    (durationMs : Int4) (excerpt : Option PgText) (scheduledNextAt : Option Instant) : Attempt where
  deliveryId := claim.deliveryId
  requestId := claim.requestId
  attemptNumber := claim.attemptNumber
  budgetAttempt := claim.budgetAttempt
  recipientUrl := claim.recipientUrl
  startedAt := result.startedAt
  finishedAt := result.finishedAt
  durationMs := durationMs
  outcome := if result.succeeded then .success else .failure
  errorKind := result.errorKind
  statusCode := result.statusCode
  responseExcerpt := excerpt
  scheduledNextAt := scheduledNextAt
  workerId := workerId

/-- `ON CONFLICT ... DO UPDATE ... WHERE delivery_attempts.outcome = 'unknown'`. -/
def replaceUnknown (new old : Attempt) : Attempt :=
  if old.outcome = .unknown then
    { old with
      finishedAt := new.finishedAt
      durationMs := new.durationMs
      outcome := new.outcome
      errorKind := new.errorKind
      statusCode := new.statusCode
      responseExcerpt := new.responseExcerpt
      scheduledNextAt := new.scheduledNextAt
      workerId := new.workerId }
  else old

@[simp] theorem replaceUnknown_key (new old : Attempt) :
    (replaceUnknown new old).key = old.key := by
  unfold replaceUnknown
  split <;> rfl

/-- `_INSERT_ATTEMPT`. -/
def insertAttempt (entry : Attempt) (db : Database) : Database where
  requests := db.requests
  deliveries := db.deliveries
  deliveryAttempts :=
    db.deliveryAttempts.insertOnConflict entry (replaceUnknown entry) (replaceUnknown_key entry)

/-! ## The transaction -/

/-- The failure branch up to the journal entry: the state change, and when the
next attempt was scheduled. -/
def recordFailure (settings : Settings) (workerId : WorkerId) (claim : ClaimedDelivery)
    (result : AttemptResult) (excerpt : Option PyStr) (draw : Draw) (now : Instant)
    (db : Database) : Except Raised (Database × Option Instant) := do
  let exhausted := isExhausted claim.budgetAttempt settings
  let delay ← timedelta (← nextDelaySeconds claim.budgetAttempt settings draw)
  let lastError ← textParam? excerpt
  let db' := db.updateDeliveries now (heldBy claim.deliveryId workerId)
    (markFailure result lastError exhausted delay now) (fun _ => rfl)
  -- `RETURNING`: no row when the worker does not hold the delivery any more
  let row := if (db.deliveries.get? claim.deliveryId).any (heldBy claim.deliveryId workerId)
    then db'.deliveries.get? claim.deliveryId else none
  return (db', row.bind fun row =>
    if row.status = .failed then none else some row.nextAttemptAt)

/-- Write the journal entry and move the delivery to its next state. -/
def recordResult (settings : Settings) (workerId : WorkerId) (claim : ClaimedDelivery)
    (result : AttemptResult) (draw : Draw) (now : Instant) (db : Database) :
    Except Raised Database := do
  let excerpt := truncate result.responseExcerpt settings.responseExcerptBytes
  let (db', scheduledNextAt) ←
    if result.succeeded then
      -- whoever holds the row, a confirmed delivery is delivered
      pure (db.updateDeliveries now (undelivered claim.deliveryId)
        (markDelivered result.statusCode now) (fun _ => rfl), none)
    else
      recordFailure settings workerId claim result excerpt draw now db
  let durationMs ← int4 result.durationMs
  let text ← textParam? excerpt
  return insertAttempt (attemptEntry workerId claim result durationMs text scheduledNextAt) db'

/-! ## What a record can do -/

/-- The journal after the insert of `entry`. -/
def journalAfter (entry : Attempt) (old : Option Attempt) : Attempt :=
  (old.map (replaceUnknown entry)).getD entry

@[simp] theorem get?_insertAttempt (entry : Attempt) (db : Database) (k : DeliveryId × ℕ) :
    (insertAttempt entry db).deliveryAttempts.get? k =
      if k = entry.key then some (journalAfter entry (db.deliveryAttempts.get? k))
      else db.deliveryAttempts.get? k :=
  Table.get?_insertOnConflict _ _ _ (replaceUnknown_key entry) _

/-- A committed success. -/
structure RecordedSuccess (settings : Settings) (workerId : WorkerId) (claim : ClaimedDelivery)
    (result : AttemptResult) (now : Instant) (db db' : Database) (entry : Attempt) : Prop where
  entry_eq : ∃ ms text, int4 result.durationMs = .ok ms ∧
    textParam? (truncate result.responseExcerpt settings.responseExcerptBytes) = .ok text ∧
    entry = attemptEntry workerId claim result ms text none
  requests : db'.requests = db.requests
  deliveries : ∀ id, db'.deliveries.get? id = (db.deliveries.get? id).map fun d =>
    if undelivered claim.deliveryId d then deliveredRow result now d else d
  journal : ∀ k, db'.deliveryAttempts.get? k =
    if k = entry.key then some (journalAfter entry (db.deliveryAttempts.get? k))
    else db.deliveryAttempts.get? k

/-- A committed failure: `delay` and `lastError` are the ones the branch computed. -/
structure RecordedFailure (settings : Settings) (workerId : WorkerId) (claim : ClaimedDelivery)
    (result : AttemptResult) (draw : Draw) (now : Instant) (db db' : Database)
    (entry : Attempt) (delay : Duration) (lastError : Option PgText) : Prop where
  delay_eq : ∃ seconds, nextDelaySeconds claim.budgetAttempt settings draw = .ok seconds ∧
    timedelta seconds = .ok delay
  entry_eq : ∃ ms scheduled, int4 result.durationMs = .ok ms ∧
    entry = attemptEntry workerId claim result ms lastError scheduled
  requests : db'.requests = db.requests
  deliveries : ∀ id, db'.deliveries.get? id = (db.deliveries.get? id).map fun d =>
    if heldBy claim.deliveryId workerId d then
      failedRow result lastError (isExhausted claim.budgetAttempt settings) delay now d
    else d
  journal : ∀ k, db'.deliveryAttempts.get? k =
    if k = entry.key then some (journalAfter entry (db.deliveryAttempts.get? k))
    else db.deliveryAttempts.get? k

theorem recordResult_success {settings : Settings} {workerId : WorkerId}
    {claim : ClaimedDelivery} {result : AttemptResult} {draw : Draw} {now : Instant}
    {db db' : Database} (hs : result.succeeded = true)
    (h : recordResult settings workerId claim result draw now db = .ok db') :
    ∃ entry, RecordedSuccess settings workerId claim result now db db' entry := by
  simp only [recordResult, hs, if_true, pure_bind] at h
  obtain ⟨ms, hms, h⟩ := Fallible.bind_eq_ok_iff.mp h
  obtain ⟨text, htext, h⟩ := Fallible.bind_eq_ok_iff.mp h
  cases Fallible.pure_eq_ok_iff.mp h
  refine ⟨_, ⟨ms, text, hms, htext, rfl⟩, rfl, fun id => ?_, fun k => ?_⟩
  · exact db.get?_updateDeliveries now _ (markDelivered result.statusCode now) (fun _ => rfl) id
  · exact get?_insertAttempt _ _ k

theorem recordResult_failure {settings : Settings} {workerId : WorkerId}
    {claim : ClaimedDelivery} {result : AttemptResult} {draw : Draw} {now : Instant}
    {db db' : Database} (hs : result.succeeded = false)
    (h : recordResult settings workerId claim result draw now db = .ok db') :
    ∃ entry delay lastError,
      RecordedFailure settings workerId claim result draw now db db' entry delay lastError := by
  simp only [recordResult, hs, Bool.false_eq_true, if_false] at h
  obtain ⟨⟨db₁, scheduled⟩, hfail, h⟩ := Fallible.bind_eq_ok_iff.mp h
  obtain ⟨ms, hms, h⟩ := Fallible.bind_eq_ok_iff.mp h
  obtain ⟨text, htext, h⟩ := Fallible.bind_eq_ok_iff.mp h
  cases Fallible.pure_eq_ok_iff.mp h
  unfold recordFailure at hfail
  obtain ⟨seconds, hseconds, hfail⟩ := Fallible.bind_eq_ok_iff.mp hfail
  obtain ⟨delay, hdelay, hfail⟩ := Fallible.bind_eq_ok_iff.mp hfail
  obtain ⟨lastError, hlast, hfail⟩ := Fallible.bind_eq_ok_iff.mp hfail
  have hsame : lastError = text := Except.ok.inj (hlast.symm.trans htext)
  subst hsame
  obtain ⟨hdb, _⟩ := Prod.mk.inj (Fallible.pure_eq_ok_iff.mp hfail)
  subst hdb
  refine ⟨_, delay, lastError, ⟨seconds, hseconds, hdelay⟩, ⟨ms, scheduled, hms, rfl⟩, rfl,
    fun id => ?_, fun k => ?_⟩
  · exact db.get?_updateDeliveries now _
      (markFailure result lastError _ delay now) (fun _ => rfl) id
  · exact get?_insertAttempt _ _ k

theorem requests_recordResult {settings : Settings} {workerId : WorkerId}
    {claim : ClaimedDelivery} {result : AttemptResult} {draw : Draw} {now : Instant}
    {db db' : Database}
    (h : recordResult settings workerId claim result draw now db = .ok db') :
    db'.requests = db.requests := by
  cases hs : result.succeeded with
  | true =>
      obtain ⟨_, hspec⟩ := recordResult_success hs h
      exact hspec.requests
  | false =>
      obtain ⟨_, _, _, hspec⟩ := recordResult_failure hs h
      exact hspec.requests

/-- A record touches one delivery and one journal entry. -/
theorem recordResult_frame {settings : Settings} {workerId : WorkerId} {claim : ClaimedDelivery}
    {result : AttemptResult} {draw : Draw} {now : Instant} {db db' : Database}
    (h : recordResult settings workerId claim result draw now db = .ok db') :
    ∃ (f : Delivery → Delivery) (entry : Attempt),
      entry.key = (claim.deliveryId, claim.attemptNumber) ∧
      (∀ d, d.id ≠ claim.deliveryId → f d = d) ∧ (∀ d : Delivery, d.SameTarget (f d)) ∧
      (∀ id, db'.deliveries.get? id = (db.deliveries.get? id).map f) ∧
      ∀ k, db'.deliveryAttempts.get? k =
        if k = entry.key then some (journalAfter entry (db.deliveryAttempts.get? k))
        else db.deliveryAttempts.get? k := by
  cases hs : result.succeeded with
  | true =>
      obtain ⟨entry, hspec⟩ := recordResult_success hs h
      refine ⟨_, entry, ?_, fun d hd => if_neg ?_, fun d => ?_, hspec.deliveries, hspec.journal⟩
      · obtain ⟨_, _, _, _, rfl⟩ := hspec.entry_eq
        rfl
      · simp [undelivered, hd]
      · split
        · exact ⟨rfl, rfl, rfl, rfl, rfl⟩
        · exact .refl d
  | false =>
      obtain ⟨entry, delay, lastError, hspec⟩ := recordResult_failure hs h
      refine ⟨_, entry, ?_, fun d hd => if_neg ?_, fun d => ?_, hspec.deliveries, hspec.journal⟩
      · obtain ⟨_, _, _, rfl⟩ := hspec.entry_eq
        rfl
      · simp [heldBy, hd]
      · split
        · exact ⟨rfl, rfl, rfl, rfl, rfl⟩
        · exact .refl d

/-- A success is committed exactly when its two checked values fit. -/
theorem recordResult_success_isOk_iff {settings : Settings} {workerId : WorkerId}
    {claim : ClaimedDelivery} {result : AttemptResult} {draw : Draw} {now : Instant}
    {db : Database} (hs : result.succeeded = true) :
    (∃ db', recordResult settings workerId claim result draw now db = .ok db') ↔
      (∃ ms, int4 result.durationMs = .ok ms) ∧
      ∃ text, textParam? (truncate result.responseExcerpt settings.responseExcerptBytes) =
        .ok text := by
  simp only [recordResult, hs, if_true, pure_bind, Fallible.bind_eq_ok_iff,
    Fallible.pure_eq_ok_iff]
  constructor
  · rintro ⟨_, ms, hms, text, htext, _⟩
    exact ⟨⟨ms, hms⟩, text, htext⟩
  · rintro ⟨⟨ms, hms⟩, text, htext⟩
    exact ⟨_, ms, hms, text, htext, rfl⟩

end LeadQueue
