import LeadQueue.Guarantees.RecipientView

/-!
# How long a failing delivery is kept trying

A budget starts when a delivery is queued or requeued. While every attempt fails
and is recorded by the claim that holds the row, the claims count up to the
budget, each failure but the last opens a pause, and the pauses add up to the
retry window. A delay reaches Postgres as a whole number of microseconds, so
each pause may fall short of its rational value by half of one.
-/

namespace LeadQueue

open Relational Transition

/-! ## Pauses -/

/-- The shortest pause after attempt `n`, as Postgres stores it. -/
def shortestPause (settings : Settings) (n : ℕ) : Duration := micros (shortestDelay n settings)

/-- The longest pause after attempt `n`. -/
def longestPause (settings : Settings) (n : ℕ) : Duration := micros (longestDelay n settings)

/-- The pauses after the first `k` attempts together, each the shortest. -/
def pauses (settings : Settings) (k : ℕ) : Duration :=
  ((List.range' 1 k).map (shortestPause settings)).sum

theorem pauses_succ (settings : Settings) (k : ℕ) :
    pauses settings (k + 1) = pauses settings k + shortestPause settings (k + 1) := by
  simp [pauses, List.range'_1_concat, Nat.add_comm 1 k]

/-- A scheduled delay is between the two pauses. -/
theorem pause_mem {settings : Settings} {n : ℕ} {draw : Draw} {seconds : ℚ} {delay : Duration}
    (hseconds : nextDelaySeconds n settings draw = .ok seconds)
    (hdelay : timedelta seconds = .ok delay) :
    shortestPause settings n ≤ delay ∧ delay ≤ longestPause settings n := by
  obtain rfl := eq_micros_of_timedelta hdelay
  obtain ⟨_, hlow, hhigh⟩ := nextDelaySeconds_mem hseconds
  exact ⟨micros_mono hlow, micros_mono hhigh⟩

/-- Rounding to a microsecond takes at most half of one. -/
theorem le_micros (seconds : ℚ) : seconds * 1000000 - 1 / 2 ≤ micros seconds := by
  have hround := (abs_le.mp (abs_roundHalfEven_sub_le (seconds * 1000000))).1
  unfold micros
  linarith

theorem le_shortestPause (settings : Settings) (n : ℕ) :
    (1 - settings.retryJitterRatio) * cappedDelay n settings * 1000000 - 1 / 2 ≤
      shortestPause settings n := by
  have hdelay : (1 - settings.retryJitterRatio) * cappedDelay n settings ≤
      shortestDelay n settings := le_max_right _ _
  have hround := le_micros (shortestDelay n settings)
  unfold shortestPause
  linarith

/-- The pauses cover the window without the jitter, up to the rounding. -/
theorem le_pauses (settings : Settings) (k : ℕ) :
    (1 - settings.retryJitterRatio) * ((List.range' 1 k).map (cappedDelay · settings)).sum *
      1000000 - k / 2 ≤ pauses settings k := by
  induction k with
  | zero => simp [pauses]
  | succ k ih =>
      have hlast := le_shortestPause settings (k + 1)
      rw [pauses_succ, List.range'_1_concat, List.map_append, List.sum_append]
      simp only [Nat.add_comm 1 k, List.map_cons, List.map_nil, List.sum_cons, List.sum_nil]
      push_cast
      linarith

/-! ## One delivery -/

/-- Nothing of the row's budget is spent. -/
def Delivery.StartsBudget (row : Delivery) : Prop := row.status = .pending ∧ row.attempts = 0

instance (row : Delivery) : Decidable row.StartsBudget := by
  unfold Delivery.StartsBudget
  infer_instance

/-- A delivery starts a budget when it is queued. -/
theorem newDelivery_startsBudget (now : Instant) (requestId : RequestId) (id : DeliveryId)
    (r : RecipientRow) : (newDelivery now requestId id r).StartsBudget := ⟨rfl, rfl⟩

/-- A manual retry starts a budget. -/
theorem requeueRow_startsBudget (now : Instant) (row : Delivery) :
    (requeueRow now row).StartsBudget := ⟨rfl, rfl⟩

namespace Life

/-- Every attempt fails and is recorded by the claim that holds the row, after
that claim was made and before another takes the row over; nobody retries by
hand. -/
def FailsInTime (l : Life) : Event → Prop
  | .advance _ => True
  | .claim _ _ => l.row.status ≠ .inFlight
  | .record n result _ now => result.succeeded = false ∧ ∀ c ∈ l.claims n,
      l.row.status = .inFlight → l.row.lockedBy = some c.workerId →
        n = l.row.totalAttempts ∧ c.claimedAt ≤ now
  | .requeue _ => False

instance (l : Life) (d : Event) : Decidable (l.FailsInTime d) :=
  match d with
  | .advance _ => .isTrue trivial
  | .claim _ _ | .record _ _ _ _ => by unfold FailsInTime; infer_instance
  | .requeue _ => .isFalse id

/-- A condition asked of one delivery only. -/
def Of (id : DeliveryId) (ok : Life → Event → Prop) (l : Life) (d : Event) : Prop :=
  l.row.id = id → ok l d

instance (id : DeliveryId) (ok : Life → Event → Prop) [∀ l d, Decidable (ok l d)] (l : Life)
    (d : Event) : Decidable (Of id ok l d) := by
  unfold Of
  infer_instance

/-- A budget under way: it started when the row had `T` claims behind it, and
the pauses that are over lie between its first claim and where the row is now. -/
structure OnSchedule (settings : Settings) (T : ℕ) (l : Life) : Prop where
  total : l.row.totalAttempts = T + l.row.attempts
  undelivered : l.row.status ≠ .delivered
  pending_lt : l.row.status = .pending → l.row.attempts < settings.retryMaxAttempts
  inFlight_le : l.row.status = .inFlight → l.row.attempts ≤ settings.retryMaxAttempts
  failed_eq : l.row.status = .failed → l.row.attempts = settings.retryMaxAttempts
  failed_inRange : l.row.status = .failed → InRange settings.retryMaxAttempts settings
  pending_since : l.row.status = .pending → ∀ c ∈ l.claims (T + 1),
    c.claimedAt + pauses settings l.row.attempts ≤ l.row.nextAttemptAt
  inFlight_since : l.row.status = .inFlight → ∀ c ∈ l.claims (T + 1),
    ∀ started ∈ l.row.lastAttemptAt,
      c.claimedAt + pauses settings (l.row.attempts - 1) ≤ started
  failed_since : l.row.status = .failed → ∀ c ∈ l.claims (T + 1), ∀ failed ∈ l.row.failedAt,
    c.claimedAt + pauses settings (settings.retryMaxAttempts - 1) ≤ failed

theorem OnSchedule.of_startsBudget {settings : Settings} {l : Life} (hinv : l.Inv settings)
    (h : l.row.StartsBudget) : l.OnSchedule settings l.row.totalAttempts := by
  obtain ⟨hstatus, hattempts⟩ := h
  have hpos := settings.retryMaxAttempts_pos
  constructor
  case total => omega
  case undelivered => simp [hstatus]
  case pending_lt => exact fun _ => by omega
  case pending_since =>
    intro _ c hc
    rw [hinv.no_next_claim] at hc
    cases hc
  all_goals simp [hstatus]

theorem OnSchedule.claimed {settings : Settings} {T : ℕ} {l : Life} {workerId : WorkerId}
    {now : Instant} {request : Request} {lost : Option Attempt} (h : l.OnSchedule settings T)
    (hinv : l.Inv settings) (hfree : l.row.status ≠ .inFlight) (hdue : l.row.due now = true) :
    OnSchedule settings T (l.claimed settings workerId now request lost) := by
  obtain ⟨hpending, hnow⟩ : l.row.status = .pending ∧ l.row.nextAttemptAt ≤ now := by
    rcases (due_iff_of_wellShaped hinv.shape).mp hdue with hdue | ⟨hst, _⟩
    · exact hdue
    · exact absurd hst hfree
  constructor
  case total => exact congrArg (· + 1) h.total
  case inFlight_le => exact fun _ => h.pending_lt hpending
  case inFlight_since =>
    rintro _ c hc started ⟨⟩
    show c.claimedAt + pauses settings l.row.attempts ≤ now
    rcases eq_some_of_addNew hc with hold | ⟨_, hn, hnew⟩
    · exact (h.pending_since hpending c hold).trans hnow
    · -- the first claim of the budget
      have hzero : l.row.attempts = 0 := by
        have := h.total
        omega
      cases hnew
      simp [hzero, pauses, nextClaim]
  all_goals simp [Life.claimed, claimRow, claimSet, deliveriesSyncClaimable]

/-- The record of the claim that holds the row. -/
theorem OnSchedule.failed {settings : Settings} {T : ℕ} {l : Life} {c : Claim}
    {result : AttemptResult} {draw : Draw} {now : Instant} {lastError : Option PgText}
    {seconds : ℚ} {delay : Duration} {entry : Attempt} (h : l.OnSchedule settings T)
    (hinv : l.Inv settings) (hflight : l.row.status = .inFlight)
    (hc : l.claims l.row.totalAttempts = some c) (hafter : c.claimedAt ≤ now)
    (hseconds : nextDelaySeconds c.delivery.budgetAttempt settings draw = .ok seconds)
    (hdelay : timedelta seconds = .ok delay) :
    OnSchedule settings T (l.recorded l.row.totalAttempts result
      (failedRow result lastError (isExhausted c.delivery.budgetAttempt settings) delay now l.row)
      entry) := by
  obtain ⟨cur, hcur, hholds, _⟩ := hinv.held hflight
  obtain rfl : cur = c := Option.some.inj (hcur.symm.trans hc)
  have hpos := hinv.shape.inFlight_attempts hflight
  have hle := h.inFlight_le hflight
  have hbudget := hholds.attempts
  have hsince : ∀ first ∈ l.claims (T + 1),
      first.claimedAt + pauses settings (l.row.attempts - 1) ≤ now := fun first hfirst =>
    (h.inFlight_since hflight first hfirst cur.claimedAt hholds.startedAt).trans hafter
  cases hspent : isExhausted cur.delivery.budgetAttempt settings with
  | true =>
      have hlast := isExhausted_eq_true.mp hspent
      have heq : l.row.attempts = settings.retryMaxAttempts := by omega
      constructor
      case total => exact h.total
      case failed_eq => exact fun _ => heq
      case failed_inRange =>
        intro _
        rw [← heq, hbudget]
        exact (nextDelaySeconds_mem hseconds).1
      case failed_since =>
        rintro _ first hfirst failed ⟨⟩
        rw [← heq]
        exact hsince first hfirst
      all_goals simp [Life.recorded, failedRow_status]
  | false =>
      have hleft := isExhausted_eq_false.mp hspent
      constructor
      case total => exact h.total
      case pending_lt =>
        intro _
        show l.row.attempts < _
        omega
      case pending_since =>
        intro _ first hfirst
        show first.claimedAt + pauses settings l.row.attempts ≤ now + delay
        have hpause := (pause_mem hseconds hdelay).1
        rw [← hbudget] at hpause
        obtain ⟨k, hk⟩ := Nat.exists_eq_add_of_le' hpos
        have hfirst := hsince first hfirst
        rw [hk] at hfirst hpause ⊢
        rw [pauses_succ]
        rw [Nat.add_sub_cancel] at hfirst
        linarith
      all_goals simp [Life.recorded, failedRow_status]

/-- A record that leaves the row alone. -/
theorem OnSchedule.unmoved {settings : Settings} {T : ℕ} {l l' : Life}
    (h : l.OnSchedule settings T) (hrow : l'.row = l.row) (hclaims : l'.claims = l.claims) :
    l'.OnSchedule settings T := by
  cases l
  cases l'
  cases hrow
  cases hclaims
  exact ⟨h.total, h.undelivered, h.pending_lt, h.inFlight_le, h.failed_eq, h.failed_inRange,
    h.pending_since, h.inFlight_since, h.failed_since⟩

theorem OnSchedule.step {settings : Settings} {T : ℕ} {l l' : Life} {d : Event}
    (h : l.OnSchedule settings T) (hinv : l.Inv settings) (hok : l.FailsInTime d)
    (hstep : Step settings l d l') : l'.OnSchedule settings T := by
  cases hstep with
  | advance _ => exact h.unmoved rfl rfl
  | claim _ hdue _ => exact h.claimed hinv hok hdue
  | success _ _ _ hs _ => exact absurd (hs.symm.trans hok.1) (by decide)
  | failure _ _ hc hs hseconds hdelay _ =>
      rcases failureRow_cases with ⟨hlocked, hflight, heq⟩ | ⟨_, heq⟩
      · obtain ⟨rfl, hafter⟩ := hok.2 _ hc hflight hlocked
        rw [heq]
        exact h.failed hinv hflight hc hafter hseconds hdelay
      · exact h.unmoved heq rfl
  | requeue _ _ => exact hok.elim

theorem Step.row_id {settings : Settings} {l l' : Life} {d : Event}
    (hstep : Step settings l d l') : l'.row.id = l.row.id := by
  cases hstep with
  | advance _ => rfl
  | claim _ _ _ => rfl
  | success _ _ _ _ _ => exact (successRow_target _ _ _).id
  | failure _ _ _ _ _ _ _ => exact failureRow_target.id
  | requeue _ _ => rfl

/-- A pending row is left alone until it is claimed. -/
theorem Step.pending_kept {settings : Settings} {l l' : Life} {d : Event} {row : Delivery}
    (hstep : Step settings l d l') (hok : l.FailsInTime d) (hpending : row.status = .pending)
    (h : l.row = row ∨ row.totalAttempts < l.row.totalAttempts) :
    l'.row = row ∨ row.totalAttempts < l'.row.totalAttempts := by
  cases hstep with
  | advance _ => exact h
  | claim _ _ _ =>
      right
      show row.totalAttempts < l.row.totalAttempts + 1
      rcases h with rfl | hlt <;> omega
  | success _ _ _ hs _ => exact absurd (hs.symm.trans hok.1) (by decide)
  | failure _ _ _ _ _ _ _ =>
      rcases h with rfl | hlt
      · rcases failureRow_cases with ⟨_, hflight, _⟩ | ⟨_, heq⟩
        · rw [hpending] at hflight
          cases hflight
        · exact Or.inl heq
      · exact Or.inr (hlt.trans_eq failureRow_totalAttempts.symm)
  | requeue _ _ => exact hok.elim

end Life

theorem row_id_later {settings : Settings} {ok : Life → Life.Event → Prop} {l l' : Life}
    (h : (life settings).LaterBy ok l l') : l'.row.id = l.row.id := by
  induction h with
  | refl => rfl
  | step _ _ hstep ih => exact (Life.Step.row_id hstep).trans ih

theorem onSchedule_later {settings : Settings} {T : ℕ} {id : DeliveryId} {l l' : Life}
    (hl : (life settings).Reachable l) (hid : l.row.id = id) (h0 : l.OnSchedule settings T)
    (h : (life settings).LaterBy (Life.Of id Life.FailsInTime) l l') :
    l'.OnSchedule settings T := by
  induction h with
  | refl => exact h0
  | step hlater hok hstep ih =>
      exact ih.step (life_inv (hlater.reachable hl)) (hok ((row_id_later hlater).trans hid)) hstep

theorem pending_kept_later {settings : Settings} {id : DeliveryId} {l l' : Life}
    (hid : l.row.id = id) (hpending : l.row.status = .pending)
    (h : (life settings).LaterBy (Life.Of id Life.FailsInTime) l l') :
    l'.row = l.row ∨ l.row.totalAttempts < l'.row.totalAttempts := by
  induction h with
  | refl => exact Or.inl rfl
  | step hlater hok hstep ih =>
      exact Life.Step.pending_kept hstep (hok ((row_id_later hlater).trans hid)) hpending ih

/-! ## The record of the current claim -/

/-- Due from somewhere between the two ends of the jittered delay on. -/
def Delivery.PausedFrom (settings : Settings) (base : ℚ) (now : Instant) (row : Delivery) : Prop :=
  row.status = .pending ∧ ∀ time,
    (row.due time = true → now +
      micros (max minDelaySeconds ((1 - settings.retryJitterRatio) * base)) ≤ time) ∧
    (now + micros (max minDelaySeconds ((1 + settings.retryJitterRatio) * base)) ≤ time →
      row.due time = true)

/-- What the record of a failure by the claim that holds the row does to it. -/
theorem record_by_current {settings : Settings} {t u : Service} {id : DeliveryId} {c : Claim}
    {result : AttemptResult} {draw : Draw} {now : Instant} {x : Life}
    (ht : (service settings).Reachable t) (hx : t.life id = some x)
    (hcur : t.current? id = some c) (hs : result.succeeded = false)
    (hstep : Service.step settings t (.record id c.attemptNumber result draw now) = some u) :
    x.row.status = .inFlight ∧ c.delivery.budgetAttempt = x.row.attempts ∧
      ∃ y lastError seconds delay, u.life id = some y ∧
        nextDelaySeconds x.row.attempts settings draw = .ok seconds ∧
        timedelta seconds = .ok delay ∧
        y.row = failedRow result lastError (isExhausted x.row.attempts settings) delay now
          x.row := by
  have hcur : x.current? = some c := by
    rw [Service.current?, hx] at hcur
    exact hcur
  obtain ⟨hflight, hholds, hnumber, _⟩ := (inv_of_reachable ht hx).current hcur
  refine ⟨hflight, hholds.attempts.symm, ?_⟩
  obtain ⟨y, hy, hlife⟩ := Service.exists_life_step ht hstep hx (if_pos rfl)
  cases hlife with
  | success _ _ _ hs' _ => exact absurd (hs'.symm.trans hs) (by decide)
  | @failure _ c' _ _ _ _ lastError _ seconds delay _ _ hc _ hseconds hdelay _ =>
      have hclaims : x.claims c.attemptNumber = some c := by
        rw [hnumber]
        simpa [Life.current?, hflight] using hcur
      obtain rfl : c' = c := Option.some.inj (hc.symm.trans hclaims)
      rw [hholds.attempts]
      refine ⟨_, lastError, seconds, delay, hy, hseconds, hdelay, ?_⟩
      exact if_pos ⟨hholds.lockedBy, hflight⟩

theorem failedRow_pausedFrom {settings : Settings} {result : AttemptResult}
    {lastError : Option PgText} {n : ℕ} {draw : Draw} {seconds : ℚ} {delay : Duration}
    {now : Instant} {row : Delivery} (hseconds : nextDelaySeconds n settings draw = .ok seconds)
    (hdelay : timedelta seconds = .ok delay) :
    (failedRow result lastError false delay now row).PausedFrom settings (cappedDelay n settings)
      now := by
  obtain ⟨hlow, hhigh⟩ := pause_mem hseconds hdelay
  unfold shortestPause shortestDelay at hlow
  unfold longestPause longestDelay at hhigh
  have hdue : ∀ time, (failedRow result lastError false delay now row).due time = true ↔
      now + delay ≤ time := by
    intro time
    rw [Delivery.due_iff]
    simp [failedRow, markFailure, deliveriesSyncClaimable]
  refine ⟨rfl, fun time => ⟨fun h => ?_, fun h => (hdue time).mpr ?_⟩⟩
  · have := (hdue time).mp h
    linarith
  · linarith

/-! ## The horizon -/

/-- The steps of a run in which the delivery fails all the time. -/
def Service.FailsInTime (id : DeliveryId) : Service → Event → Prop :=
  Service.Everywhere (Life.Of id Life.FailsInTime)

instance (id : DeliveryId) (s : Service) (e : Event) : Decidable (Service.FailsInTime id s e) := by
  unfold Service.FailsInTime
  infer_instance

/-- The next failure, recorded by the claim that holds the row, is the `k`-th of
its budget. -/
structure NextFailure (settings : Settings) (id : DeliveryId) (k : ℕ) (now : Instant)
    (u : Service) : Prop where
  last : k = settings.retryMaxAttempts → ∃ row, u.db.deliveries.get? id = some row ∧
    row.status = .failed ∧ row.failedAt = some now
  pause : k < settings.retryMaxAttempts → ∃ base, baseDelaySeconds k settings = .ok base ∧
    ∀ v, (service settings).LaterBy (Service.FailsInTime id) u v →
      (v.claimsOf id).length = (u.claimsOf id).length →
      ∃ row, v.db.deliveries.get? id = some row ∧ row.PausedFrom settings base now

/-- What holds in `t`, after a run from `s` where the delivery's budget started;
`since` are the claims of the run. -/
structure Horizon (settings : Settings) (id : DeliveryId) (s t : Service) (row : Delivery)
    (since : List Claim) : Prop where
  stored : t.db.deliveries.get? id = some row
  claims : t.claimsOf id = s.claimsOf id ++ since
  within : since.length ≤ settings.retryMaxAttempts
  undelivered : row.status ≠ .delivered
  failed_only_after : row.status = .failed → since.length = settings.retryMaxAttempts
  next : ∀ c result draw now u, t.current? id = some c → result.succeeded = false →
    Service.step settings t (.record id c.attemptNumber result draw now) = some u →
    NextFailure settings id since.length now u
  window : row.status = .failed → ∃ first ∈ since.head?, ∃ failed ∈ row.failedAt,
    ∃ window, totalRetryWindow settings = .ok window ∧
      (1 - settings.retryJitterRatio) * window * 1000000 -
        ((settings.retryMaxAttempts - 1 : ℕ) : ℚ) / 2 ≤ failed - first.claimedAt

theorem claims_later {settings : Settings} {ok : Service → Event → Prop} {s t : Service}
    (h : (service settings).LaterBy ok s t) : ∃ cs, t.claims = s.claims ++ cs := by
  induction h with
  | refl => exact ⟨[], (List.append_nil _).symm⟩
  | step _ _ hstep ih =>
      obtain ⟨cs, hcs⟩ := ih
      rcases Service.step_claims hstep with hsame | ⟨_, _, _, _, _, _, happend⟩
      · exact ⟨cs, hsame.trans hcs⟩
      · exact ⟨_, by rw [happend, hcs, List.append_assoc]⟩

theorem claimsOf_later {settings : Settings} {ok : Service → Event → Prop} {s t : Service}
    (h : (service settings).LaterBy ok s t) (id : DeliveryId) :
    ∃ since, t.claimsOf id = s.claimsOf id ++ since := by
  obtain ⟨cs, hcs⟩ := claims_later h
  exact ⟨_, by rw [Service.claimsOf, hcs, List.filter_append]; rfl⟩

/-- The claim at a position has the position's number. -/
theorem claim?_of_getElem? {settings : Settings} {s : Service} (hs : (service settings).Reachable s)
    {id : DeliveryId} {i : ℕ} {c : Claim} (h : (s.claimsOf id)[i]? = some c) :
    s.claim? id (i + 1) = some c := by
  have hnumber := congrArg (·[i]?) (claimsOf_numbers hs id)
  simp only [List.getElem?_map, h, Option.map_some] at hnumber
  obtain ⟨_, hnumber⟩ := List.getElem?_eq_some_iff.mp hnumber.symm
  rw [List.getElem_range'_1] at hnumber
  obtain ⟨hmem, hid⟩ := List.mem_filter.mp (List.mem_of_getElem? h)
  have hclaim := claim?_of_mem hs hmem
  rw [of_decide_eq_true hid, ← hnumber, Nat.add_comm] at hclaim
  exact hclaim

theorem nextFailure_of_record {settings : Settings} {t u : Service} {id : DeliveryId}
    {c : Claim} {result : AttemptResult} {draw : Draw} {now : Instant} {x : Life}
    (ht : (service settings).Reachable t) (hx : t.life id = some x)
    (hcur : t.current? id = some c) (hs : result.succeeded = false)
    (hstep : Service.step settings t (.record id c.attemptNumber result draw now) = some u) :
    NextFailure settings id x.row.attempts now u := by
  obtain ⟨hflight, _, y, lastError, seconds, delay, hy, hseconds, hdelay, hrow⟩ :=
    record_by_current ht hx hcur hs hstep
  have hu : (service settings).Reachable u := .step ht trivial hstep
  obtain ⟨_, hget, hid, _⟩ := Service.parts_of_life hy
  constructor
  · intro hlast
    have hspent : isExhausted x.row.attempts settings = true := isExhausted_eq_true.mpr hlast.ge
    rw [hspent] at hrow
    exact ⟨_, hget, by rw [hrow]; rfl, by rw [hrow]; rfl⟩
  · intro hlt
    have hspent : isExhausted x.row.attempts settings = false := isExhausted_eq_false.mpr hlt
    rw [hspent] at hrow
    have hpaused : (failedRow result lastError false delay now x.row).PausedFrom settings
        (cappedDelay x.row.attempts settings) now := failedRow_pausedFrom hseconds hdelay
    rw [← hrow] at hpaused
    obtain ⟨hpos, hrange⟩ := nextDelaySeconds_isOk_iff.mp ⟨seconds, hseconds⟩
    refine ⟨_, baseDelaySeconds_eq_ok_iff.mpr ⟨hpos, hrange, rfl⟩, fun v hv hclaims => ?_⟩
    obtain ⟨z, hz, hyz⟩ := life_later hu hv hy
    obtain ⟨_, hget', _⟩ := Service.parts_of_life hz
    refine ⟨_, hget', ?_⟩
    rcases pending_kept_later hid hpaused.1 hyz with hsame | hmore
    · rw [hsame]
      exact hpaused
    · -- another attempt would be another claim
      rw [length_claimsOf (hv.reachable hu) hget' (claimsOf_numbers (hv.reachable hu) id),
        length_claimsOf hu hget (claimsOf_numbers hu id)] at hclaims
      exact absurd hclaims hmore.ne'

/-- The first claim of a spent budget lies a retry window before its failure. -/
theorem window_of_onSchedule {settings : Settings} {T : ℕ} {l : Life} {first : Claim}
    {failed : Instant} (h : l.OnSchedule settings T) (hst : l.row.status = .failed)
    (hfirst : l.claims (T + 1) = some first) (hfailed : l.row.failedAt = some failed) :
    ∃ window, totalRetryWindow settings = .ok window ∧
      (1 - settings.retryJitterRatio) * window * 1000000 -
        ((settings.retryMaxAttempts - 1 : ℕ) : ℚ) / 2 ≤ failed - first.claimedAt := by
  have hrange := (h.failed_inRange hst).of_le (Nat.sub_le _ 1)
  refine ⟨_, totalRetryWindow_eq_ok_iff.mpr ⟨hrange, rfl⟩, ?_⟩
  have hpauses := le_pauses settings (settings.retryMaxAttempts - 1)
  have hsince : ((first.claimedAt + pauses settings (settings.retryMaxAttempts - 1) : ℤ) : ℚ) ≤
      failed := by exact_mod_cast h.failed_since hst first hfirst failed hfailed
  push_cast at hsince
  linarith

/-- From the start of a budget on, a delivery whose every attempt fails in time
is claimed as often as the budget says and fails then, not earlier; each other
failure opens a pause as long as the jittered delay; and the failure comes no
sooner than the retry window, less its jitter, after the first claim. -/
theorem retry_horizon {settings : Settings} {s t : Service} {id : DeliveryId} {row₀ : Delivery}
    (hs : (service settings).Reachable s) (hrow₀ : s.db.deliveries.get? id = some row₀)
    (hstart : row₀.StartsBudget)
    (hst : (service settings).LaterBy (Service.FailsInTime id) s t) :
    (∃ row since, Horizon settings id s t row since) ∧
    (∀ m n base base', m ≤ n → baseDelaySeconds m settings = .ok base →
      baseDelaySeconds n settings = .ok base' →
      base ≤ base' ∧ base' ≤ settings.retryCapSeconds) := by
  constructor
  · have hx := Service.life_eq_some_iff.mpr ⟨row₀, hrow₀, rfl⟩
    obtain ⟨y, hy, hxy⟩ := life_later hs hst hx
    have ht := hst.reachable hs
    have hplan := onSchedule_later (life_of_reachable hs hx) (Table.key_of_get? hrow₀)
      (.of_startsBudget (inv_of_reachable hs hx) hstart) hxy
    obtain ⟨_, hrow, _, hclaims, _⟩ := Service.parts_of_life hy
    obtain ⟨since, hsince⟩ := claimsOf_later hst id
    have hbefore := length_claimsOf hs hrow₀ (claimsOf_numbers hs id)
    have hcount : since.length = y.row.attempts := by
      have hafter := length_claimsOf ht hrow (claimsOf_numbers ht id)
      have htotal := hplan.total
      rw [hsince, List.length_append] at hafter
      show since.length = y.row.attempts
      change y.row.totalAttempts = row₀.totalAttempts + y.row.attempts at htotal
      omega
    refine ⟨y.row, since, hrow, hsince, ?_, hplan.undelivered, ?_, ?_, ?_⟩
    · rw [hcount]
      cases hst : y.row.status with
      | pending => exact (hplan.pending_lt hst).le
      | inFlight => exact hplan.inFlight_le hst
      | delivered => exact absurd hst hplan.undelivered
      | failed => exact (hplan.failed_eq hst).le
    · exact fun hfailed => hcount.trans (hplan.failed_eq hfailed)
    · intro c result draw now u hcur hfails hstep
      rw [hcount]
      exact nextFailure_of_record ht hy hcur hfails hstep
    · intro hfailed
      have hspent := hcount.trans (hplan.failed_eq hfailed)
      have hpos := settings.retryMaxAttempts_pos
      obtain ⟨failed, hfailedAt⟩ := Option.isSome_iff_exists.mp
        ((inv_of_reachable ht hy).shape.failedAt_iff.mpr hfailed)
      cases since with
      | nil =>
          rw [List.length_nil] at hspent
          omega
      | cons first rest =>
          refine ⟨first, rfl, failed, hfailedAt, ?_⟩
          apply window_of_onSchedule hplan hfailed _ hfailedAt
          show y.claims (row₀.totalAttempts + 1) = some first
          rw [hclaims, ← hbefore]
          apply claim?_of_getElem? ht
          rw [hsince, List.getElem?_append_right le_rfl, Nat.sub_self]
          rfl
  · intro m n base base' hle hm hn
    obtain ⟨_, _, rfl⟩ := baseDelaySeconds_eq_ok_iff.mp hm
    obtain ⟨_, _, rfl⟩ := baseDelaySeconds_eq_ok_iff.mp hn
    exact ⟨cappedDelay_mono settings hle, min_le_right _ _⟩

namespace RetryHorizon

/-- Two attempts, by the lowest draw a second and 0.4 microseconds apart. -/
def twoAttempts : Settings :=
  { Settings.default with
    retryBaseSeconds := 2500001 / 2000000
    retryMaxAttempts := 2
    retryBaseSeconds_pos := by decide +kernel
    retryMaxAttempts_pos := Nat.two_pos }

/-- Both attempts, the second a second after the first. -/
def failsTwice : List (Service → Event) :=
  [Move.claim twoAttempts Move.workerA 1, Move.record Move.first 1 Move.timedOut,
    Move.advance 1000000, Move.claim twoAttempts Move.workerB 1,
    Move.record Move.first 2 Move.timedOut]

/-- The delivery's budget starts in `s` and is spent in `t`. -/
def spent (s t : Service) : Bool :=
  (s.db.deliveries.get? Move.first).any (fun row : Delivery => decide row.StartsBudget) &&
  (t.db.deliveries.get? Move.first).any (fun row : Delivery =>
    decide (row.status = .failed ∧ row.failedAt = some 1000000)) &&
  decide ((t.claimsOf Move.first)[(s.claimsOf Move.first).length]?.map Claim.claimedAt = some 0)

theorem exists_spent : ∃ s t row₀ row first, (service twoAttempts).Reachable s ∧
    (service twoAttempts).LaterBy (Service.FailsInTime Move.first) s t ∧
    s.db.deliveries.get? Move.first = some row₀ ∧ row₀.StartsBudget ∧
    t.db.deliveries.get? Move.first = some row ∧ row.status = .failed ∧
    row.failedAt = some 1000000 ∧
    (t.claimsOf Move.first)[(s.claimsOf Move.first).length]? = some first ∧
    first.claimedAt = 0 := by
  obtain ⟨s, t, hs, hst, hp⟩ := exists_later_of_moves twoAttempts
    (Service.FailsInTime Move.first) [Move.accept 0 Move.lead] failsTwice spent
    (by decide +kernel)
  simp only [spent, Bool.and_eq_true, Option.any_eq_true, decide_eq_true_eq,
    Option.map_eq_some_iff] at hp
  obtain ⟨⟨⟨row₀, hrow₀, hstart⟩, row, hrow, hfailed, hat⟩, first, hfirst, hzero⟩ := hp
  exact ⟨s, t, row₀, row, first, hs, hst, hrow₀, hstart, hrow, hfailed, hat, hfirst, hzero⟩

end RetryHorizon

/-- Both attempts were claimed before the delivery failed. -/
theorem retry_horizon_twoAttempts :
    ∃ s t row since, (service RetryHorizon.twoAttempts).Reachable s ∧
      (service RetryHorizon.twoAttempts).LaterBy (Service.FailsInTime Move.first) s t ∧
      Horizon RetryHorizon.twoAttempts Move.first s t row since ∧ row.status = .failed ∧
      since.length = 2 := by
  obtain ⟨s, t, _, row, _, hs, hst, hrow₀, hstart, hrow, hfailed, _⟩ :=
    RetryHorizon.exists_spent
  obtain ⟨row', since, hhorizon⟩ := (retry_horizon hs hrow₀ hstart hst).1
  obtain rfl : row' = row := Option.some.inj (hhorizon.stored.symm.trans hrow)
  exact ⟨s, t, row', since, hs, hst, hhorizon, hfailed, hhorizon.failed_only_after hfailed⟩

/-- The window itself is missed by the rounding of a delay: a pause of
1.0000004 seconds is stored as one second. -/
theorem window_falls_short :
    ¬ ∀ settings : Settings, settings.Validated → ∀ s t id row₀ row first failed window,
      (service settings).Reachable s → s.db.deliveries.get? id = some row₀ →
      row₀.StartsBudget → (service settings).LaterBy (Service.FailsInTime id) s t →
      t.db.deliveries.get? id = some row → row.status = .failed →
      (t.claimsOf id)[(s.claimsOf id).length]? = some first → row.failedAt = some failed →
      totalRetryWindow settings = .ok window →
      (1 - settings.retryJitterRatio) * window * 1000000 ≤ failed - first.claimedAt := by
  intro h
  obtain ⟨s, t, row₀, row, first, hs, hst, hrow₀, hstart, hrow, hfailed, hat, hfirst, hzero⟩ :=
    RetryHorizon.exists_spent
  have hwindow : totalRetryWindow RetryHorizon.twoAttempts = .ok (2500001 / 2000000) := by
    decide +kernel
  have hshort := h RetryHorizon.twoAttempts (by decide +kernel) s t Move.first row₀ row first
    1000000 _ hs hrow₀ hstart hst hrow hfailed hfirst hat hwindow
  rw [hzero, show RetryHorizon.twoAttempts.retryJitterRatio = 1 / 5 from rfl] at hshort
  norm_num at hshort

end LeadQueue
