import LeadQueue.Life.Simulation
import LeadQueue.Sender

/-!
# Worker processes

Any number of workers over one database, each a `Worker` object from its `run`
to its end. A process is where its loop is, whether it was asked to stop, and
its tasks. What happens between two `await`s is one event: a tick up to
`claim_batch`, the batch coming back, an attempt coming back, a record coming
back. A claim or a record is the transaction of the queue with the arguments the
worker passes; nothing keeps it from being made twice but the worker's code.
-/

namespace LeadQueue

open Relational Transition

/-! ## Tasks -/

/-- Where `_deliver` is: in `send`, or in `record_result` with what `send`
returned. -/
inductive TaskStage where
  | sending
  | recording (result : AttemptResult)

structure Task where
  claim : ClaimedDelivery
  stage : TaskStage

/-- The journal key of the attempt. -/
def ClaimedDelivery.key (d : ClaimedDelivery) : DeliveryId × ℕ := (d.deliveryId, d.attemptNumber)

def Task.key (t : Task) : DeliveryId × ℕ := t.claim.key

/-! ## One process -/

/-- Where `run` is. -/
inductive Phase where
  /-- At the test of the loop. -/
  | loop
  /-- In `claim_batch`, asking for so many. -/
  | claiming (limit : ℕ)
  /-- In `_wait_for_slot`. -/
  | waitingForSlot
  /-- In `_sleep_unless_stopped`. -/
  | sleeping
  /-- In `_drain`. -/
  | draining
  /-- Returned, or dead. -/
  | stopped
deriving DecidableEq

/-- The slots a claim under way may fill. -/
def Phase.asked : Phase → ℕ
  | .claiming limit => limit
  | _ => 0

structure Process where
  phase : Phase
  /-- `_stop`. -/
  stop : Bool
  /-- `_in_flight`. -/
  tasks : List Task

inductive ProcessEvent where
  | requestStop
  /-- The loop's test, and `_tick` up to its first `await`. -/
  | tick
  /-- `claim_batch` raises and nothing is committed. -/
  | claimFailed
  /-- A wait of `_tick` ends. -/
  | wake
  | sent (key : DeliveryId × ℕ) (startedAt finishedAt : Instant) (exchange : Exchange)
  /-- `record_result` raises and nothing is committed. -/
  | recordFailed (key : DeliveryId × ℕ)
  /-- `_drain` has nothing left to wait for. -/
  | drained
  /-- The grace period ends with tasks pending. -/
  | abandon
  | crash

namespace Process

/-- A new `Worker`. -/
def new : Process := ⟨.loop, false, []⟩

/-- The claims of the tasks. -/
def held (p : Process) : List ClaimedDelivery := p.tasks.map Task.claim

def keys (p : Process) : List (DeliveryId × ℕ) := p.held.map ClaimedDelivery.key

def task? (p : Process) (key : DeliveryId × ℕ) : Option Task := p.tasks.find? fun t => t.key = key

/-- `worker_concurrency - len(self._in_flight)`. -/
def freeSlots (settings : Settings) (p : Process) : ℕ := settings.workerConcurrency - p.tasks.length

/-- `_spawn` for each claim of a batch; the worker idles only if there was none. -/
def spawn (p : Process) (claimed : List ClaimedDelivery) : Process where
  phase := if claimed.isEmpty then .sleeping else .loop
  stop := p.stop
  tasks := p.tasks ++ claimed.map fun claim => ⟨claim, .sending⟩

/-- The task's done callback. -/
def discard (p : Process) (key : DeliveryId × ℕ) : Process :=
  { p with tasks := p.tasks.filter fun t => t.key ≠ key }

/-- `send` returns. -/
def receive (p : Process) (key : DeliveryId × ℕ) (result : AttemptResult) : Process :=
  { p with tasks := p.tasks.map fun t => if t.key = key then { t with stage := .recording result }
      else t }

/-- The loop's test and the branch `_tick` takes. -/
def afterTick (settings : Settings) (p : Process) : Phase :=
  if p.stop then .draining
  -- saturated: wait for a slot instead of spinning on the database
  else if p.freeSlots settings = 0 then .waitingForSlot
  else .claiming (min (p.freeSlots settings) settings.workerBatchSize)

def step (settings : Settings) (p : Process) : ProcessEvent → Option Process
  | .requestStop => some { p with stop := true }
  | .tick => if p.phase = .loop then some { p with phase := p.afterTick settings } else none
  | .claimFailed =>
      match p.phase with
      -- `run` leaves its loop by the exception, and drains
      | .claiming _ => some { p with phase := .draining }
      | _ => none
  | .wake =>
      match p.phase with
      | .waitingForSlot | .sleeping => some { p with phase := .loop }
      | _ => none
  | .sent key startedAt finishedAt exchange =>
      match p.task? key with
      | some ⟨_, .sending⟩ => some (p.receive key (send settings startedAt finishedAt exchange))
      | _ => none
  | .recordFailed key =>
      match p.task? key with
      | some ⟨_, .recording _⟩ => some (p.discard key)
      | _ => none
  | .drained =>
      if p.phase = .draining ∧ p.tasks.isEmpty then some { p with phase := .stopped } else none
  | .abandon =>
      if p.phase = .draining ∧ !p.tasks.isEmpty then some { p with phase := .stopped, tasks := [] }
      else none
  | .crash => if p.phase ≠ .stopped then some { p with phase := .stopped, tasks := [] } else none

/-- The claims an event leaves without a task and without a record. -/
def givesUp (p : Process) : ProcessEvent → List (DeliveryId × ℕ)
  | .recordFailed key => [key]
  | .abandon | .crash => p.keys
  | _ => []

/-! ### What one step does to the tasks -/

section Tasks

variable {settings : Settings} {p p' : Process} {key : DeliveryId × ℕ}

theorem mem_keys : key ∈ p.keys ↔ ∃ d ∈ p.held, d.key = key := List.mem_map

theorem task?_eq_some {t : Task} (h : p.task? key = some t) : t.claim ∈ p.held ∧ t.key = key :=
  ⟨List.mem_map_of_mem (List.mem_of_find?_eq_some h), by simpa using List.find?_some h⟩

/-- The task of a key, where no two tasks have one key. -/
theorem task?_of_mem {t : Task} (hnodup : p.keys.Nodup) (ht : t ∈ p.tasks) :
    p.task? t.key = some t := by
  have hkeys : (p.tasks.map Task.key).Nodup := by
    rw [keys, held, List.map_map] at hnodup
    exact hnodup
  refine (Service.find?_of_unique ht fun u hu hkey => ?_).trans (if_pos (decide_eq_true rfl))
  exact List.inj_on_of_nodup_map hkeys hu ht (of_decide_eq_true hkey)

theorem held_spawn (claimed : List ClaimedDelivery) :
    (p.spawn claimed).held = p.held ++ claimed := by
  simp [held, spawn, Function.comp_def]

theorem held_discard : (p.discard key).held = p.held.filter fun d => d.key ≠ key := by
  rw [held, held, List.filter_map]
  rfl

theorem held_receive (result : AttemptResult) : (p.receive key result).held = p.held := by
  simp only [held, receive, List.map_map]
  refine List.map_congr_left fun t _ => ?_
  simp only [Function.comp_apply]
  split <;> rfl

/-- A step of its own drops the claims it gives up and keeps the others. -/
theorem held_step {e : ProcessEvent} (h : p.step settings e = some p') :
    p'.held = p.held.filter fun d => d.key ∉ p.givesUp e := by
  have hkeep : p.held = p.held.filter fun d => decide (d.key ∉ ([] : List (DeliveryId × ℕ))) := by
    simp
  have hdrop : [] = p.held.filter fun d => decide (d.key ∉ p.keys) := by
    refine (List.filter_eq_nil_iff.mpr fun d hd => ?_).symm
    simpa using mem_keys.mpr ⟨d, hd, rfl⟩
  cases e with
  | requestStop =>
      cases h
      exact hkeep
  | tick =>
      simp only [step] at h
      split at h <;> cases h
      exact hkeep
  | claimFailed =>
      simp only [step] at h
      split at h <;> cases h
      exact hkeep
  | wake =>
      simp only [step] at h
      split at h <;> cases h
      all_goals exact hkeep
  | sent key startedAt finishedAt exchange =>
      simp only [step] at h
      split at h <;> cases h
      rw [held_receive]
      exact hkeep
  | recordFailed key =>
      simp only [step] at h
      split at h <;> cases h
      simpa [givesUp] using held_discard
  | drained =>
      simp only [step] at h
      split at h <;> cases h
      exact hkeep
  | abandon =>
      simp only [step] at h
      split at h <;> cases h
      exact hdrop
  | crash =>
      simp only [step] at h
      split at h <;> cases h
      exact hdrop

/-- What it gives up are claims it had. -/
theorem mem_keys_of_givesUp {e : ProcessEvent} (h : p.step settings e = some p')
    (hkey : key ∈ p.givesUp e) : key ∈ p.keys := by
  cases e with
  | recordFailed key' =>
      obtain rfl := List.mem_singleton.mp hkey
      simp only [step] at h
      split at h
      · rename_i claim result htask
        obtain ⟨hmem, rfl⟩ := task?_eq_some htask
        exact mem_keys.mpr ⟨_, hmem, rfl⟩
      · cases h
  | abandon => exact hkey
  | crash => exact hkey
  | _ => cases hkey

/-- A task of its next state it had before, unless its answer has just come. -/
theorem mem_tasks_step {e : ProcessEvent} {t : Task} (h : p.step settings e = some p')
    (ht : t ∈ p'.tasks) : t ∈ p.tasks ∨ ∃ startedAt finishedAt exchange,
      e = .sent t.key startedAt finishedAt exchange ∧
        t.stage = .recording (send settings startedAt finishedAt exchange) := by
  cases e with
  | requestStop =>
      cases h
      exact Or.inl ht
  | tick =>
      simp only [step] at h
      split at h <;> cases h
      exact Or.inl ht
  | claimFailed =>
      simp only [step] at h
      split at h <;> cases h
      exact Or.inl ht
  | wake =>
      simp only [step] at h
      split at h <;> cases h
      all_goals exact Or.inl ht
  | sent key startedAt finishedAt exchange =>
      simp only [step] at h
      split at h <;> cases h
      obtain ⟨u, hu, rfl⟩ := List.mem_map.mp ht
      split
      · rename_i hkey
        exact Or.inr ⟨startedAt, finishedAt, exchange, hkey ▸ rfl, rfl⟩
      · exact Or.inl hu
  | recordFailed key =>
      simp only [step] at h
      split at h <;> cases h
      exact Or.inl (List.mem_of_mem_filter ht)
  | drained =>
      simp only [step] at h
      split at h <;> cases h
      exact Or.inl ht
  | abandon =>
      simp only [step] at h
      split at h <;> cases h
      cases ht
  | crash =>
      simp only [step] at h
      split at h <;> cases h
      cases ht

theorem asked_afterTick (p : Process) : (p.afterTick settings).asked ≤ p.freeSlots settings := by
  unfold afterTick
  split
  · exact Nat.zero_le _
  · split
    · exact Nat.zero_le _
    · exact min_le_left _ _

theorem afterTick_ne_stopped (p : Process) : p.afterTick settings ≠ .stopped := by
  unfold afterTick
  split
  · simp
  · split <;> simp

/-- What holds of the phase and the number of tasks of any process: the slots in
use and asked for are within the ceiling, and a stopped process has no task. -/
structure Within (settings : Settings) (p : Process) : Prop where
  slots : p.tasks.length + p.phase.asked ≤ settings.workerConcurrency
  quiet : p.phase = .stopped → p.tasks = []

theorem within_new (settings : Settings) : (new).Within settings :=
  ⟨Nat.zero_le _, fun _ => rfl⟩

theorem Within.tasks_le (h : p.Within settings) : p.tasks.length ≤ settings.workerConcurrency :=
  (Nat.le_add_right _ _).trans h.slots

/-- A process with fewer tasks that asks for nothing. -/
theorem Within.shrink (h : p.Within settings) (hle : p'.tasks.length ≤ p.tasks.length)
    (hphase : p'.phase.asked ≤ p.phase.asked) (hquiet : p'.phase = .stopped → p'.tasks = []) :
    p'.Within settings :=
  ⟨(Nat.add_le_add hle hphase).trans h.slots, hquiet⟩

theorem Within.discard (h : p.Within settings) : (p.discard key).Within settings := by
  refine h.shrink (List.length_filter_le _ _) le_rfl fun hstopped => ?_
  have hnil : p.tasks = [] := h.quiet hstopped
  simp [Process.discard, hnil]

theorem Within.spawn {limit : ℕ} {claimed : List ClaimedDelivery} (h : p.Within settings)
    (hphase : p.phase = .claiming limit) (hle : claimed.length ≤ limit) :
    (p.spawn claimed).Within settings := by
  have hslots := h.slots
  rw [hphase] at hslots
  have hasked : (p.spawn claimed).phase.asked = 0 := by
    simp only [Process.spawn]
    split <;> rfl
  constructor
  · rw [hasked]
    simp only [Process.spawn, List.length_append, List.length_map]
    exact (Nat.add_le_add_left hle _).trans hslots
  · simp only [Process.spawn]
    split <;> intro hstopped <;> cases hstopped

theorem Within.step {e : ProcessEvent} (h : p.Within settings)
    (hstep : p.step settings e = some p') : p'.Within settings := by
  cases e with
  | requestStop =>
      cases hstep
      exact h.shrink le_rfl le_rfl h.quiet
  | tick =>
      simp only [Process.step] at hstep
      split at hstep <;> cases hstep
      refine ⟨?_, fun hstopped => absurd hstopped (afterTick_ne_stopped p)⟩
      calc p.tasks.length + (p.afterTick settings).asked
          ≤ p.tasks.length + p.freeSlots settings := Nat.add_le_add_left (asked_afterTick p) _
        _ = settings.workerConcurrency := Nat.add_sub_cancel' h.tasks_le
  | claimFailed =>
      simp only [Process.step] at hstep
      split at hstep <;> cases hstep
      exact h.shrink le_rfl (Nat.zero_le _) (by simp)
  | wake =>
      simp only [Process.step] at hstep
      split at hstep <;> cases hstep
      all_goals exact h.shrink le_rfl (Nat.zero_le _) (by simp)
  | sent key startedAt finishedAt exchange =>
      simp only [Process.step] at hstep
      split at hstep <;> cases hstep
      refine h.shrink (by simp [receive]) le_rfl fun hstopped => ?_
      have hnil : p.tasks = [] := h.quiet hstopped
      simp [receive, hnil]
  | recordFailed key =>
      simp only [Process.step] at hstep
      split at hstep <;> cases hstep
      exact h.discard
  | drained =>
      simp only [Process.step] at hstep
      split at hstep <;> cases hstep
      rename_i hguard
      exact h.shrink le_rfl (Nat.zero_le _) fun _ => List.isEmpty_iff.mp hguard.2
  | abandon =>
      simp only [Process.step] at hstep
      split at hstep <;> cases hstep
      exact h.shrink (Nat.zero_le _) (Nat.zero_le _) fun _ => rfl
  | crash =>
      simp only [Process.step] at hstep
      split at hstep <;> cases hstep
      exact h.shrink (Nat.zero_le _) (Nat.zero_le _) fun _ => rfl

end Tasks

end Process

/-! ## The fleet -/

structure Fleet where
  service : Service
  /-- The processes ever started, under the ids they generated. -/
  workers : WorkerId → Option Process
  /-- Claims whose task ended, or never began, without a record. -/
  givenUp : List (DeliveryId × ℕ)

inductive FleetEvent where
  /-- What the API and the clock do. -/
  | queue (e : Event)
  | start (w : WorkerId)
  | own (w : WorkerId) (e : ProcessEvent)
  /-- `claim_batch` commits and returns. -/
  | claimed (w : WorkerId) (call : ClaimCall)
  /-- `claim_batch` commits and raises: the connection went away with the answer. -/
  | claimLost (w : WorkerId) (call : ClaimCall)
  /-- `record_result` commits; whether it returns or raises, the task is over. -/
  | recorded (w : WorkerId) (key : DeliveryId × ℕ) (draw : Draw) (now : Instant)

/-- The process an event is about. -/
def FleetEvent.actor : FleetEvent → Option WorkerId
  | .queue _ => none
  | .start w | .own w _ | .claimed w _ | .claimLost w _ | .recorded w _ _ _ => some w

/-- Not an event of a worker's. -/
def Event.fromOutside : Event → Bool
  | .claim _ | .record .. => false
  | _ => true

namespace Fleet

def empty (clock : Instant) : Fleet := ⟨.empty clock, fun _ => none, []⟩

def set (f : Fleet) (w : WorkerId) (p : Process) : Fleet :=
  { f with workers := fun v => if v = w then some p else f.workers v }

/-- The transaction of a claim, with what it hands out. -/
def claim (settings : Settings) (s : Service) (call : ClaimCall) :
    Option (Service × List ClaimedDelivery) :=
  if call.now ≤ s.clock ∧ call.Valid settings then
    match claimBatch settings call s.db with
    | .ok (db, claimed) =>
        some ({ s with db := db, claims := s.claims ++ newClaims settings call claimed }, claimed)
    | .error _ => none
  else none

/-- The transaction of a record. -/
def record (settings : Settings) (s : Service) (w : WorkerId) (claim : ClaimedDelivery)
    (result : AttemptResult) (draw : Draw) (now : Instant) : Option Service :=
  if now ≤ s.clock then
    match recordResult settings w claim result draw now s.db with
    | .ok db => some { s with
        db := db
        results := s.results ++ [(claim.key, result)] }
    | .error _ => none
  else none

def step (settings : Settings) (f : Fleet) : FleetEvent → Option Fleet
  | .queue e =>
      if e.fromOutside then (f.service.step settings e).map fun s => { f with service := s }
      else none
  -- `generate_worker_id`: no two processes have one id
  | .start w => if (f.workers w).isNone then some (f.set w .new) else none
  | .own w e =>
      (f.workers w).bind fun p => (p.step settings e).map fun p' =>
        { f.set w p' with givenUp := f.givenUp ++ p.givesUp e }
  | .claimed w call =>
      (f.workers w).bind fun p =>
        if p.phase = .claiming call.limit ∧ call.workerId = w then
          (claim settings f.service call).map fun (s, claimed) =>
            { f.set w (p.spawn claimed) with service := s }
        else none
  | .claimLost w call =>
      (f.workers w).bind fun p =>
        if p.phase = .claiming call.limit ∧ call.workerId = w then
          (claim settings f.service call).map fun (s, claimed) =>
            { f.set w { p with phase := .draining } with
              service := s
              givenUp := f.givenUp ++ claimed.map ClaimedDelivery.key }
        else none
  | .recorded w key draw now =>
      (f.workers w).bind fun p =>
        match p.task? key with
        | some ⟨claim, .recording result⟩ =>
            (record settings f.service w claim result draw now).map fun s =>
              { f.set w (p.discard key) with service := s }
        | _ => none

/-! ## What a step can do -/

section Set

variable {f : Fleet} {w v : WorkerId} {p : Process}

@[simp] theorem set_service : (f.set w p).service = f.service := rfl

@[simp] theorem set_givenUp : (f.set w p).givenUp = f.givenUp := rfl

@[simp] theorem workers_set_self : (f.set w p).workers w = some p := if_pos rfl

theorem workers_set_of_ne (h : v ≠ w) : (f.set w p).workers v = f.workers v := if_neg h

end Set

variable {settings : Settings} {f f' : Fleet} {w : WorkerId}

theorem step_queue {e : Event} : f.step settings (.queue e) = some f' ↔
    e.fromOutside = true ∧ ∃ s, f.service.step settings e = some s ∧
      f' = { f with service := s } := by
  simp only [step]
  constructor
  · intro h
    split at h
    · rename_i hout
      obtain ⟨s, hs, rfl⟩ := Option.map_eq_some_iff.mp h
      exact ⟨hout, s, hs, rfl⟩
    · cases h
  · rintro ⟨hout, s, hs, rfl⟩
    rw [if_pos hout, hs, Option.map_some]

theorem step_start : f.step settings (.start w) = some f' ↔
    f.workers w = none ∧ f' = f.set w .new := by
  simp only [step, Option.isNone_iff_eq_none]
  constructor
  · intro h
    split at h
    · rename_i hnew
      cases h
      exact ⟨hnew, rfl⟩
    · cases h
  · rintro ⟨hnew, rfl⟩
    exact if_pos hnew

theorem step_own {e : ProcessEvent} : f.step settings (.own w e) = some f' ↔
    ∃ p p', f.workers w = some p ∧ p.step settings e = some p' ∧
      f' = { f.set w p' with givenUp := f.givenUp ++ p.givesUp e } := by
  simp only [step, Option.bind_eq_some_iff]
  constructor
  · rintro ⟨p, hp, h⟩
    obtain ⟨p', hp', rfl⟩ := Option.map_eq_some_iff.mp h
    exact ⟨p, p', hp, hp', rfl⟩
  · rintro ⟨p, p', hp, hp', rfl⟩
    exact ⟨p, hp, by rw [hp', Option.map_some]⟩

/-- The transaction of a claim is the service's. -/
theorem claim_eq_some {s t : Service} {call : ClaimCall} {claimed : List ClaimedDelivery} :
    claim settings s call = some (t, claimed) ↔
      s.step settings (.claim call) = some t ∧
        t.claims = s.claims ++ newClaims settings call claimed ∧
        claimed = (claimedRows call s.db).map toClaimed := by
  rw [Service.step_claim]
  unfold claim
  constructor
  · intro h
    split at h
    · rename_i hguard
      split at h
      · rename_i db claimed' hclaim
        cases h
        obtain ⟨lost, hspec⟩ := claimBatch_spec hclaim
        exact ⟨⟨hguard.1, hguard.2, db, _, hclaim, rfl⟩, rfl, hspec.returned⟩
      · cases h
    · cases h
  · rintro ⟨⟨hnow, hvalid, db, claimed', hclaim, rfl⟩, _, rfl⟩
    obtain ⟨lost, hspec⟩ := claimBatch_spec hclaim
    obtain rfl := hspec.returned
    rw [if_pos ⟨hnow, hvalid⟩, hclaim]

theorem step_claimed {call : ClaimCall} : f.step settings (.claimed w call) = some f' ↔
    ∃ p s claimed, f.workers w = some p ∧ p.phase = .claiming call.limit ∧ call.workerId = w ∧
      claim settings f.service call = some (s, claimed) ∧
      f' = { f.set w (p.spawn claimed) with service := s } := by
  simp only [step, Option.bind_eq_some_iff]
  constructor
  · rintro ⟨p, hp, h⟩
    split at h
    · rename_i hguard
      obtain ⟨⟨s, claimed⟩, hclaim, rfl⟩ := Option.map_eq_some_iff.mp h
      exact ⟨p, s, claimed, hp, hguard.1, hguard.2, hclaim, rfl⟩
    · cases h
  · rintro ⟨p, s, claimed, hp, hphase, hid, hclaim, rfl⟩
    exact ⟨p, hp, by rw [if_pos ⟨hphase, hid⟩, hclaim, Option.map_some]⟩

theorem step_claimLost {call : ClaimCall} : f.step settings (.claimLost w call) = some f' ↔
    ∃ p s claimed, f.workers w = some p ∧ p.phase = .claiming call.limit ∧ call.workerId = w ∧
      claim settings f.service call = some (s, claimed) ∧
      f' = { f.set w { p with phase := .draining } with
        service := s
        givenUp := f.givenUp ++ claimed.map ClaimedDelivery.key } := by
  simp only [step, Option.bind_eq_some_iff]
  constructor
  · rintro ⟨p, hp, h⟩
    split at h
    · rename_i hguard
      obtain ⟨⟨s, claimed⟩, hclaim, rfl⟩ := Option.map_eq_some_iff.mp h
      exact ⟨p, s, claimed, hp, hguard.1, hguard.2, hclaim, rfl⟩
    · cases h
  · rintro ⟨p, s, claimed, hp, hphase, hid, hclaim, rfl⟩
    exact ⟨p, hp, by rw [if_pos ⟨hphase, hid⟩, hclaim, Option.map_some]⟩

theorem step_recorded {key : DeliveryId × ℕ} {draw : Draw} {now : Instant} :
    f.step settings (.recorded w key draw now) = some f' ↔
      ∃ p claim result s, f.workers w = some p ∧ p.task? key = some ⟨claim, .recording result⟩ ∧
        record settings f.service w claim result draw now = some s ∧
        f' = { f.set w (p.discard key) with service := s } := by
  simp only [step, Option.bind_eq_some_iff]
  constructor
  · rintro ⟨p, hp, h⟩
    split at h
    · rename_i claim result htask
      obtain ⟨s, hrecord, rfl⟩ := Option.map_eq_some_iff.mp h
      exact ⟨p, claim, result, s, hp, htask, hrecord, rfl⟩
    · cases h
  · rintro ⟨p, claim, result, s, hp, htask, hrecord, rfl⟩
    exact ⟨p, hp, by simp [htask, hrecord]⟩

/-- The claims after a step: the same, or those of one transaction more. -/
theorem step_claims {e : FleetEvent} (h : f.step settings e = some f') :
    f'.service.claims = f.service.claims ∨ ∃ call s new, (e = .claimed call.workerId call ∨
      e = .claimLost call.workerId call) ∧ claim settings f.service call = some (s, new) ∧
      f'.service = s := by
  cases e with
  | queue e =>
      obtain ⟨hout, s, hs, rfl⟩ := step_queue.mp h
      rcases Service.step_claims hs with hsame | ⟨call, _, _, rfl, _⟩
      · exact Or.inl hsame
      · cases hout
  | start v =>
      obtain ⟨_, rfl⟩ := step_start.mp h
      exact Or.inl rfl
  | own v e =>
      obtain ⟨p, p', _, _, rfl⟩ := step_own.mp h
      exact Or.inl rfl
  | claimed v call =>
      obtain ⟨p, s, new, _, _, rfl, hclaim, rfl⟩ := step_claimed.mp h
      exact Or.inr ⟨call, s, new, Or.inl rfl, hclaim, rfl⟩
  | claimLost v call =>
      obtain ⟨p, s, new, _, _, rfl, hclaim, rfl⟩ := step_claimLost.mp h
      exact Or.inr ⟨call, s, new, Or.inr rfl, hclaim, rfl⟩
  | recorded v key draw now =>
      obtain ⟨p, d, result, s, _, _, hrecord, rfl⟩ := step_recorded.mp h
      refine Or.inl ?_
      unfold record at hrecord
      split at hrecord
      · split at hrecord <;> cases hrecord
        rfl
      · cases hrecord

/-- A process is left alone by what is not about it. -/
theorem workers_of_ne {e : FleetEvent} (h : f.step settings e = some f')
    (hw : e.actor ≠ some w) : f'.workers w = f.workers w := by
  have hne : ∀ v, e.actor = some v → w ≠ v := by
    rintro v hv rfl
    exact hw hv
  cases e with
  | queue e =>
      obtain ⟨_, s, _, rfl⟩ := step_queue.mp h
      rfl
  | start v =>
      obtain ⟨_, rfl⟩ := step_start.mp h
      exact workers_set_of_ne (hne v rfl)
  | own v e =>
      obtain ⟨p, p', _, _, rfl⟩ := step_own.mp h
      exact workers_set_of_ne (hne v rfl)
  | claimed v call =>
      obtain ⟨p, s, new, _, _, _, _, rfl⟩ := step_claimed.mp h
      exact workers_set_of_ne (hne v rfl)
  | claimLost v call =>
      obtain ⟨p, s, new, _, _, _, _, rfl⟩ := step_claimLost.mp h
      exact workers_set_of_ne (hne v rfl)
  | recorded v key draw now =>
      obtain ⟨p, d, result, s, _, _, _, rfl⟩ := step_recorded.mp h
      exact workers_set_of_ne (hne v rfl)

/-- Only its start comes before a process. -/
theorem exists_worker {e : FleetEvent} (h : f.step settings e = some f') (hw : e.actor = some w) :
    e = .start w ∨ ∃ p, f.workers w = some p := by
  cases e with
  | queue e => cases hw
  | start v =>
      cases hw
      exact Or.inl rfl
  | own v e =>
      cases hw
      obtain ⟨p, _, hp, _⟩ := step_own.mp h
      exact Or.inr ⟨p, hp⟩
  | claimed v call =>
      cases hw
      obtain ⟨p, _, _, hp, _⟩ := step_claimed.mp h
      exact Or.inr ⟨p, hp⟩
  | claimLost v call =>
      cases hw
      obtain ⟨p, _, _, hp, _⟩ := step_claimLost.mp h
      exact Or.inr ⟨p, hp⟩
  | recorded v key draw now =>
      cases hw
      obtain ⟨p, _, _, _, hp, _⟩ := step_recorded.mp h
      exact Or.inr ⟨p, hp⟩

/-- What an event that is about a process does to it. -/
theorem worker_cases {e : FleetEvent} {p : Process} (h : f.step settings e = some f')
    (hp : f.workers w = some p) (hw : e.actor = some w) :
    ∃ p', f'.workers w = some p' ∧
      ((∃ e', e = .own w e' ∧ p.step settings e' = some p') ∨
        (∃ call s new, e = .claimed w call ∧ p.phase = .claiming call.limit ∧
          claim settings f.service call = some (s, new) ∧ p' = p.spawn new) ∨
        (∃ call, e = .claimLost w call ∧ p.phase = .claiming call.limit ∧
          p' = { p with phase := .draining }) ∨
        ∃ key draw now claim result, e = .recorded w key draw now ∧
          p.task? key = some ⟨claim, .recording result⟩ ∧ p' = p.discard key) := by
  cases e with
  | queue e => cases hw
  | start v =>
      cases hw
      rw [(step_start.mp h).1] at hp
      cases hp
  | own v e =>
      cases hw
      obtain ⟨q, p', hq, hown, rfl⟩ := step_own.mp h
      obtain rfl : p = q := Option.some.inj (hp.symm.trans hq)
      exact ⟨p', workers_set_self, Or.inl ⟨e, rfl, hown⟩⟩
  | claimed v call =>
      cases hw
      obtain ⟨q, s, new, hq, hphase, _, hclaim, rfl⟩ := step_claimed.mp h
      obtain rfl : p = q := Option.some.inj (hp.symm.trans hq)
      exact ⟨_, workers_set_self, Or.inr (Or.inl ⟨call, s, new, rfl, hphase, hclaim, rfl⟩)⟩
  | claimLost v call =>
      cases hw
      obtain ⟨q, s, new, hq, hphase, _, _, rfl⟩ := step_claimLost.mp h
      obtain rfl : p = q := Option.some.inj (hp.symm.trans hq)
      exact ⟨_, workers_set_self, Or.inr (Or.inr (Or.inl ⟨call, rfl, hphase, rfl⟩))⟩
  | recorded v key draw now =>
      cases hw
      obtain ⟨q, d, result, s, hq, htask, _, rfl⟩ := step_recorded.mp h
      obtain rfl : p = q := Option.some.inj (hp.symm.trans hq)
      exact ⟨_, workers_set_self,
        Or.inr (Or.inr (Or.inr ⟨key, draw, now, d, result, rfl, htask, rfl⟩))⟩

end Fleet

def fleet (settings : Settings) : Machine Fleet FleetEvent :=
  .ofFun (fun f => ∃ clock, f = .empty clock) (Fleet.step settings)

/-! ## Moves -/

/-- A run from the empty database, computed. -/
theorem exists_fleetBy_of_moves (settings : Settings) (ok : Fleet → FleetEvent → Prop)
    [∀ f e, Decidable (ok f e)] (moves : List (Fleet → FleetEvent)) (p : Fleet → Bool)
    (h : (Machine.play (Fleet.step settings) ok (.empty 0) moves).any p = true) :
    ∃ f, (fleet settings).ReachableBy ok f ∧ p f = true :=
  Machine.exists_reachableBy_of_play ⟨0, rfl⟩ h

/-- A run cut in two. -/
theorem exists_later_fleet_of_moves (settings : Settings) (moves moves' : List (Fleet → FleetEvent))
    (p : Fleet → Fleet → Bool)
    (h : ((Machine.play (Fleet.step settings) (fun _ _ => True) (.empty 0) moves).any fun f =>
      (Machine.play (Fleet.step settings) (fun _ _ => True) f moves').any (p f)) = true) :
    ∃ f f', (fleet settings).Reachable f ∧ (fleet settings).Later f f' ∧ p f f' = true :=
  Machine.exists_laterBy_of_play ⟨0, rfl⟩ h

namespace Fleet.Move

def queue (move : Service → Event) (f : Fleet) : FleetEvent := .queue (move f.service)

def start (w : WorkerId) (_ : Fleet) : FleetEvent := .start w

def own (w : WorkerId) (e : ProcessEvent) (_ : Fleet) : FleetEvent := .own w e

def claimed (settings : Settings) (w : WorkerId) (f : Fleet) : FleetEvent :=
  .claimed w (.unlocked settings w ((f.workers w).elim 0 fun p => p.phase.asked) f.service.clock
    f.service.db.deliveries)

def recorded (w : WorkerId) (key : DeliveryId × ℕ) (f : Fleet) : FleetEvent :=
  .recorded w key Move.noJitter f.service.clock

/-- The exchange of an attempt that was confirmed. -/
def ok : Exchange := .answered ⟨200, some [], 0⟩

/-- The first worker dies with the attempt under way, the second takes it over. -/
def takenOver : List (Fleet → FleetEvent) :=
  [queue (Move.accept 0 Move.lead), start Move.workerA, start Move.workerB,
    own Move.workerA .tick, claimed .default Move.workerA, own Move.workerA .crash,
    queue (Move.advance 90000000), own Move.workerB .tick, claimed .default Move.workerB,
    own Move.workerB (.sent (Move.first, 2) 90000000 90000000 ok),
    recorded Move.workerB (Move.first, 2)]

/-- A worker is asked to stop with an attempt under way. -/
def stoppedInTime : List (Fleet → FleetEvent) :=
  [queue (Move.accept 0 Move.lead), start Move.workerA, own Move.workerA .tick,
    claimed .default Move.workerA, own Move.workerA .requestStop, own Move.workerA .tick,
    own Move.workerA (.sent (Move.first, 1) 0 0 ok), recorded Move.workerA (Move.first, 1),
    own Move.workerA .drained]

end Fleet.Move

end LeadQueue
