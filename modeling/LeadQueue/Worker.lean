import LeadQueue.Service

/-!
# The worker loop

One worker beside the rest of the service. `_tick` tops up the set of running
tasks from the queue; a task ends in its own time, its result recorded or not.
-/

namespace LeadQueue

open Relational Transition

structure Worker where
  service : Service
  /-- `_in_flight`: the claims whose tasks are not done. -/
  inFlight : List Claim

inductive WorkerEvent where
  /-- Whatever the service does apart from this worker's ticks. -/
  | queue (e : Event)
  | tick (call : ClaimCall)
  | done (id : DeliveryId) (n : ℕ)

namespace Worker

/-- `worker_concurrency - len(self._in_flight)`. -/
def freeSlots (settings : Settings) (w : Worker) : ℕ :=
  settings.workerConcurrency - w.inFlight.length

/-- The `limit` of a tick. -/
def tickLimit (settings : Settings) (w : Worker) : ℕ :=
  min (w.freeSlots settings) settings.workerBatchSize

def step (settings : Settings) (workerId : WorkerId) (w : Worker) : WorkerEvent → Option Worker
  | .queue e => (w.service.step settings e).map fun s => { w with service := s }
  | .tick call =>
      -- a saturated worker waits for a slot
      if 0 < w.freeSlots settings ∧ call.workerId = workerId ∧
          call.limit = w.tickLimit settings then
        (w.service.step settings (.claim call)).map fun s =>
          ⟨s, w.inFlight ++ s.claims.drop w.service.claims.length⟩
      else none
  -- a task may end without a record: the commit failed, or it was cancelled
  | .done id n => some { w with inFlight := w.inFlight.filter fun c => c.key ≠ (id, n) }

theorem step_tick {settings : Settings} {workerId : WorkerId} {w w' : Worker} {call : ClaimCall}
    (h : step settings workerId w (.tick call) = some w') :
    0 < w.freeSlots settings ∧ call.limit = w.tickLimit settings ∧ call.Valid settings ∧
      ∃ lost, Claimed settings call w.service.db w'.service.db
          ((claimedRows call w.service.db).map toClaimed) lost ∧
        w'.inFlight = w.inFlight ++
          newClaims settings call ((claimedRows call w.service.db).map toClaimed) := by
  simp only [step] at h
  split at h
  · rename_i hguard
    obtain ⟨s, hs, rfl⟩ := Option.map_eq_some_iff.mp h
    obtain ⟨_, hvalid, db, claimed, hclaim, rfl⟩ := Service.step_claim.mp hs
    obtain ⟨lost, hspec⟩ := claimBatch_spec hclaim
    obtain rfl := hspec.returned
    exact ⟨hguard.1, hguard.2.2, hvalid, lost, hspec, by simp⟩
  · cases h

end Worker

def worker (settings : Settings) (workerId : WorkerId) : Machine Worker WorkerEvent :=
  .ofFun (fun w => ∃ clock, w = ⟨.empty clock, []⟩) (Worker.step settings workerId)

/-- The service beside a worker runs as it does without. -/
theorem service_of_worker {settings : Settings} {workerId : WorkerId} {w : Worker}
    (h : (worker settings workerId).Reachable w) : (service settings).Reachable w.service := by
  induction h with
  | init h0 =>
      obtain ⟨clock, rfl⟩ := h0
      exact .init ⟨clock, rfl⟩
  | @step w w' e _ _ hst ih =>
      cases e with
      | queue e =>
          obtain ⟨s, hs, rfl⟩ := Option.map_eq_some_iff.mp hst
          exact .step ih trivial hs
      | tick call =>
          simp only [worker, Machine.ofFun, Worker.step] at hst
          split at hst
          · obtain ⟨s, hs, rfl⟩ := Option.map_eq_some_iff.mp hst
            exact .step ih trivial hs
          · cases hst
      | done id n =>
          cases hst
          exact ih

end LeadQueue
