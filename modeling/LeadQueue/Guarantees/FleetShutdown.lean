import LeadQueue.Guarantees.FleetRecords
import LeadQueue.Library.Runs

/-!
# A worker that stops, and one that polls

What a process does is bounded by two potentials. Once it is asked to stop, each
of its steps lowers what is left for it to do, so it ends. While it runs, a call
of `claim_batch` that found work has filled a slot, and one that did not is
followed by a sleep, so its calls are bounded by the tasks and the sleeps that
ended, whatever the queue holds.
-/

namespace LeadQueue

open Relational Transition

theorem sum_filter_lt {α : Type} {f : α → ℕ} {keep : α → Bool} {xs : List α} {x : α}
    (hx : x ∈ xs) (hout : keep x = false) (hpos : 0 < f x) :
    ((xs.filter keep).map f).sum < (xs.map f).sum := by
  induction xs with
  | nil => cases hx
  | cons y ys ih =>
      have hrest : ((ys.filter keep).map f).sum ≤ (ys.map f).sum :=
        (List.filter_sublist.map f).sum_le_sum fun _ _ => Nat.zero_le _
      rw [List.map_cons, List.sum_cons]
      rcases List.mem_cons.mp hx with rfl | hx
      · rw [List.filter_cons_of_neg (by simp [hout])]
        omega
      · have hlt := ih hx
        by_cases hy : keep y = true
        · rw [List.filter_cons_of_pos hy, List.map_cons, List.sum_cons]
          omega
        · rw [List.filter_cons_of_neg hy]
          omega

/-- Events that come from outside the process. -/
def ProcessEvent.forced : ProcessEvent → Bool
  | .requestStop | .abandon | .crash => true
  | _ => false

/-! ## What is left to do -/

/-- Steps until the task is over. -/
def Task.remaining (t : Task) : ℕ :=
  match t.stage with
  | .sending => 2
  | .recording _ => 1

theorem Task.remaining_pos (t : Task) : 0 < t.remaining := by
  unfold remaining
  split <;> decide

/-- Steps until the process is over, tasks apart, once it is asked to stop: a
claim under way may still bring tasks. -/
def Phase.remaining : Phase → ℕ
  | .claiming limit => 2 * limit + 4
  | .waitingForSlot | .sleeping => 3
  | .loop => 2
  | .draining => 1
  | .stopped => 0

namespace Process

variable {settings : Settings} {p p' : Process} {key : DeliveryId × ℕ}

def remaining (p : Process) : ℕ := p.phase.remaining + (p.tasks.map Task.remaining).sum

theorem remaining_spawn {limit : ℕ} {claimed : List ClaimedDelivery}
    (hphase : p.phase = .claiming limit) (hle : claimed.length ≤ limit) :
    (p.spawn claimed).remaining < p.remaining := by
  have hnew : ((claimed.map fun claim => (⟨claim, .sending⟩ : Task)).map Task.remaining).sum =
      2 * claimed.length := by
    simp [Function.comp_def, Task.remaining, Nat.mul_comm]
  have hleft : (p.spawn claimed).phase.remaining ≤ 3 := by
    simp only [spawn]
    split <;> simp [Phase.remaining]
  unfold remaining
  rw [hphase]
  simp only [spawn, List.map_append, List.sum_append, hnew, Phase.remaining] at hleft ⊢
  omega

theorem remaining_discard {t : Task} (h : p.task? key = some t) :
    (p.discard key).remaining < p.remaining := by
  obtain ⟨_, hkey⟩ := task?_eq_some h
  refine Nat.add_lt_add_left ?_ _
  exact sum_filter_lt (List.mem_of_find?_eq_some h) (by simp [hkey]) t.remaining_pos

theorem remaining_receive {claim : ClaimedDelivery} {result : AttemptResult}
    (h : p.task? key = some ⟨claim, .sending⟩) :
    (p.receive key result).remaining < p.remaining := by
  obtain ⟨_, hkey⟩ := task?_eq_some h
  refine Nat.add_lt_add_left ?_ _
  simp only [receive, List.map_map]
  refine List.sum_lt_sum _ _ (fun t _ => ?_) ⟨_, List.mem_of_find?_eq_some h, ?_⟩
  · simp only [Function.comp_apply]
    split
    · exact t.remaining_pos
    · exact le_rfl
  · simp only [Function.comp_apply, if_pos hkey]
    exact Nat.lt_succ_self 1

/-- A process that was asked to stop is closer to its end after each step. -/
theorem remaining_step {e : ProcessEvent} (hstop : p.stop = true)
    (h : p.step settings e = some p') :
    p'.stop = true ∧ (e = .requestStop ∧ p'.remaining = p.remaining ∨
      p'.remaining < p.remaining) := by
  cases e with
  | requestStop =>
      cases h
      exact ⟨rfl, Or.inl ⟨rfl, rfl⟩⟩
  | tick =>
      simp only [step] at h
      split at h <;> cases h
      rename_i hphase
      refine ⟨hstop, Or.inr ?_⟩
      simp [remaining, afterTick, hstop, hphase, Phase.remaining]
  | claimFailed =>
      simp only [step] at h
      split at h <;> cases h
      rename_i limit hphase
      refine ⟨hstop, Or.inr ?_⟩
      simp only [remaining, hphase, Phase.remaining]
      omega
  | wake =>
      simp only [step] at h
      split at h <;> cases h
      all_goals
        rename_i hphase
        refine ⟨hstop, Or.inr ?_⟩
        simp only [remaining, hphase, Phase.remaining]
        omega
  | sent key startedAt finishedAt exchange =>
      simp only [step] at h
      split at h
      · rename_i htask
        cases h
        exact ⟨hstop, Or.inr (remaining_receive htask)⟩
      · cases h
  | recordFailed key =>
      simp only [step] at h
      split at h
      · rename_i htask
        cases h
        exact ⟨hstop, Or.inr (remaining_discard htask)⟩
      · cases h
  | drained =>
      simp only [step] at h
      split at h <;> cases h
      rename_i hguard
      refine ⟨hstop, Or.inr ?_⟩
      simp only [remaining, hguard.1, Phase.remaining]
      omega
  | abandon =>
      simp only [step] at h
      split at h <;> cases h
      rename_i hguard
      refine ⟨hstop, Or.inr ?_⟩
      simp only [remaining, hguard.1, Phase.remaining, List.map_nil, List.sum_nil]
      omega
  | crash =>
      simp only [step] at h
      split at h <;> cases h
      rename_i hphase
      refine ⟨hstop, Or.inr ?_⟩
      have hpos : 0 < p.phase.remaining := by
        cases hp : p.phase <;> simp_all [Phase.remaining]
      exact hpos.trans_le (Nat.le_add_right _ _)

/-- The ceiling bounds what is left. -/
theorem remaining_le (h : p.Within settings) :
    p.remaining ≤ 2 * settings.workerConcurrency + 4 := by
  have hslots := h.slots
  have htasks : (p.tasks.map Task.remaining).sum ≤ 2 * p.tasks.length := by
    rw [← List.length_map (f := Task.remaining), Nat.mul_comm]
    refine List.sum_le_card_nsmul _ _ fun n hn => ?_
    obtain ⟨t, _, rfl⟩ := List.mem_map.mp hn
    unfold Task.remaining
    split <;> decide
  have hphase : p.phase.remaining ≤ 2 * p.phase.asked + 4 := by
    cases p.phase <;> simp [Phase.remaining, Phase.asked]
  unfold remaining
  omega

/-- A process that has not ended can go on, nobody killing it. -/
theorem exists_step (h : p.phase ≠ .stopped) :
    ∃ e : ProcessEvent, e.forced = false ∧ (p.step settings e).isSome := by
  cases hphase : p.phase with
  | loop => exact ⟨.tick, rfl, by simp [step, hphase]⟩
  | claiming limit => exact ⟨.claimFailed, rfl, by simp [step, hphase]⟩
  | waitingForSlot => exact ⟨.wake, rfl, by simp [step, hphase]⟩
  | sleeping => exact ⟨.wake, rfl, by simp [step, hphase]⟩
  | stopped => exact absurd hphase h
  | draining =>
      cases htasks : p.tasks with
      | nil => exact ⟨.drained, rfl, by simp [step, hphase, htasks]⟩
      | cons t ts =>
          have htask : p.task? t.key = some t := by simp [task?, htasks]
          obtain ⟨claim, stage⟩ := t
          cases stage with
          | sending =>
              exact ⟨.sent (Task.key ⟨claim, .sending⟩) 0 0 .deadlineExceeded, rfl,
                by simp [step, htask]⟩
          | recording result =>
              exact ⟨.recordFailed (Task.key ⟨claim, .recording result⟩), rfl,
                by simp [step, htask]⟩

end Process

/-! ## Asked to stop -/

/-- A step that process `w` takes; being asked to stop is none. -/
def FleetEvent.stepOf (w : WorkerId) : FleetEvent → Bool
  | .own _ .requestStop => false
  | e => e.actor == some w

/-- Process `w` was asked to stop. -/
def Fleet.Stopping (w : WorkerId) (f : Fleet) : Prop := ∃ p, f.workers w = some p ∧ p.stop = true

def Fleet.remaining (w : WorkerId) (f : Fleet) : ℕ := (f.workers w).elim 0 Process.remaining

/-- One step of a fleet in which `w` was asked to stop. -/
theorem stopping_step {settings : Settings} {w : WorkerId} {f f' : Fleet} {e : FleetEvent}
    (hstop : f.Stopping w) (h : f.step settings e = some f') :
    f'.Stopping w ∧ (e.stepOf w).toNat + f'.remaining w ≤ f.remaining w := by
  obtain ⟨p, hp, hstop⟩ := hstop
  by_cases hw : e.actor = some w
  · obtain ⟨p', hp', hcases⟩ := Fleet.worker_cases h hp hw
    suffices hless : p'.stop = true ∧ (e.stepOf w).toNat + p'.remaining ≤ p.remaining by
      refine ⟨⟨p', hp', hless.1⟩, ?_⟩
      simpa only [Fleet.remaining, hp, hp', Option.elim_some] using hless.2
    have hone := Bool.toNat_le (e.stepOf w)
    rcases hcases with ⟨e', rfl, hown⟩ | ⟨call, s, new, rfl, hphase, hclaim, rfl⟩ |
      ⟨call, rfl, hphase, rfl⟩ | ⟨key, draw, now, claim, result, rfl, htask, rfl⟩
    · obtain ⟨hstop', ⟨rfl, heq⟩ | hlt⟩ := Process.remaining_step hstop hown
      · exact ⟨hstop', by simp [FleetEvent.stepOf, heq]⟩
      · exact ⟨hstop', by omega⟩
    · have hlt := Process.remaining_spawn hphase (Fleet.claimed_length hclaim)
      exact ⟨hstop, by omega⟩
    · refine ⟨hstop, ?_⟩
      simp only [Process.remaining, hphase, Phase.remaining]
      omega
    · have hlt := Process.remaining_discard htask
      exact ⟨hstop, by omega⟩
  · have hsame := Fleet.workers_of_ne h hw
    have hnot : e.stepOf w = false := by
      unfold FleetEvent.stepOf
      split
      · rfl
      · simpa using hw
    refine ⟨⟨p, hsame.trans hp, hstop⟩, ?_⟩
    simp [Fleet.remaining, hsame, hnot]

/-- The claims process `w` has made. -/
def Fleet.claimsBy (w : WorkerId) (f : Fleet) : ℕ :=
  f.service.claims.countP fun c => c.workerId = w

def Fleet.asked (w : WorkerId) (f : Fleet) : ℕ := (f.workers w).elim 0 fun p => p.phase.asked

/-- A process that was asked to stop asks for nothing more. -/
theorem Process.asked_step {settings : Settings} {p p' : Process} {e : ProcessEvent}
    (hstop : p.stop = true) (h : p.step settings e = some p') :
    p'.phase.asked ≤ p.phase.asked := by
  cases e with
  | tick =>
      simp only [step] at h
      split at h <;> cases h
      simp [afterTick, hstop, Phase.asked]
  | requestStop =>
      cases h
      exact le_rfl
  | sent =>
      simp only [step] at h
      split at h <;> cases h
      exact le_rfl
  | recordFailed =>
      simp only [step] at h
      split at h <;> cases h
      exact le_rfl
  | _ =>
      simp only [step] at h
      split at h <;> cases h
      all_goals exact Nat.zero_le _

theorem Fleet.claimsBy_of_claim {settings : Settings} {s t : Service} {call : ClaimCall}
    {new : List ClaimedDelivery} (h : Fleet.claim settings s call = some (t, new)) (w : WorkerId) :
    t.claims.countP (fun c => c.workerId = w) = s.claims.countP (fun c => c.workerId = w) +
      if call.workerId = w then new.length else 0 := by
  rw [(Fleet.claim_eq_some.mp h).2.1, List.countP_append, newClaims, List.countP_map]
  congr 1
  split
  · rename_i hw
    exact List.countP_eq_length.mpr fun d _ => by simpa using hw
  · rename_i hw
    exact List.countP_eq_zero.mpr fun d _ => by simpa using hw

theorem Process.asked_spawn {p : Process} (new : List ClaimedDelivery) :
    (p.spawn new).phase.asked = 0 := by
  simp only [Process.spawn]
  split <;> rfl

/-- Once it was asked to stop, a process claims no more than it has asked for. -/
theorem stopping_claims {settings : Settings} {w : WorkerId} {f f' : Fleet} {e : FleetEvent}
    (hstop : f.Stopping w) (h : f.step settings e = some f') :
    f'.claimsBy w + f'.asked w ≤ f.claimsBy w + f.asked w := by
  obtain ⟨p, hp, hstop⟩ := hstop
  by_cases hw : e.actor = some w
  · obtain ⟨p', hp', hcases⟩ := Fleet.worker_cases h hp hw
    have hasked : f.asked w = p.phase.asked := by simp [Fleet.asked, hp]
    have hasked' : f'.asked w = p'.phase.asked := by simp [Fleet.asked, hp']
    rw [hasked, hasked']
    rcases Fleet.step_claims h with hsame | ⟨call, s, new, hevent, hclaim, hs⟩
    · rw [Fleet.claimsBy, hsame, Fleet.claimsBy]
      refine Nat.add_le_add_left ?_ _
      rcases hcases with ⟨e', rfl, hown⟩ | ⟨call, s, new, rfl, _, _, rfl⟩ | ⟨call, rfl, _, rfl⟩ |
        ⟨key, draw, now, claim, result, rfl, htask, rfl⟩
      · exact Process.asked_step hstop hown
      · exact (Process.asked_spawn new).le.trans (Nat.zero_le _)
      · exact Nat.zero_le _
      · exact le_rfl
    · -- what the transaction hands out is what was asked for at most
      have hnew : p.phase.asked = call.limit ∧ p'.phase.asked = 0 := by
        rcases hevent with rfl | rfl <;>
          rcases hcases with ⟨_, heq, _⟩ | ⟨_, _, new', heq, hphase, _, rfl⟩ |
            ⟨_, heq, hphase, rfl⟩ | ⟨_, _, _, _, _, heq, _⟩ <;> cases heq
        · exact ⟨by rw [hphase]; rfl, Process.asked_spawn _⟩
        · exact ⟨by rw [hphase]; rfl, rfl⟩
      have hid : call.workerId = w := by
        rcases hevent with rfl | rfl <;> exact Option.some.inj hw
      have hlength := Fleet.claimed_length hclaim
      rw [Fleet.claimsBy, hs, Fleet.claimsBy_of_claim hclaim, if_pos hid, Fleet.claimsBy]
      omega
  · have hsame : f'.asked w = f.asked w := by simp only [Fleet.asked, Fleet.workers_of_ne h hw]
    rw [hsame]
    refine Nat.add_le_add_right ?_ _
    rcases Fleet.step_claims h with hclaims | ⟨call, s, new, hevent, hclaim, hs⟩
    · rw [Fleet.claimsBy, hclaims, Fleet.claimsBy]
    · have hne : call.workerId ≠ w := by
        rintro rfl
        rcases hevent with rfl | rfl <;> exact hw rfl
      rw [Fleet.claimsBy, hs, Fleet.claimsBy_of_claim hclaim, if_neg hne, Fleet.claimsBy,
        Nat.add_zero]

/-- A process that was asked to stop takes at most two steps for each slot and
four more, whatever else happens; meanwhile it claims no more than it had asked
for; and until it has ended it can go on by itself. -/
theorem asked_to_stop_ends {settings : Settings} {w : WorkerId} {f f' : Fleet} {p : Process}
    {trace : List (Fleet × FleetEvent)} (hf : (fleet settings).Reachable f)
    (hp : f.workers w = some p) (hstop : p.stop = true)
    (hrun : (fleet settings).Run f trace f') :
    trace.countP (fun x => x.2.stepOf w) ≤ 2 * settings.workerConcurrency + 4 ∧
    f'.claimsBy w ≤ f.claimsBy w + p.phase.asked ∧
    ∃ p', f'.workers w = some p' ∧ (p'.phase = .stopped ∨
      ∃ e : ProcessEvent, e.forced = false ∧ (p'.step settings e).isSome) := by
  have hsteps := hrun.countP_le (I := Fleet.Stopping w) (μ := Fleet.remaining w)
    (p := fun x => x.2.stepOf w) (q := fun _ => false) ⟨p, hp, hstop⟩
    fun s e t hs hst => by simpa using stopping_step hs hst
  obtain ⟨⟨p', hp', hstop'⟩, hcount⟩ := hsteps
  refine ⟨?_, ?_, p', hp', ?_⟩
  · have hleft := Process.remaining_le ((fleet_inv hf).within w p hp)
    simp only [List.countP_false, Function.const_apply, Fleet.remaining, hp, hp',
      Option.elim_some] at hcount
    omega
  · have hlater : (fleet settings).Later f f' := hrun.laterBy fun _ _ => trivial
    have hclaims := hlater.keeps (I := fun v : Fleet =>
      v.Stopping w ∧ v.claimsBy w + v.asked w ≤ f.claimsBy w + f.asked w) hf
      ⟨⟨p, hp, hstop⟩, le_rfl⟩ fun v e u _ hv _ hst =>
        ⟨(stopping_step hv.1 hst).1, (stopping_claims hv.1 hst).trans hv.2⟩
    have hasked : f.asked w = p.phase.asked := by simp [Fleet.asked, hp]
    have hle := hclaims.2
    omega
  · by_cases hphase : p'.phase = .stopped
    · exact Or.inl hphase
    · exact Or.inr (Process.exists_step hphase)

/-! ## Polling -/

def Phase.isClaiming : Phase → Bool
  | .claiming _ => true
  | _ => false

/-- The tick goes on to call `claim_batch`. -/
def Process.calls (settings : Settings) (p : Process) : ProcessEvent → Bool
  | .tick => (p.afterTick settings).isClaiming
  | _ => false

/-- A task ends, or a sleep does. -/
def Process.frees (p : Process) : ProcessEvent → Bool
  | .recordFailed _ => true
  | .wake => p.phase = .sleeping
  | _ => false

/-- The calls a process with so many free slots may make before a task or a
sleep of its ends. -/
def Phase.credit (free : ℕ) : Phase → ℕ
  | .loop | .waitingForSlot => free + 1
  | .claiming _ | .sleeping => free
  | .draining | .stopped => 0

def Process.credit (settings : Settings) (p : Process) : ℕ :=
  p.phase.credit (p.freeSlots settings)

namespace Process

variable {settings : Settings} {p p' : Process} {key : DeliveryId × ℕ}

theorem credit_le (p : Process) : p.credit settings ≤ p.freeSlots settings + 1 := by
  unfold credit Phase.credit
  split <;> omega

theorem credit_afterTick (p : Process) : ((p.afterTick settings).isClaiming).toNat +
    (p.afterTick settings).credit (p.freeSlots settings) ≤ p.freeSlots settings + 1 := by
  unfold afterTick
  split
  · exact Nat.zero_le _
  · split
    · exact (Nat.zero_add _).le
    · exact (Nat.add_comm _ _).le

/-- A task that ends frees one slot. -/
theorem length_discard (hnodup : p.keys.Nodup) :
    p.tasks.length ≤ (p.discard key).tasks.length + 1 := by
  have hsplit := List.length_eq_length_filter_add (l := p.tasks) fun t => decide (t.key ≠ key)
  have hone : (p.tasks.filter fun t => !decide (t.key ≠ key)).length ≤ 1 := by
    have hcount := List.nodup_iff_count_le_one.mp hnodup key
    rw [keys, held, List.map_map, List.count, List.countP_map] at hcount
    rw [← List.countP_eq_length_filter]
    refine le_of_eq_of_le (List.countP_congr fun t _ => ?_) hcount
    simp only [ne_eq, decide_not, Bool.not_not, decide_eq_true_eq, Function.comp_apply, beq_iff_eq]
    rfl
  simp only [discard]
  omega

theorem credit_discard (hnodup : p.keys.Nodup) :
    (p.discard key).credit settings ≤ 1 + p.credit settings := by
  have hlength : p.tasks.length ≤ (p.discard key).tasks.length + 1 := length_discard hnodup
  have hphase : (p.discard key).phase = p.phase := rfl
  unfold credit freeSlots Phase.credit
  rw [hphase]
  split <;> omega

theorem credit_spawn {limit : ℕ} {new : List ClaimedDelivery} (h : p.Within settings)
    (hphase : p.phase = .claiming limit) (hle : new.length ≤ limit) :
    (p.spawn new).credit settings ≤ p.credit settings := by
  have hslots := h.slots
  rw [hphase] at hslots
  simp only [Phase.asked] at hslots
  cases new with
  | nil => simp [credit, Phase.credit, spawn, freeSlots, hphase]
  | cons d ds =>
      simp only [credit, Phase.credit, spawn, freeSlots, hphase, List.isEmpty_cons,
        Bool.false_eq_true, if_false, List.length_append, List.length_map,
        List.length_cons] at hle ⊢
      omega

theorem credit_step {e : ProcessEvent} (hnodup : p.keys.Nodup)
    (h : p.step settings e = some p') :
    (p.calls settings e).toNat + p'.credit settings ≤ (p.frees e).toNat + p.credit settings := by
  cases e with
  | requestStop =>
      cases h
      exact le_rfl
  | tick =>
      simp only [step] at h
      split at h <;> cases h
      rename_i hphase
      unfold credit
      rw [hphase]
      exact (credit_afterTick p).trans (Nat.le_add_left _ _)
  | claimFailed =>
      simp only [step] at h
      split at h <;> cases h
      simp [calls, credit, Phase.credit]
  | wake =>
      simp only [step] at h
      split at h <;> cases h
      all_goals
        rename_i hphase
        simp [calls, frees, credit, Phase.credit, hphase, freeSlots, Nat.add_comm]
  | sent key startedAt finishedAt exchange =>
      simp only [step] at h
      split at h <;> cases h
      simp [calls, frees, credit, receive, freeSlots]
  | recordFailed key =>
      simp only [step] at h
      split at h <;> cases h
      simpa [calls, frees] using credit_discard hnodup
  | drained =>
      simp only [step] at h
      split at h <;> cases h
      simp [calls, credit, Phase.credit]
  | abandon =>
      simp only [step] at h
      split at h <;> cases h
      simp [calls, credit, Phase.credit]
  | crash =>
      simp only [step] at h
      split at h <;> cases h
      simp [calls, credit, Phase.credit]

end Process

/-- Process `w` calls `claim_batch`. -/
def FleetEvent.callsBy (settings : Settings) (w : WorkerId) : Fleet × FleetEvent → Bool
  | (f, .own v e) => v == w && (f.workers w).any fun p => p.calls settings e
  | _ => false

/-- A task or a sleep of process `w` ends. -/
def FleetEvent.freesBy (w : WorkerId) : Fleet × FleetEvent → Bool
  | (f, .own v e) => v == w && (f.workers w).any fun p => p.frees e
  | (_, .recorded v _ _ _) => v == w
  | _ => false

/-- The slots process `w` has free, or will have. -/
def Fleet.freeSlots (settings : Settings) (w : WorkerId) (f : Fleet) : ℕ :=
  (f.workers w).elim settings.workerConcurrency fun p => p.freeSlots settings

def Fleet.credit (settings : Settings) (w : WorkerId) (f : Fleet) : ℕ :=
  (f.workers w).elim (settings.workerConcurrency + 1) fun p => p.credit settings

theorem Fleet.credit_le {settings : Settings} {w : WorkerId} (f : Fleet) :
    f.credit settings w ≤ f.freeSlots settings w + 1 := by
  unfold credit freeSlots
  cases f.workers w with
  | none => exact le_rfl
  | some p => exact p.credit_le

theorem Fleet.credit_step {settings : Settings} {w : WorkerId} {f f' : Fleet} {e : FleetEvent}
    (hinv : f.Inv settings) (h : f.step settings e = some f') :
    (FleetEvent.callsBy settings w (f, e)).toNat + f'.credit settings w ≤
      (FleetEvent.freesBy w (f, e)).toNat + f.credit settings w := by
  by_cases hw : e.actor = some w
  · cases hp : f.workers w with
    | none =>
        -- the only event about an id that no process has yet
        cases e with
        | queue e => cases hw
        | start v =>
            cases hw
            obtain ⟨_, rfl⟩ := step_start.mp h
            simp [FleetEvent.callsBy, FleetEvent.freesBy, credit, hp, Process.credit,
              Process.freeSlots, Process.new, Phase.credit]
        | own v e =>
            cases hw
            obtain ⟨p, _, hq, _⟩ := step_own.mp h
            rw [hp] at hq
            cases hq
        | claimed v call =>
            cases hw
            obtain ⟨p, _, _, hq, _⟩ := step_claimed.mp h
            rw [hp] at hq
            cases hq
        | claimLost v call =>
            cases hw
            obtain ⟨p, _, _, hq, _⟩ := step_claimLost.mp h
            rw [hp] at hq
            cases hq
        | recorded v key draw now =>
            cases hw
            obtain ⟨p, _, _, _, hq, _⟩ := step_recorded.mp h
            rw [hp] at hq
            cases hq
    | some p =>
        obtain ⟨p', hp', hcases⟩ := worker_cases h hp hw
        have hcredit : f.credit settings w = p.credit settings := by simp [credit, hp]
        have hcredit' : f'.credit settings w = p'.credit settings := by simp [credit, hp']
        rw [hcredit, hcredit']
        rcases hcases with ⟨e', rfl, hown⟩ | ⟨call, s, new, rfl, hphase, hclaim, rfl⟩ |
          ⟨call, rfl, hphase, rfl⟩ | ⟨key, draw, now, claim, result, rfl, htask, rfl⟩
        · have hstep := Process.credit_step (hinv.nodup w p hp) hown
          simpa [FleetEvent.callsBy, FleetEvent.freesBy, hp] using hstep
        · refine (Nat.zero_add _).trans_le ((Process.credit_spawn (hinv.within w p hp) hphase
            (claimed_length hclaim)).trans (Nat.le_add_left _ _))
        · simp [FleetEvent.callsBy, Process.credit, Phase.credit]
        · simpa [FleetEvent.callsBy, FleetEvent.freesBy] using
            Process.credit_discard (hinv.nodup w p hp)
  · have hsame : f'.credit settings w = f.credit settings w := by
      simp only [credit, workers_of_ne h hw]
    have hnot : FleetEvent.callsBy settings w (f, e) = false := by
      unfold FleetEvent.callsBy
      split
      · rename_i heq
        cases heq
        have hne : ¬ _ = w := fun heq => hw (congrArg some heq)
        simp [hne]
      · rfl
    rw [hsame, hnot]
    exact Nat.add_le_add_right (Nat.zero_le _) _

/-- However much is due, and however little a call brings back, a worker calls
`claim_batch` at most once for each task or sleep of its that ended, and for
each slot that was free, and once more. -/
theorem polling_is_bounded {settings : Settings} (w : WorkerId) {f f' : Fleet}
    {trace : List (Fleet × FleetEvent)} (hf : (fleet settings).Reachable f)
    (hrun : (fleet settings).Run f trace f') :
    trace.countP (FleetEvent.callsBy settings w) ≤
      trace.countP (FleetEvent.freesBy w) + f.freeSlots settings w + 1 := by
  have hcount := (hrun.countP_le (I := Fleet.Inv settings) (μ := Fleet.credit settings w)
    (p := FleetEvent.callsBy settings w) (q := FleetEvent.freesBy w) (fleet_inv hf)
    fun _ _ _ hinv hst => ⟨hinv.step hst, Fleet.credit_step hinv hst⟩).2
  have hle := @Fleet.credit_le settings w f
  omega

/-! ### Runs -/

/-- What is left of the stopped worker's run once it was asked to stop. -/
theorem asked_to_stop_ends_inTime :
    ∃ f f' p p' trace, (fleet .default).Reachable f ∧ f.workers Move.workerA = some p ∧
      p.stop = true ∧ (fleet .default).Run f trace f' ∧ f'.workers Move.workerA = some p' ∧
      p'.phase = .stopped ∧
      trace.countP (fun x => x.2.stepOf Move.workerA) ≤
        2 * Settings.default.workerConcurrency + 4 := by
  obtain ⟨f, f', hf, hlater, hp⟩ := exists_later_fleet_of_moves .default
    (Fleet.Move.stoppedInTime.take 5) (Fleet.Move.stoppedInTime.drop 5)
    (fun f f' => (f.workers Move.workerA).any Process.stop &&
      (f'.workers Move.workerA).any fun p : Process => decide (p.phase = Phase.stopped))
    (by decide +kernel)
  obtain ⟨hstop, hstopped⟩ := Bool.and_eq_true_iff.mp hp
  obtain ⟨p, hworker, hstop⟩ := (Option.any_eq_true _ _).mp hstop
  obtain ⟨p', hworker', hstopped⟩ := (Option.any_eq_true _ _).mp hstopped
  obtain ⟨trace, hrun, _⟩ := Machine.Run.exists_of_laterBy hlater
  exact ⟨f, f', p, p', trace, hf, hworker, hstop, hrun, hworker', of_decide_eq_true hstopped,
    (asked_to_stop_ends hf hworker hstop hrun).1⟩

/-- A run from the empty database, computed, with the steps of its second part. -/
theorem exists_fleet_run_of_moves (settings : Settings) (moves moves' : List (Fleet → FleetEvent))
    (p : Fleet → List (Fleet × FleetEvent) → Bool)
    (h : ((Machine.play (Fleet.step settings) (fun _ _ => True) (.empty 0) moves).any fun f =>
      (Machine.play (Fleet.step settings) (fun _ _ => True) f moves').isSome &&
        p f (Machine.steps (Fleet.step settings) f moves')) = true) :
    ∃ f trace f', (fleet settings).Reachable f ∧ (fleet settings).Run f trace f' ∧
      p f trace = true :=
  Machine.exists_run_of_play ⟨0, rfl⟩ h

/-- A worker that polls an empty queue: two calls, one sleep. -/
theorem polling_is_bounded_idle :
    ∃ f f' trace, (fleet .default).Reachable f ∧ (fleet .default).Run f trace f' ∧
      trace.countP (FleetEvent.callsBy .default Move.workerA) = 2 ∧
      trace.countP (FleetEvent.freesBy Move.workerA) = 1 ∧
      2 ≤ 1 + f.freeSlots .default Move.workerA + 1 := by
  obtain ⟨f, trace, f', hf, hrun, hp⟩ := exists_fleet_run_of_moves .default
    [Fleet.Move.start Move.workerA]
    [Fleet.Move.own Move.workerA .tick, Fleet.Move.claimed .default Move.workerA,
      Fleet.Move.own Move.workerA .wake, Fleet.Move.own Move.workerA .tick]
    (fun _ trace => decide (trace.countP (FleetEvent.callsBy .default Move.workerA) = 2 ∧
      trace.countP (FleetEvent.freesBy Move.workerA) = 1)) (by decide +kernel)
  obtain ⟨hcalls, hfrees⟩ := of_decide_eq_true hp
  have hle := polling_is_bounded Move.workerA hf hrun
  rw [hcalls, hfrees] at hle
  exact ⟨f, f', trace, hf, hrun, hcalls, hfrees, hle⟩

end LeadQueue
