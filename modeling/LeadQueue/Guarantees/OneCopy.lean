import LeadQueue.Guarantees.ManualRetry

/-!
# At most one copy on the wire

The service together with the HTTP attempts under way. A worker sends once for
each claim, after the claim has committed, and records after the attempt is
over. A crash ends the calls of a worker; what it does not do any more is left
open, so a run may also contain its late steps.
-/

namespace LeadQueue

open Relational Transition

structure Wire where
  service : Service
  /-- Attempts ever started. -/
  started : List (DeliveryId × ℕ)
  /-- Attempts in progress. -/
  running : List (DeliveryId × ℕ)

inductive WireEvent where
  | queue (e : Event)
  | start (id : DeliveryId) (n : ℕ)
  | finish (id : DeliveryId) (n : ℕ)
  | crash (workerId : WorkerId)

namespace Wire

def step (settings : Settings) (w : Wire) : WireEvent → Option Wire
  | .queue e =>
      if ∀ r ∈ Service.recordedBy e, r.1 ∈ w.started ∧ r.1 ∉ w.running then
        (w.service.step settings e).map fun s => { w with service := s }
      else none
  | .start id n =>
      if (w.service.claim? id n).isSome ∧ (id, n) ∉ w.started then
        some { w with started := (id, n) :: w.started, running := (id, n) :: w.running }
      else none
  | .finish id n => some { w with running := w.running.filter fun k => k ≠ (id, n) }
  | .crash workerId =>
      some { w with running := w.running.filter fun k =>
        !(w.service.claim? k.1 k.2).any fun c => c.workerId == workerId }

/-- The two assumptions. (i) An attempt starts and is over while its lease runs:
time does not reach the lease's end while the attempt is in progress. (ii) A
result commits while its claim's lease runs. -/
def Timely (w : Wire) : WireEvent → Prop
  | .queue (.advance t) => ∀ k ∈ w.running, ∀ c ∈ w.service.claim? k.1 k.2, t < c.leaseExpiresAt
  | .queue (.record id n _ _ _) =>
      ∀ c ∈ w.service.claim? id n, w.service.clock < c.leaseExpiresAt
  | .start id n => ∀ c ∈ w.service.claim? id n, w.service.clock < c.leaseExpiresAt
  | _ => True

instance (w : Wire) (e : WireEvent) : Decidable (w.Timely e) := by
  unfold Timely
  split <;> infer_instance

/-- Attempts of one delivery in progress. -/
def copies (w : Wire) (id : DeliveryId) : ℕ := w.running.countP fun k => k.1 = id

end Wire

def wire (settings : Settings) : Machine Wire WireEvent :=
  .ofFun (fun w => ∃ clock, w = ⟨.empty clock, [], []⟩) (Wire.step settings)

/-! ## The queue under timely results -/

namespace Life

/-- A result commits while its claim's lease runs. -/
def TimelyRecord (l : Life) : Event → Prop
  | .record n _ _ _ => ∀ c ∈ l.claims n, l.clock < c.leaseExpiresAt
  | _ => True

/-- A timely result is the result of the claim in force. -/
theorem LiveInForce.spares {settings : Settings} {l l' : Life} {d : Event} (h : l.LiveInForce)
    (hinv : l.Inv settings) (hok : l.TimelyRecord d) (hstep : Step settings l d l') :
    l.SparesLiveLease d := by
  have hrecord : ∀ n c, l.claims n = some c → l.results n = none → l.clock < c.leaseExpiresAt →
      ∀ c' ∈ l.current?, c'.attemptNumber = n := by
    intro n c hc hres hlive c' hc'
    obtain rfl : c' = c := Option.some.inj (Eq.trans hc'.symm (h n c hc hres hlive))
    exact (hinv.fits n c' hc).number
  cases hstep with
  | advance _ => trivial
  | claim _ _ _ => trivial
  | requeue _ _ => trivial
  | success _ hnone hc _ _ =>
      intro c _ c' hc' hne
      exact absurd (hrecord _ _ hc hnone (hok _ hc) c' hc') hne
  | failure _ hnone hc _ _ _ _ =>
      intro c _ c' hc' hne
      exact absurd (hrecord _ _ hc hnone (hok _ hc) c' hc') hne

end Life

theorem liveInForce_of_timely {settings : Settings} {l : Life}
    (h : (life settings).ReachableBy Life.TimelyRecord l) : l.LiveInForce := by
  induction h with
  | init h0 => exact .of_starts h0
  | step hs hok hst ih =>
      exact ih.step (life_inv hs) (ih.spares (life_inv hs) hok hst) hst

/-! ## The attempts in progress -/

namespace Wire

/-- Every attempt in progress is a different one, was started, and has a claim
whose lease runs and whose result is not recorded. -/
structure Inv (w : Wire) : Prop where
  nodup : w.running.Nodup
  started : ∀ k ∈ w.running, k ∈ w.started
  unstarted : ∀ id n, (id, n) ∉ w.started → w.service.result? id n = none
  live : ∀ k ∈ w.running, ∃ c, w.service.claim? k.1 k.2 = some c ∧
    w.service.result? k.1 k.2 = none ∧ w.service.clock < c.leaseExpiresAt

theorem Inv.filter {w : Wire} (h : w.Inv) (keep : DeliveryId × ℕ → Bool) :
    Inv { w with running := w.running.filter keep } where
  nodup := h.nodup.filter _
  started k hk := h.started k (List.mem_of_mem_filter hk)
  unstarted := h.unstarted
  live k hk := h.live k (List.mem_of_mem_filter hk)

theorem Inv.start {w : Wire} (h : w.Inv) {id : DeliveryId} {n : ℕ} {c : Claim}
    (hc : w.service.claim? id n = some c) (hnew : (id, n) ∉ w.started)
    (hlive : w.service.clock < c.leaseExpiresAt) :
    Inv { w with started := (id, n) :: w.started, running := (id, n) :: w.running } where
  nodup := List.nodup_cons.mpr ⟨fun hmem => hnew (h.started _ hmem), h.nodup⟩
  started k hk := by
    rcases List.mem_cons.mp hk with rfl | hk
    · exact List.mem_cons_self
    · exact List.mem_cons_of_mem _ (h.started k hk)
  unstarted id' n' hmem := h.unstarted id' n' fun hold => hmem (List.mem_cons_of_mem _ hold)
  live k hk := by
    rcases List.mem_cons.mp hk with rfl | hk
    · exact ⟨c, hc, h.unstarted id n hnew, hlive⟩
    · exact h.live k hk

theorem step_queue {settings : Settings} {w w' : Wire} {e : Event}
    (h : step settings w (.queue e) = some w') :
    (∀ r ∈ Service.recordedBy e, r.1 ∈ w.started ∧ r.1 ∉ w.running) ∧
      ∃ s, Service.step settings w.service e = some s ∧ w' = { w with service := s } := by
  simp only [step] at h
  split at h
  · rename_i hsent
    obtain ⟨s, hs, rfl⟩ := Option.map_eq_some_iff.mp h
    exact ⟨hsent, s, hs, rfl⟩
  · cases h

theorem Inv.queue {settings : Settings} {w : Wire} {e : Event} {s : Service} (h : w.Inv)
    (hok : w.Timely (.queue e))
    (hsent : ∀ r ∈ Service.recordedBy e, r.1 ∈ w.started ∧ r.1 ∉ w.running)
    (hs : Service.step settings w.service e = some s) : Inv { w with service := s } where
  nodup := h.nodup
  started := h.started
  unstarted id n hmem := Service.step_result?_none hs (h.unstarted id n hmem)
    fun r hr heq => hmem (heq ▸ (hsent r hr).1)
  live k hk := by
    obtain ⟨c, hc, hres, hlive⟩ := h.live k hk
    refine ⟨c, Service.step_claim?_mono hs hc, Service.step_result?_none hs hres
      fun r hr heq => (hsent r hr).2 (heq ▸ hk), ?_⟩
    show s.clock < c.leaseExpiresAt
    rw [(Service.step_memory hs).1]
    cases e with
    | advance t => exact hok k hk c hc
    | _ => exact hlive

theorem Inv.step {settings : Settings} {w w' : Wire} {e : WireEvent} (h : w.Inv)
    (hok : w.Timely e) (hstep : Wire.step settings w e = some w') : w'.Inv := by
  cases e with
  | queue e =>
      obtain ⟨hsent, s, hs, rfl⟩ := step_queue hstep
      exact h.queue hok hsent hs
  | start id n =>
      simp only [Wire.step] at hstep
      split at hstep
      · rename_i hguard
        obtain ⟨c, hc⟩ := Option.isSome_iff_exists.mp hguard.1
        cases hstep
        exact h.start hc hguard.2 (hok c hc)
      · cases hstep
  | finish id n =>
      cases hstep
      exact h.filter _
  | crash workerId =>
      cases hstep
      exact h.filter _

theorem everywhere_of_timely {w : Wire} {e : Event} (h : w.Timely (.queue e)) :
    Service.Everywhere Life.TimelyRecord w.service e := by
  intro id x hx d hd
  obtain ⟨hclock, _, _, hclaims, _⟩ := Service.parts_of_life hx
  cases e with
  | record id' n result draw now =>
      simp only [Service.acts] at hd
      split at hd
      · rename_i hid
        cases hd
        intro c hc
        rw [hclock]
        exact h c (hid ▸ hclaims ▸ hc)
      · cases hd
  | advance t =>
      cases hd
      trivial
  | accept gen req => cases hd
  | attach gen requestId recipients => cases hd
  | claim call =>
      simp only [Service.acts] at hd
      split at hd <;> cases hd
      trivial
  | requeueRequest call requestId recipients includeDelivered =>
      simp only [Service.acts] at hd
      split at hd <;> cases hd
      trivial
  | requeueBulk call filter limit =>
      simp only [Service.acts] at hd
      split at hd <;> cases hd
      trivial

end Wire

theorem wire_inv {settings : Settings} {w : Wire} (h : (wire settings).ReachableBy Wire.Timely w) :
    w.Inv := by
  induction h with
  | init h0 =>
      obtain ⟨clock, rfl⟩ := h0
      exact ⟨List.nodup_nil, by simp, fun _ _ _ => rfl, by simp⟩
  | step _ hok hst ih => exact ih.step hok hst

/-- The service in a run with timely results. -/
theorem service_of_wire {settings : Settings} {w : Wire}
    (h : (wire settings).ReachableBy Wire.Timely w) :
    (service settings).ReachableBy (Service.Everywhere Life.TimelyRecord) w.service := by
  induction h with
  | init h0 =>
      obtain ⟨clock, rfl⟩ := h0
      exact .init ⟨clock, rfl⟩
  | @step w w' e _ hok hst ih =>
      cases e with
      | queue e =>
          obtain ⟨_, s, hs, rfl⟩ := Wire.step_queue hst
          exact .step ih (Wire.everywhere_of_timely hok) hs
      | start id n =>
          simp only [wire, Machine.ofFun, Wire.step] at hst
          split at hst <;> cases hst
          exact ih
      | finish id n =>
          cases hst
          exact ih
      | crash workerId =>
          cases hst
          exact ih

/-- An attempt in progress is the attempt of the claim in force. -/
theorem running_current {settings : Settings} {w : Wire}
    (h : (wire settings).ReachableBy Wire.Timely w) {k : DeliveryId × ℕ} (hk : k ∈ w.running) :
    ∃ c, w.service.current? k.1 = some c ∧ c.attemptNumber = k.2 := by
  obtain ⟨c, hc, hres, hlive⟩ := (wire_inv h).live k hk
  have hreach := service_of_wire h
  obtain ⟨_, _, hcn⟩ := Service.claim?_eq_some hc
  cases hlife : w.service.life k.1 with
  | none =>
      have hfree := (Service.tidy_of_reachable hreach k.1 (Service.life_eq_none_iff.mp hlife) k.2).1
      rw [hc] at hfree
      cases hfree
  | some x =>
      obtain ⟨hclock, _, _, hclaims, hresults, _⟩ := Service.parts_of_life hlife
      refine ⟨c, ?_, hcn⟩
      rw [Service.current?, hlife, Option.bind_some]
      exact liveInForce_of_timely (life_reachable hreach hlife) k.2 c (hclaims ▸ hc)
        (hresults ▸ hres) (hclock ▸ hlive)

theorem length_le_one_of_nodup {α : Type} {xs : List α} (hnodup : xs.Nodup)
    (hsame : ∀ x ∈ xs, ∀ y ∈ xs, x = y) : xs.length ≤ 1 := by
  match xs with
  | [] => simp
  | [x] => simp
  | x :: y :: rest =>
      have heq := hsame x (by simp) y (by simp)
      simp [heq] at hnodup

/-- No delivery has two attempts in progress. -/
theorem at_most_one_copy {settings : Settings} {w : Wire}
    (h : (wire settings).ReachableBy Wire.Timely w) (id : DeliveryId) : w.copies id ≤ 1 := by
  have hnodup := (wire_inv h).nodup
  have hsame : ∀ k ∈ w.running.filter (fun k => k.1 = id),
      ∀ k' ∈ w.running.filter (fun k => k.1 = id), k = k' := by
    intro k hk k' hk'
    obtain ⟨hmem, hid⟩ := List.mem_filter.mp hk
    obtain ⟨hmem', hid'⟩ := List.mem_filter.mp hk'
    have hid := of_decide_eq_true hid
    have hid' := of_decide_eq_true hid'
    obtain ⟨c, hc, hn⟩ := running_current h hmem
    obtain ⟨c', hc', hn'⟩ := running_current h hmem'
    rw [hid] at hc
    rw [hid'] at hc'
    obtain rfl : c = c' := Option.some.inj (hc.symm.trans hc')
    exact Prod.ext (hid.trans hid'.symm) (hn.symm.trans hn')
  rw [Wire.copies, List.countP_eq_length_filter]
  exact length_le_one_of_nodup (hnodup.filter _) hsame

namespace OneCopy

/-- Worker A sends and fails in time; after the backoff worker B sends. -/
def sentTwice : List (Wire → WireEvent) :=
  [fun w => .queue (Move.accept 0 Move.lead w.service),
    fun w => .queue (Move.claim .default Move.workerA 1 w.service),
    fun _ => .start Move.first 1,
    fun _ => .finish Move.first 1,
    fun w => .queue (Move.record Move.first 1 Move.timedOut w.service),
    fun w => .queue (Move.advance 10000000 w.service),
    fun w => .queue (Move.claim .default Move.workerB 1 w.service),
    fun _ => .start Move.first 2]

end OneCopy

/-- While B sends, its copy is the only one. -/
theorem at_most_one_copy_sentTwice :
    ∃ w, (wire .default).ReachableBy Wire.Timely w ∧ 0 < w.copies Move.first ∧
      w.copies Move.first ≤ 1 := by
  obtain ⟨w, hw, hp⟩ : ∃ w, (wire .default).ReachableBy Wire.Timely w ∧
      decide (0 < w.copies Move.first) = true :=
    @Machine.exists_reachableBy_of_play _ _ _ _ Wire.Timely _ ⟨.empty 0, [], []⟩
      OneCopy.sentTwice _ ⟨0, rfl⟩ (by decide +kernel)
  exact ⟨w, hw, of_decide_eq_true hp, at_most_one_copy hw Move.first⟩

end LeadQueue
