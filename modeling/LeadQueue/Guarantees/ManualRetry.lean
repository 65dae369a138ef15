import LeadQueue.Life.Invariant

/-!
# Manual retry and attempts under way

The requeue looks at the row's status and lease. They tell of every attempt
under way as long as the row stays in flight under the latest claim until that
claim's lease is over or its result is recorded; a late result of an earlier
claim is what breaks this.
-/

namespace LeadQueue

open Relational Transition

namespace Life

/-- No result of another claim takes the row from a claim whose lease is still
running: no success, and no failure of the same worker id. -/
def SparesLiveLease (l : Life) : Event → Prop
  | .record n result _ _ => ∀ c ∈ l.claims n, ∀ c' ∈ l.current?, c'.attemptNumber ≠ n →
      l.clock < c'.leaseExpiresAt → result.succeeded = false ∧ c'.workerId ≠ c.workerId
  | _ => True

instance (l : Life) (d : Event) : Decidable (l.SparesLiveLease d) :=
  match d with
  | .record _ _ _ _ => by unfold SparesLiveLease; infer_instance
  | .advance _ | .claim _ _ | .requeue _ => .isTrue trivial

/-- A claim with a running lease and no recorded result is the one in force. -/
def LiveInForce (l : Life) : Prop :=
  ∀ n c, l.claims n = some c → l.results n = none → l.clock < c.leaseExpiresAt →
    l.current? = some c

/-- No claim is live where the row may be claimed or requeued. -/
theorem LiveInForce.none_live {settings : Settings} {l : Life} (h : l.LiveInForce)
    (hinv : l.Inv settings) {now : Instant} (hnow : now ≤ l.clock)
    (hfree : l.row.status = .inFlight → ∀ lease, l.row.leaseExpiresAt = some lease → lease ≤ now)
    {n : ℕ} {c : Claim} (hc : l.claims n = some c) (hres : l.results n = none) :
    c.leaseExpiresAt ≤ l.clock := by
  by_contra hlive
  obtain ⟨hflight, hholds, _⟩ := hinv.current (h n c hc hres (not_le.mp hlive))
  exact hlive ((hfree hflight _ hholds.lease).trans hnow)

theorem not_live_of_due {now : Instant} {d : Delivery} (h : d.WellShaped)
    (hdue : d.due now = true) :
    d.status = .inFlight → ∀ lease, d.leaseExpiresAt = some lease → lease ≤ now := by
  intro hst lease hlease
  rcases (due_iff_of_wellShaped h).mp hdue with ⟨hpending, _⟩ | ⟨_, lease', hlease', hle⟩
  · rw [hst] at hpending
    cases hpending
  · obtain rfl : lease = lease' := Option.some.inj (hlease.symm.trans hlease')
    exact hle

theorem not_live_of_requeue {now : Instant} {includeDelivered : Bool} {d : Delivery}
    (h : classify now includeDelivered d = .requeue) :
    d.status = .inFlight → ∀ lease, d.leaseExpiresAt = some lease → lease ≤ now := by
  intro hst lease hlease
  by_contra hlt
  exact (classify_eq_requeue_iff.mp h).1 ⟨hst, lease, hlease, not_le.mp hlt⟩

theorem LiveInForce.claimed {settings : Settings} {l : Life} {workerId : WorkerId}
    {now : Instant} {request : Request} {lost : Option Attempt} (h : l.LiveInForce)
    (hinv : l.Inv settings) (hnow : now ≤ l.clock) (hdue : l.row.due now = true) :
    LiveInForce (l.claimed settings workerId now request lost) := by
  intro n c hc hres hlive
  rcases eq_some_of_addNew hc with hold | ⟨_, rfl, hnew⟩
  · have hover := h.none_live hinv hnow (not_live_of_due hinv.shape hdue) hold hres
    exact absurd hlive (not_lt.mpr hover)
  · -- the claim just made
    exact hc

theorem LiveInForce.succeeded {l : Life} {n : ℕ} {c : Claim} {result : AttemptResult}
    {draw : Draw} {now : Instant} {row : Delivery} {entry : Attempt} {settings : Settings}
    (h : l.LiveInForce) (hinv : l.Inv settings)
    (hok : l.SparesLiveLease (.record n result draw now)) (hc : l.claims n = some c)
    (hs : result.succeeded = true) : LiveInForce (l.recorded n result row entry) := by
  intro k c' hc' hres hlive
  exfalso
  have hkn : k ≠ n := by
    rintro rfl
    simp [Life.recorded, addNew] at hres
  have hcur := h k c' hc' ((addNew_of_ne _ _ hkn).symm.trans hres) hlive
  have hnumber := (hinv.fits k c' hc').number
  have hfail := (hok c hc c' hcur (hnumber ▸ hkn) hlive).1
  rw [hs] at hfail
  cases hfail

theorem LiveInForce.failed {settings : Settings} {l : Life} {n : ℕ} {c : Claim}
    {result : AttemptResult} {draw : Draw} {now : Instant} {lastError : Option PgText}
    {delay : Duration} {entry : Attempt} (h : l.LiveInForce) (hinv : l.Inv settings)
    (hok : l.SparesLiveLease (.record n result draw now)) (hc : l.claims n = some c) :
    LiveInForce
      (l.recorded n result (failureRow settings c result lastError delay now l.row) entry) := by
  intro k c' hc' hres hlive
  have hkn : k ≠ n := by
    rintro rfl
    simp [Life.recorded, addNew] at hres
  have hcur := h k c' hc' ((addNew_of_ne _ _ hkn).symm.trans hres) hlive
  have hnumber := (hinv.fits k c' hc').number
  have hworker := (hok c hc c' hcur (hnumber ▸ hkn) hlive).2
  rw [hinv.failureRow_eq_self hcur hworker]
  exact hcur

theorem LiveInForce.of_starts {l : Life} (h : l.Starts) : l.LiveInForce := by
  obtain ⟨_, _, _, _, _, _, hclaims, _⟩ := h
  exact fun n c hc => absurd ((hclaims n).symm.trans hc) (by simp)

theorem LiveInForce.step {settings : Settings} {l l' : Life} {d : Event} (h : l.LiveInForce)
    (hinv : l.Inv settings) (hok : l.SparesLiveLease d) (hstep : Step settings l d l') :
    l'.LiveInForce := by
  cases hstep with
  | advance ht => exact fun n c hc hres hlive => h n c hc hres (lt_of_le_of_lt ht hlive)
  | claim hnow hdue _ => exact h.claimed hinv hnow hdue
  | success _ _ hc hs _ => exact h.succeeded hinv hok hc hs
  | failure _ _ hc _ _ _ _ => exact h.failed hinv hok hc
  | requeue hnow hclass =>
      intro n c hc hres hlive
      exact absurd hlive (not_lt.mpr (h.none_live hinv hnow (not_live_of_requeue hclass) hc hres))

end Life

theorem liveInForce_of_reachable {settings : Settings} {l : Life}
    (h : (life settings).ReachableBy Life.SparesLiveLease l) : l.LiveInForce := by
  induction h with
  | init h0 => exact .of_starts h0
  | step hs hok hst ih => exact ih.step (life_inv hs) hok hst

/-- A requeued delivery is one whose row was free of running leases. -/
theorem row_of_requeued {settings : Settings} {s t : Service} {e : Event} {id : DeliveryId}
    (hstep : Service.step settings s e = some t) (hid : id ∈ s.requeuedIds e) :
    ∃ now x includeDelivered, now ≤ s.clock ∧ s.life id = some x ∧
      classify now includeDelivered x.row = .requeue := by
  have hrequeue : ∃ call : RequeueScan, call.now ≤ s.clock ∧ ∃ where_ includeDelivered limit,
      s.requeuedIds e = (requeue call where_ includeDelivered limit s.db).2.requeuedIds := by
    cases e with
    | requeueRequest call requestId recipients includeDelivered =>
        obtain ⟨hnow, where_, optIn, limit, hids, _⟩ := Service.step_requeue
          (Or.inl ⟨requestId, recipients, includeDelivered, rfl⟩) hstep
        exact ⟨call, hnow, where_, optIn, limit, hids⟩
    | requeueBulk call filter limit =>
        obtain ⟨hnow, where_, optIn, cap, hids, _⟩ :=
          Service.step_requeue (Or.inr ⟨filter, limit, rfl⟩) hstep
        exact ⟨call, hnow, where_, optIn, cap, hids⟩
    | _ => cases hid
  obtain ⟨call, hnow, where_, optIn, limit, hids⟩ := hrequeue
  rw [hids] at hid
  obtain ⟨d, hget, _, _, hclass⟩ := mem_requeuedIds hid
  exact ⟨call.now, _, optIn, hnow, Service.life_eq_some_iff.mpr ⟨d, hget, rfl⟩, hclass⟩

/-- In a run in which no late result takes a row from a running lease, a
delivery is requeued only when every unrecorded claim of it is past its lease. -/
theorem requeued_no_live_claim {settings : Settings} {s t : Service} {e : Event}
    {id : DeliveryId} {c : Claim}
    (h : (service settings).ReachableBy (Service.Everywhere Life.SparesLiveLease) s)
    (hstep : Service.step settings s e = some t) (hid : id ∈ s.requeuedIds e)
    (hc : c ∈ s.claims) (hcid : c.delivery.deliveryId = id)
    (hres : s.result? id c.attemptNumber = none) :
    c.claimedAt + settings.lease ≤ s.clock := by
  obtain ⟨now, x, includeDelivered, hnow, hx, hclass⟩ := row_of_requeued hstep hid
  obtain ⟨hclock, _, _, hclaims, hresults, _⟩ := Service.parts_of_life hx
  have hc' : x.claims c.attemptNumber = some c :=
    hclaims ▸ hcid ▸ claim?_of_mem h.reachable hc
  have hinv := inv_of_reachable h hx
  rw [← (hinv.fits _ c hc').lease, ← hclock]
  exact (liveInForce_of_reachable (life_reachable h hx)).none_live hinv (hclock ▸ hnow)
    (Life.not_live_of_requeue hclass) hc' (hresults ▸ hres)

namespace ManualRetry

/-- Worker B holds the lease that A lost. -/
def takenOver : List (Service → Event) :=
  [Move.accept 0 Move.lead, Move.claim .default Move.workerA 1, Move.advance 100000000,
    Move.claim .default Move.workerB 1]

end ManualRetry

/-- B has recorded its failure: a retry meets A's claim only after its lease. -/
theorem requeued_no_live_claim_afterFailure :
    ∃ s t c, (service .default).ReachableBy (Service.Everywhere Life.SparesLiveLease) s ∧
      Service.step .default s (Move.requeue 0 false s) = some t ∧
      s.claim? Move.first 1 = some c ∧ s.result? Move.first 1 = none ∧
      c.claimedAt + Settings.default.lease ≤ s.clock := by
  obtain ⟨s, hs, hp⟩ := exists_reachableBy_of_moves .default
    (Service.Everywhere Life.SparesLiveLease)
    (ManualRetry.takenOver ++ [Move.record Move.first 2 Move.timedOut])
    (fun s => (Service.step .default s (Move.requeue 0 false s)).isSome &&
      decide (Move.first ∈ s.requeuedIds (Move.requeue 0 false s)) &&
      (s.claim? Move.first 1).isSome && decide (s.result? Move.first 1 = none))
    (by decide +kernel)
  simp only [Bool.and_eq_true, decide_eq_true_eq] at hp
  obtain ⟨⟨⟨hstep, hid⟩, hclaim⟩, hres⟩ := hp
  obtain ⟨t, ht⟩ := Option.isSome_iff_exists.mp hstep
  obtain ⟨c, hc⟩ := Option.isSome_iff_exists.mp hclaim
  obtain ⟨hmem, hcid, hcn⟩ := Service.claim?_eq_some hc
  exact ⟨s, t, c, hs, ht, hc, hres,
    requeued_no_live_claim hs ht hid hmem hcid (hcn.symm ▸ hres)⟩

/-- A's late success erases B's lease, and the next retry queues the delivery
while B is sending it. -/
theorem requeued_with_live_claim :
    ¬ ∀ settings : Settings, settings.Validated → ∀ s t e id c, (service settings).Reachable s →
      Service.step settings s e = some t → id ∈ s.requeuedIds e → c ∈ s.claims →
      c.delivery.deliveryId = id → s.result? id c.attemptNumber = none →
      c.claimedAt + settings.lease ≤ s.clock := by
  intro h
  obtain ⟨s, hs, hp⟩ := exists_reachable_of_moves .default
    (ManualRetry.takenOver ++ [Move.record Move.first 1 Move.confirmed])
    (fun s => (Service.step .default s (Move.requeue 0 true s)).isSome &&
      decide (Move.first ∈ s.requeuedIds (Move.requeue 0 true s)) &&
      (s.claim? Move.first 2).any
        (fun c : Claim => decide (s.clock < c.claimedAt + Settings.default.lease)) &&
      decide (s.result? Move.first 2 = none))
    (by decide +kernel)
  simp only [Bool.and_eq_true, decide_eq_true_eq, Option.any_eq_true] at hp
  obtain ⟨⟨⟨hstep, hid⟩, c, hc, hlive⟩, hres⟩ := hp
  obtain ⟨t, ht⟩ := Option.isSome_iff_exists.mp hstep
  obtain ⟨hmem, hcid, hcn⟩ := Service.claim?_eq_some hc
  exact absurd (h .default Settings.default_validated s t _ _ c hs ht hid hmem hcid
    (hcn.symm ▸ hres)) (not_le.mpr hlive)

end LeadQueue
