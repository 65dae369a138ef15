import LeadQueue.Guarantees.OneCopy
import LeadQueue.Guarantees.Receipts

/-!
# Accepted once

The stub may confirm a lead twice: if it does so when the worker no longer waits or
the lease is over, if the worker does not get the answer, if the success is not
recorded before the lease ends (the worker died, say), if a failure of another
attempt is recorded late, or if somebody asks for a delivered lead again. These are
all the ways. In a run without them the stub confirms no delivery twice, whatever
else goes wrong.
-/

namespace LeadQueue

open Relational Transition Stub

/-! ## One delivery in a run of the service -/

/-- A condition on what an event does to one delivery. -/
def Service.On (id : DeliveryId) (ok : Life → Life.Event → Prop) (s : Service) (e : Event) : Prop :=
  ∀ x ∈ s.life id, ∀ d ∈ s.acts id e, ok x d

/-- A delivery is new, or left alone, or led on by a step that meets the condition. -/
theorem Service.life_step_on {settings : Settings} {ok : Life → Life.Event → Prop}
    {id : DeliveryId} {s t : Service} {e : Event} {y : Life}
    (hs : (service settings).ReachableBy (Service.On id ok) s) (hok : Service.On id ok s e)
    (hstep : Service.step settings s e = some t) (hy : t.life id = some y) :
    s.life id = some y ∨ (s.life id = none ∧ y.Starts) ∨
      ∃ x d, s.life id = some x ∧ ok x d ∧ Life.Step settings x d y := by
  rcases Service.life_step (Service.tidy_of_reachable hs) hstep hy with
    ⟨hnone, hstarts⟩ | ⟨x, hx, ⟨_, rfl⟩ | ⟨d, hd, hlife⟩⟩
  · exact Or.inr (Or.inl ⟨hnone, hstarts⟩)
  · exact Or.inl hx
  · exact Or.inr (Or.inr ⟨x, d, hx, hok x hx d hd, hlife⟩)

theorem Service.life_of_init {settings : Settings} {id : DeliveryId} {s : Service} {x : Life}
    (hs : (service settings).init s) (hx : s.life id = some x) : x.Starts := by
  obtain ⟨clock, rfl⟩ := hs
  cases hx

/-- Follow one delivery through a run whose steps meet a condition on it. -/
def onProjection (settings : Settings) (ok : Life → Life.Event → Prop) (id : DeliveryId) :
    Machine.Projection (service settings) (life settings) (Service.On id ok) ok where
  view s := s.life id
  init _ _ := Service.life_of_init
  step _ _ _ _ := Service.life_step_on

namespace Life

/-- No result comes late, and nobody asks for a delivered row again. -/
def Orderly (l : Life) (d : Event) : Prop := l.TimelyRecord d ∧ l.KeepsDelivered d

/-- A recorded success has delivered the row. -/
def Settled (l : Life) : Prop :=
  ∀ k result, l.results k = some result → result.succeeded = true → l.row.status = .delivered

theorem Settled.of_starts {l : Life} (h : l.Starts) : l.Settled := by
  obtain ⟨_, _, _, _, _, _, _, hresults, _⟩ := h
  intro k result hk
  rw [hresults] at hk
  cases hk

theorem Settled.step {settings : Settings} {l l' : Life} {d : Event} (h : l.Settled)
    (hok : l.KeepsDelivered d) (hstep : Step settings l d l') : l'.Settled := by
  intro k result hk hs
  by_cases hold : l.results k = some result
  · exact hstep.delivered hok (h k result hold hs)
  · cases hstep with
    | success _ _ _ _ _ => exact successRow_status _ _ _
    | failure _ _ _ hfail _ _ _ =>
        rcases eq_some_of_addNew hk with hbefore | ⟨_, _, hnew⟩
        · exact absurd hbefore hold
        · obtain rfl := Option.some.inj hnew
          rw [hfail] at hs
          cases hs
    | _ => exact absurd hk hold

end Life

theorem settled_of_orderly {settings : Settings} {l : Life}
    (h : (life settings).ReachableBy Life.Orderly l) : l.Settled := by
  induction h with
  | init h0 => exact .of_starts h0
  | step _ hok hst ih => exact ih.step hok.2 hst

/-- An unrecorded claim with a running lease is the one in force. -/
theorem current_of_live {settings : Settings} {s : Service} {id : DeliveryId}
    (h : (service settings).ReachableBy (Service.On id Life.Orderly) s) {k : ℕ} {c : Claim}
    (hc : s.claim? id k = some c) (hnone : s.result? id k = none)
    (hlive : s.clock < c.leaseExpiresAt) :
    ∃ x, s.life id = some x ∧ (life settings).ReachableBy Life.Orderly x ∧
      x.current? = some c := by
  cases hlife : s.life id with
  | none =>
      have hfree := (Service.tidy_of_reachable h id (Service.life_eq_none_iff.mp hlife) k).1
      rw [hc] at hfree
      cases hfree
  | some x =>
      obtain ⟨hclock, _, _, hclaims, hresults, _⟩ := Service.parts_of_life hlife
      have hx := (onProjection settings Life.Orderly id).reachable h x hlife
      refine ⟨x, rfl, hx, ?_⟩
      exact liveInForce_of_timely (hx.mono fun _ _ hok => hok.1) k c (hclaims ▸ hc)
        (hresults ▸ hnone) (hclock ▸ hlive)

/-! ## Acceptance -/

def TaskStage.isSending : TaskStage → Bool
  | .sending => true
  | .recording _ => false

/-- The status code of an answer. -/
def Exchange.statusCode? : Exchange → Option ℕ
  | .answered response => some response.statusCode
  | _ => none

/-- The worker takes what it got for a success. -/
def Exchange.Confirms (exchange : Exchange) : Prop :=
  ∃ code ∈ exchange.statusCode?, 200 ≤ code ∧ code < 300

instance (exchange : Exchange) : Decidable exchange.Confirms :=
  inferInstanceAs (Decidable (∃ code ∈ exchange.statusCode?, 200 ≤ code ∧ code < 300))

def Posted.Confirmed (q : Posted) : Prop := ∃ r ∈ q.answer?, r.Confirms

instance (q : Posted) : Decidable q.Confirmed :=
  inferInstanceAs (Decidable (∃ r ∈ q.answer?, r.Confirms))

namespace Network

/-- The stub confirmed the attempt. -/
def Accepted (n : Network) (key : DeliveryId × ℕ) : Prop := ∃ q ∈ n.posted key, q.Confirmed

instance (n : Network) (key : DeliveryId × ℕ) : Decidable (n.Accepted key) :=
  inferInstanceAs (Decidable (∃ q ∈ n.posted key, q.Confirmed))

/-- The worker waits for the answer, and its lease runs. -/
def Awaited (n : Network) (key : DeliveryId × ℕ) : Prop :=
  ∃ c ∈ n.fleet.service.claim? key.1 key.2, n.fleet.service.clock < c.leaseExpiresAt ∧
    ∃ p ∈ n.fleet.workers c.workerId, ∃ t ∈ p.task? key, t.stage.isSending = true

instance (n : Network) (key : DeliveryId × ℕ) : Decidable (n.Awaited key) :=
  inferInstanceAs (Decidable (∃ c ∈ n.fleet.service.claim? key.1 key.2,
    n.fleet.service.clock < c.leaseExpiresAt ∧
      ∃ p ∈ n.fleet.workers c.workerId, ∃ t ∈ p.task? key, t.stage.isSending = true))

/-- None of the five things happens to the deliveries in `I`. -/
def Clean (settings : Settings) (sends : HttpRequest → Bool) (route : PgText → Option PyStr)
    (I : DeliveryId → Prop) (n : Network) : NetworkEvent → Prop
  | .read key complete => I key.1 → ∀ n' ∈ n.step settings sends route (.read key complete),
      n'.Accepted key → n.Awaited key
  | .wake key => I key.1 → ∀ n' ∈ n.step settings sends route (.wake key), n'.Accepted key →
      n.Awaited key
  | .fleet (.own _ (.sent key _ _ exchange)) => I key.1 → n.Accepted key → exchange.Confirms
  | .fleet (.recorded _ key _ _) => I key.1 → ∀ c ∈ n.fleet.service.claim? key.1 key.2,
      n.fleet.service.clock < c.leaseExpiresAt
  | .fleet (.queue (.advance t)) => ∀ c ∈ n.fleet.service.claims, I c.key.1 → n.Accepted c.key →
      n.fleet.service.result? c.key.1 c.key.2 = none → t < c.leaseExpiresAt
  | .fleet (.queue e) => ∀ row ∈ n.fleet.service.db.deliveries.rows, I row.id →
      row.status = .delivered → row.id ∉ n.fleet.service.requeuedIds e
  | _ => True

instance (settings : Settings) (sends : HttpRequest → Bool) (route : PgText → Option PyStr)
    (I : DeliveryId → Prop) [DecidablePred I] (n : Network) (e : NetworkEvent) :
    Decidable (n.Clean settings sends route I e) := by
  unfold Clean
  split <;> infer_instance

variable {settings : Settings} {sends : HttpRequest → Bool} {route : PgText → Option PyStr}
  {n n' : Network}
  {I : DeliveryId → Prop}

/-- A confirmed attempt was confirmed before the step, or is answered by it. -/
theorem accepted_cases {e : NetworkEvent} (hstep : n.step settings sends route e = some n')
    {key : DeliveryId × ℕ} (h : n'.Accepted key) : n.Accepted key ∨ e.Answers key := by
  obtain ⟨q', hq', r, hr, hconfirms⟩ := h
  have hr : q'.stage = .answered r := Posted.answer?_eq_some.mp hr
  rcases posted_cases hstep hq' with ⟨q, hq, _, hstage⟩ | ⟨_, _, _, _, _, _, _, rfl⟩
  · rcases hstage r hr with hold | hnew
    · exact Or.inl ⟨q, hq, r, Posted.answer?_eq_some.mpr hold, hconfirms⟩
    · exact Or.inr hnew
  · cases hr

/-- An answer is awaited when it is a confirmation. -/
theorem awaited_of_answers {e : NetworkEvent} (hok : n.Clean settings sends route I e)
    (hstep : n.step settings sends route e = some n') {key : DeliveryId × ℕ} (hI : I key.1)
    (hanswers : e.Answers key) (h : n'.Accepted key) : n.Awaited key := by
  rcases hanswers with rfl | ⟨complete, rfl⟩
  · exact hok hI n' hstep h
  · exact hok hI n' hstep h

theorem answers_unique {e : NetworkEvent} {j k : DeliveryId × ℕ} (hj : e.Answers j)
    (hk : e.Answers k) : j = k := by
  rcases hj with rfl | ⟨_, rfl⟩ <;> rcases hk with hk | ⟨_, hk⟩ <;> cases hk <;> rfl

/-- While the answer is awaited, nothing is known of the attempt. -/
theorem Awaited.not_has {key : DeliveryId × ℕ} (h : n.Awaited key) (hinv : n.fleet.Inv settings) :
    n.fleet.service.result? key.1 key.2 = none ∧ ∀ result, ¬ n.fleet.Has key result := by
  obtain ⟨c, hc, _, p, hp, t, ht, hsending⟩ := h
  obtain ⟨hheld, rfl⟩ := Process.task?_eq_some ht
  have howes := (hinv.owes c.workerId t.claim ⟨p, hp, hheld⟩).1
  have hnone : n.fleet.service.result? t.key.1 t.key.2 = none := howes.2
  refine ⟨hnone, fun result hhas => ?_⟩
  rcases hhas with hresult | ⟨w, p', t', hp', ht', hkey, hstage⟩
  · rw [hnone] at hresult
    cases hresult
  · -- a claim is held by one process, and there by one task
    have howes' := (hinv.owes w t'.claim ⟨p', hp', List.mem_map_of_mem ht'⟩).1
    obtain ⟨rfl, _⟩ := howes'.unique howes hkey
    obtain rfl : p = p' := Option.some.inj (hp.symm.trans hp')
    have hfound := Process.task?_of_mem (hinv.nodup _ p hp) ht'
    rw [hkey] at hfound
    obtain rfl : t = t' := Option.some.inj (ht.symm.trans hfound)
    rw [hstage] at hsending
    cases hsending

/-- What holds of the confirmed attempts of the deliveries in `I`. -/
structure Once (I : DeliveryId → Prop) (n : Network) : Prop where
  unique : ∀ id, I id → ∀ j k, n.Accepted (id, j) → n.Accepted (id, k) → j = k
  succeeds : ∀ key, I key.1 → n.Accepted key → ∀ result, n.fleet.Has key result →
    result.succeeded = true
  lives : ∀ key, I key.1 → n.Accepted key → n.fleet.service.result? key.1 key.2 = none →
    ∀ c ∈ n.fleet.service.claim? key.1 key.2, n.fleet.service.clock < c.leaseExpiresAt

theorem once_empty (clock : Instant) : (empty clock).Once I where
  unique := by
    rintro _ _ _ _ ⟨_, h, _⟩
    cases h
  succeeds := by
    rintro _ _ ⟨_, h, _⟩
    cases h
  lives := by
    rintro _ _ ⟨_, h, _⟩
    cases h

/-! ## The queue in a clean run -/

/-- A record of a delivery is its own event. -/
theorem record_of_acts {s : Service} {id : DeliveryId} {e : Event} {k : ℕ}
    {result : AttemptResult} {draw : Draw} {now : Instant}
    (h : s.acts id e = some (.record k result draw now)) : e = .record id k result draw now := by
  cases e with
  | record id' k' result' draw' now' =>
      simp only [Service.acts] at h
      split at h
      · rename_i hid
        cases h
        rw [hid]
      · cases h
  | advance t => cases h
  | accept gen req => cases h
  | attach gen requestId recipients => cases h
  | claim call =>
      simp only [Service.acts] at h
      split at h <;> cases h
  | requeueRequest call requestId recipients includeDelivered =>
      simp only [Service.acts] at h
      split at h <;> cases h
  | requeueBulk call filter limit =>
      simp only [Service.acts] at h
      split at h <;> cases h

/-- A requeue of a delivery is an event of the queue alone. -/
theorem requeued_of_acts {s : Service} {id : DeliveryId} {e : Event} {now : Instant}
    (h : s.acts id e = some (.requeue now)) : id ∈ s.requeuedIds e := by
  cases e with
  | requeueRequest call requestId recipients includeDelivered =>
      simp only [Service.acts] at h
      split at h
      · assumption
      · cases h
  | requeueBulk call filter limit =>
      simp only [Service.acts] at h
      split at h
      · assumption
      · cases h
  | record id' k result draw now' =>
      simp only [Service.acts] at h
      split at h <;> cases h
  | advance t => cases h
  | accept gen req => cases h
  | attach gen requestId recipients => cases h
  | claim call =>
      simp only [Service.acts] at h
      split at h <;> cases h

theorem keepsDelivered_of_clean {d : FleetEvent} {e : Event} {id : DeliveryId} (hid : I id)
    (hok : n.Clean settings sends route I (.fleet d)) (he : n.fleet.transaction d = some e) :
    Service.On id Life.KeepsDelivered n.fleet.service e := by
  intro x hx ev hev
  cases ev with
  | requeue now =>
      have hrequeued := requeued_of_acts hev
      obtain ⟨_, hrow, hrowId, _⟩ := Service.parts_of_life hx
      intro hdelivered
      cases d with
      | queue e' =>
          obtain rfl : e' = e := Option.some.inj he
          cases e' with
          | advance t => cases hrequeued
          | _ =>
              exact hok x.row (Table.mem_of_get? hrow) (hrowId ▸ hid) hdelivered
                (hrowId.symm ▸ hrequeued)
      | start w => cases he
      | own w d => cases he
      | claimed w call =>
          cases he
          cases hrequeued
      | claimLost w call =>
          cases he
          cases hrequeued
      | recorded w key draw now' =>
          simp only [Fleet.transaction] at he
          split at he
          · cases he
            cases hrequeued
          · cases he
  | _ => trivial

theorem orderly_of_clean {d : FleetEvent} {f' : Fleet} {e : Event} {id : DeliveryId} (hid : I id)
    (hok : n.Clean settings sends route I (.fleet d)) (hstep : n.fleet.step settings d = some f')
    (he : n.fleet.transaction d = some e) :
    Service.On id Life.Orderly n.fleet.service e := by
  intro x hx ev hev
  refine ⟨?_, keepsDelivered_of_clean hid hok he x hx ev hev⟩
  cases ev with
  | record k result draw now =>
      obtain rfl := record_of_acts hev
      obtain ⟨hclock, _, _, hclaims, _⟩ := Service.parts_of_life hx
      intro c hc
      rw [hclaims] at hc
      rw [hclock]
      cases d with
      | queue e' =>
          obtain ⟨hout, _⟩ := Fleet.step_queue.mp hstep
          cases he
          cases hout
      | recorded w key draw' now' =>
          obtain ⟨p, claim, result', s, hp, htask, _, _⟩ := Fleet.step_recorded.mp hstep
          obtain ⟨_, rfl⟩ := Process.task?_eq_some htask
          simp only [Fleet.transaction, hp, Option.bind_some, htask] at he
          cases he
          exact hok hid c hc
      | claimed w call => cases he
      | claimLost w call => cases he
      | start w => cases he
      | own w d => cases he
  | advance t => trivial
  | claim workerId now => trivial
  | requeue now => trivial

theorem orderly_of_clean_run
    (h : (network settings sends route).ReachableBy (Clean settings sends route I) n)
    {id : DeliveryId} (hid : I id) :
    (service settings).ReachableBy (Service.On id Life.Orderly) n.fleet.service := by
  induction h with
  | init h0 =>
      obtain ⟨clock, rfl⟩ := h0
      exact .init ⟨clock, rfl⟩
  | @step n n' e hn hok hst ih =>
      rcases step_fleet_cases hst with hsame | ⟨d, rfl, _, hfleet, _⟩
      · rw [hsame]
        exact ih
      · rcases (network_inv hn).fleet.service_step hfleet with ⟨_, hsame⟩ | ⟨e, he, hs⟩
        · rw [hsame]
          exact ih
        · exact .step ih (orderly_of_clean hid hok hfleet he) hs

/-! ## One confirmation -/

/-- No other attempt was confirmed before one whose answer is awaited. -/
theorem Once.eq_of_awaited (h : n.Once I) (hinv : n.Inv settings route) {id : DeliveryId}
    (hid : I id)
    (hs : (service settings).ReachableBy (Service.On id Life.Orderly) n.fleet.service) {j k : ℕ}
    (hj : n.Accepted (id, j)) (hk : n.Awaited (id, k)) : j = k := by
  have hnone : n.fleet.service.result? id k = none := (hk.not_has hinv.fleet).1
  obtain ⟨c, hc, hlive, _⟩ := hk
  obtain ⟨x, hx, hlife, hcur⟩ := current_of_live hs hc hnone hlive
  cases hres : n.fleet.service.result? id j with
  | some result =>
      -- a recorded success has delivered the row, and then no attempt is in force
      have hsucceeded := h.succeeds (id, j) hid hj result (Or.inl hres)
      obtain ⟨_, _, _, _, hresults, _⟩ := Service.parts_of_life hx
      have hdelivered := settled_of_orderly hlife j result (hresults ▸ hres) hsucceeded
      obtain ⟨hflight, _⟩ := (life_inv hlife.reachable).current hcur
      rw [hflight] at hdelivered
      cases hdelivered
  | none =>
      -- both are in force
      have hlive' := h.lives (id, j) hid hj hres
      obtain ⟨q, hq, _⟩ := hj
      obtain ⟨c', hc', _⟩ := hinv.posted _ q hq
      replace hlive' := hlive' c' hc'
      obtain ⟨x', hx', _, hcur'⟩ := current_of_live hs hc' hres hlive'
      obtain rfl : x = x' := Option.some.inj (hx.symm.trans hx')
      obtain rfl : c = c' := Option.some.inj (hcur.symm.trans hcur')
      exact (Service.claim?_eq_some hc').2.2.symm.trans (Service.claim?_eq_some hc).2.2

/-- Only time moves the clock. -/
theorem clock_cases (hinv : n.fleet.Inv settings) {d : FleetEvent} {f' : Fleet}
    (hstep : n.fleet.step settings d = some f') :
    f'.service.clock = n.fleet.service.clock ∨
      d = .queue (.advance f'.service.clock) := by
  rcases hinv.service_step hstep with ⟨_, hsame⟩ | ⟨e, he, hs⟩
  · exact Or.inl (congrArg Service.clock hsame)
  · have hclock := (Service.step_memory hs).1
    cases e with
    | advance t =>
        refine Or.inr ?_
        rw [hclock]
        cases d with
        | queue e' =>
            cases he
            rfl
        | recorded w key draw now =>
            simp only [Fleet.transaction] at he
            split at he <;> cases he
        | _ => cases he
    | _ => exact Or.inl hclock

theorem Once.lives_fleet (h : n.Once I) (hinv : n.Inv settings route) {d : FleetEvent}
    (hok : n.Clean settings sends route I (.fleet d))
    (hstep : n.step settings sends route (.fleet d) = some n') {key : DeliveryId × ℕ} (hI : I key.1)
    (hacc : n.Accepted key) (hnone : n'.fleet.service.result? key.1 key.2 = none) {c : Claim}
    (hc : n'.fleet.service.claim? key.1 key.2 = some c) :
    n'.fleet.service.clock < c.leaseExpiresAt := by
  obtain ⟨_, f', hfleet, rfl⟩ := step_fleet.mp hstep
  obtain ⟨q, hq, hconfirmed⟩ := hacc
  obtain ⟨c', hc', _⟩ := hinv.posted key q hq
  obtain rfl : c' = c := Option.some.inj ((hinv.claim?_mono hstep hc').symm.trans hc)
  have hacc : n.Accepted key := ⟨q, hq, hconfirmed⟩
  -- not recorded after the step, so not before it
  have hbefore : n.fleet.service.result? key.1 key.2 = none := by
    rcases hinv.fleet.service_step hfleet with ⟨_, hsame⟩ | ⟨e, _, hs⟩
    · exact (congrArg (fun s => Service.result? s key.1 key.2) hsame).symm.trans hnone
    · by_contra hsome
      have hmono := Service.step_result?_mono hs (Option.isSome_iff_ne_none.mpr hsome)
      rw [show f'.service.result? key.1 key.2 = none from hnone] at hmono
      cases hmono
  have hlive := h.lives key hI hacc hbefore c' hc'
  rcases clock_cases hinv.fleet hfleet with hsame | rfl
  · exact lt_of_eq_of_lt hsame hlive
  · obtain ⟨hmem, hid, hnumber⟩ := Service.claim?_eq_some hc'
    have hkey : c'.key = key := Prod.ext hid hnumber
    exact hok c' hmem (hkey ▸ hI) (hkey ▸ hacc) (hkey ▸ hbefore)

theorem Once.step (h : n.Once I) (hinv : n.Inv settings route)
    (hs : ∀ id, I id →
      (service settings).ReachableBy (Service.On id Life.Orderly) n.fleet.service)
    {e : NetworkEvent} (hok : n.Clean settings sends route I e)
    (hstep : n.step settings sends route e = some n') : n'.Once I where
  unique id hid j k hj hk := by
    rcases accepted_cases hstep hj with hj' | hje
    · rcases accepted_cases hstep hk with hk' | hke
      · exact h.unique id hid j k hj' hk'
      · exact h.eq_of_awaited hinv hid (hs id hid) hj' (awaited_of_answers hok hstep hid hke hk)
    · rcases accepted_cases hstep hk with hk' | hke
      · exact (h.eq_of_awaited hinv hid (hs id hid) hk'
          (awaited_of_answers hok hstep hid hje hj)).symm
      · exact congrArg Prod.snd (answers_unique hje hke)
  succeeds key hI hacc result hhas := by
    rcases accepted_cases hstep hacc with hold | hans
    · rcases step_fleet_cases hstep with hsame | ⟨d, rfl, _, hfleet, _⟩
      · exact h.succeeds key hI hold result (hsame ▸ hhas)
      · rcases hinv.fleet.has_step hfleet hhas with
          hbefore | ⟨w, startedAt, finishedAt, exchange, rfl, rfl⟩
        · exact h.succeeds key hI hold result hbefore
        · have hconfirms : exchange.Confirms := hok hI hold
          obtain ⟨code, hcode, hlow, hhigh⟩ := hconfirms
          cases exchange with
          | answered response =>
              obtain rfl : response.statusCode = code := Option.some.inj hcode
              exact send_succeeded_iff.mpr ⟨response, rfl, hlow, hhigh⟩
          | _ => cases hcode
    · have hawaited := awaited_of_answers hok hstep hI hans hacc
      have hsame : n'.fleet = n.fleet := by
        rcases step_fleet_cases hstep with hsame | ⟨d, rfl, _⟩
        · exact hsame
        · rcases hans with hans | ⟨_, hans⟩ <;> cases hans
      exact absurd (hsame ▸ hhas) ((hawaited.not_has hinv.fleet).2 result)
  lives key hI hacc hnone c hc := by
    rcases step_fleet_cases hstep with hsame | ⟨d, rfl, _⟩
    · rw [hsame] at hnone hc ⊢
      rcases accepted_cases hstep hacc with hold | hans
      · exact h.lives key hI hold hnone c hc
      · obtain ⟨c', hc', hlive, _⟩ := awaited_of_answers hok hstep hI hans hacc
        obtain rfl : c' = c := Option.some.inj (hc'.symm.trans hc)
        exact hlive
    · rcases accepted_cases hstep hacc with hold | hans
      · exact h.lives_fleet hinv hok hstep hI hold hnone hc
      · rcases hans with hans | ⟨_, hans⟩ <;> cases hans

end Network

theorem once_of_clean_run {settings : Settings} {sends : HttpRequest → Bool}
    {route : PgText → Option PyStr} {I : DeliveryId → Prop} {n : Network}
    (h : (network settings sends route).ReachableBy (Network.Clean settings sends route I) n) :
    n.Once I := by
  induction h with
  | init h0 =>
      obtain ⟨clock, rfl⟩ := h0
      exact Network.once_empty clock
  | step hn hok hst ih =>
      exact ih.step (network_inv hn) (fun _ => Network.orderly_of_clean_run hn) hok hst

/-- In a clean run the stub confirms at most one attempt of a delivery, and the
confirmed attempt has delivered the row, or holds it. -/
theorem clean_runs_accept_once {settings : Settings} {sends : HttpRequest → Bool}
    {route : PgText → Option PyStr} {I : DeliveryId → Prop} {n : Network}
    (h : (network settings sends route).ReachableBy (Network.Clean settings sends route I) n)
    {id : DeliveryId} (hid : I id) :
    (∀ j k, n.Accepted (id, j) → n.Accepted (id, k) → j = k) ∧
    ∀ k, n.Accepted (id, k) → ∃ row, n.fleet.service.db.deliveries.get? id = some row ∧
      (row.status = .delivered ∨ row.status = .inFlight ∧ row.totalAttempts = k) := by
  have honce := once_of_clean_run h
  refine ⟨honce.unique id hid, fun k hacc => ?_⟩
  have hs := Network.orderly_of_clean_run h hid
  obtain ⟨c, hc⟩ : ∃ c, n.fleet.service.claim? id k = some c := by
    obtain ⟨q, hq, _⟩ := hacc
    obtain ⟨c, hc, _⟩ := (network_inv h).posted _ q hq
    exact ⟨c, hc⟩
  cases hres : n.fleet.service.result? id k with
  | some result =>
      obtain ⟨x, hx, hresult⟩ := result?_life hs.reachable hres
      obtain ⟨_, hrow, _⟩ := Service.parts_of_life hx
      have hlife := (onProjection settings Life.Orderly id).reachable hs x hx
      have hsucceeded := honce.succeeds (id, k) hid hacc result (Or.inl hres)
      exact ⟨x.row, hrow, Or.inl (settled_of_orderly hlife k result hresult hsucceeded)⟩
  | none =>
      have hlive := honce.lives (id, k) hid hacc hres c hc
      obtain ⟨x, hx, hlife, hcur⟩ := current_of_live hs hc hres hlive
      obtain ⟨_, hrow, _⟩ := Service.parts_of_life hx
      obtain ⟨hflight, _, hnumber, _⟩ := (life_inv hlife.reachable).current hcur
      exact ⟨x.row, hrow, Or.inr ⟨hflight, hnumber.symm.trans (Service.claim?_eq_some hc).2.2⟩⟩

namespace AcceptedOnce

/-- The stub fails the first attempt and accepts the second. -/
def secondTime : List (Network → NetworkEvent) :=
  [fun _ => .setBehaviour (.ofString "crm") { mode := .error, failFirst := some 1 }] ++
    Network.Move.claimed ++ Network.Move.posted Move.workerA (Move.first, 1) ++
    Network.Move.finished Move.workerA (Move.first, 1) (.answered ⟨500, some [], 0⟩) ++
    [Fleet.Move.queue (Move.advance 10000000), Fleet.Move.own Move.workerA .tick,
      Fleet.Move.claimed .default Move.workerA].map Network.Move.fleet ++
    Network.Move.posted Move.workerA (Move.first, 2) ++
    Network.Move.finished Move.workerA (Move.first, 2) Fleet.Move.ok

end AcceptedOnce

/-- The second attempt is the one that was accepted. -/
theorem clean_runs_accept_once_secondTime :
    ∃ n, (network .default Network.Move.anyRequest Network.Move.crm).ReachableBy
        (Network.Clean .default Network.Move.anyRequest Network.Move.crm fun _ => True) n ∧
      n.Accepted (Move.first, 2) ∧ ∀ k, n.Accepted (Move.first, k) → k = 2 := by
  obtain ⟨n, hn, hp⟩ := exists_networkBy_of_moves .default Network.Move.anyRequest Network.Move.crm
    (Network.Clean .default Network.Move.anyRequest Network.Move.crm fun _ => True)
    AcceptedOnce.secondTime
    (fun n => decide (n.Accepted (Move.first, 2))) (by decide +kernel)
  have haccepted := of_decide_eq_true hp
  exact ⟨n, hn, haccepted,
    fun k hk => (@clean_runs_accept_once _ _ _ _ _ hn Move.first trivial).1 k 2 hk haccepted⟩

end LeadQueue
