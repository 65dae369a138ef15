import LeadQueue.Fleet
import LeadQueue.Life.Invariant

/-!
# Every claim has one owner

Workers pass to a record the claim and the result their task carries, and
nothing in the queue stops a claim from being recorded twice or by another
worker. That no run of any number of workers does so is proved here from the
workers' code, and with it that the queue under a fleet runs as the service
does. A claim is recorded, or held by a task of the process that made it, or was
given up by that process; and it is one of the three only.
-/

namespace LeadQueue

open Relational Transition

namespace Service

/-- A recorded result stays. -/
theorem step_result?_mono {settings : Settings} {s t : Service} {e : Event}
    (h : step settings s e = some t) {id : DeliveryId} {n : ℕ}
    (hsome : (s.result? id n).isSome) : (t.result? id n).isSome := by
  simp only [result?, Option.isSome_map] at hsome ⊢
  rw [(step_memory h).2, List.find?_append, Option.isSome_or, hsome, Bool.true_or]

/-- A result that is there after a step was there before it, or was recorded by
it. -/
theorem step_result?_cases {settings : Settings} {s t : Service} {e : Event}
    (h : step settings s e = some t) {id : DeliveryId} {n : ℕ} {result : AttemptResult}
    (hresult : t.result? id n = some result) :
    s.result? id n = some result ∨ ((id, n), result) ∈ recordedBy e := by
  obtain ⟨r, hr, rfl⟩ := Option.map_eq_some_iff.mp hresult
  rw [(step_memory h).2, List.find?_append] at hr
  rcases Option.or_eq_some_iff.mp hr with hold | ⟨_, hnew⟩
  · exact Or.inl (Option.map_eq_some_iff.mpr ⟨r, hold, rfl⟩)
  · have hkey : r.1 = (id, n) := by simpa using List.find?_some hnew
    exact Or.inr (hkey ▸ List.mem_of_find?_eq_some hnew)

/-- Only a claim has a result. -/
theorem result?_of_claim?_none {settings : Settings} {s : Service}
    (hs : (service settings).Reachable s) {id : DeliveryId} {n : ℕ}
    (hnone : s.claim? id n = none) : s.result? id n = none := by
  cases hrow : s.db.deliveries.get? id with
  | none => exact (tidy_of_reachable hs id hrow n).2.1
  | some row =>
      have hinv := inv_of_reachable hs (life_eq_some_iff.mpr ⟨row, hrow, rfl⟩)
      exact hinv.no_result hnone

/-- `w` made this claim and it is not recorded. -/
def Owes (s : Service) (w : WorkerId) (d : ClaimedDelivery) : Prop :=
  (∃ c, s.claim? d.deliveryId d.attemptNumber = some c ∧ c.workerId = w ∧ c.delivery = d) ∧
    s.result? d.deliveryId d.attemptNumber = none

theorem Owes.step {settings : Settings} {s t : Service} {e : Event} {w : WorkerId}
    {d : ClaimedDelivery} (h : s.Owes w d) (hstep : step settings s e = some t)
    (hother : ∀ r ∈ recordedBy e, r.1 ≠ d.key) : t.Owes w d := by
  obtain ⟨⟨c, hc, hw, hd⟩, hnone⟩ := h
  exact ⟨⟨c, step_claim?_mono hstep hc, hw, hd⟩, step_result?_none hstep hnone hother⟩

/-- One claim is owed by one worker. -/
theorem Owes.unique {s : Service} {w w' : WorkerId} {d d' : ClaimedDelivery} (h : s.Owes w d)
    (h' : s.Owes w' d') (hkey : d.key = d'.key) : w = w' ∧ d = d' := by
  obtain ⟨⟨c, hc, rfl, rfl⟩, _⟩ := h
  obtain ⟨⟨c', hc', rfl, rfl⟩, _⟩ := h'
  obtain ⟨hid, hn⟩ := Prod.mk.inj hkey
  rw [hid, hn, hc'] at hc
  obtain rfl := Option.some.inj hc
  exact ⟨rfl, rfl⟩

end Service

namespace Fleet

variable {settings : Settings}

/-! ## The two transactions -/

section Claim

variable {s t : Service} {call : ClaimCall} {claimed : List ClaimedDelivery}
  (hs : (LeadQueue.service settings).Reachable s) (h : claim settings s call = some (t, claimed))

include h

theorem mem_claims {c : Claim} : c ∈ t.claims ↔
    c ∈ s.claims ∨ ∃ d ∈ claimed, c = ⟨call.workerId, call.now, call.now + settings.lease, d⟩ := by
  rw [(claim_eq_some.mp h).2.1, List.mem_append]
  simp [newClaims, eq_comm]

theorem result?_claim (id : DeliveryId) (n : ℕ) : t.result? id n = s.result? id n := by
  have hmemory := (Service.step_memory (claim_eq_some.mp h).1).2
  simp only [Service.result?, hmemory, Service.recordedBy, List.append_nil]

theorem claimed_length : claimed.length ≤ call.limit := by
  rw [(claim_eq_some.mp h).2.2, List.length_map]
  refine (List.length_filterMap_le _ _).trans ?_
  unfold picked
  rw [Table.lockRows_some]
  exact List.length_take_le _ _

/-- What was owed is owed after a claim. -/
theorem owes_claim {v : WorkerId} {d : ClaimedDelivery} (howes : s.Owes v d) : t.Owes v d :=
  howes.step (claim_eq_some.mp h).1 (by simp [Service.recordedBy])

theorem claimed_keys_nodup : (claimed.map ClaimedDelivery.key).Nodup := by
  obtain ⟨hstep, _, rfl⟩ := claim_eq_some.mp h
  obtain ⟨_, hvalid, _⟩ := Service.step_claim.mp hstep
  have hnew := @newClaims_keys_nodup settings call s.db hvalid
  simpa [newClaims, Function.comp_def, Claim.key, ClaimedDelivery.key] using hnew

include hs

/-- What a claim hands out was not handed out before. -/
theorem unclaimed_of_claimed {d : ClaimedDelivery} (hd : d ∈ claimed) :
    s.claim? d.deliveryId d.attemptNumber = none := by
  obtain ⟨hstep, _, rfl⟩ := claim_eq_some.mp h
  obtain ⟨row, hrow, rfl⟩ := List.mem_map.mp hd
  have hget := (mem_picked (mem_claimedRows.mp hrow).1).1
  have hinv := inv_of_reachable hs (Service.life_eq_some_iff.mpr ⟨row.prev, hget, rfl⟩)
  exact hinv.no_next_claim

theorem owes_of_claimed {d : ClaimedDelivery} (hd : d ∈ claimed) : t.Owes call.workerId d := by
  have ht : (LeadQueue.service settings).Reachable t := .step hs trivial (claim_eq_some.mp h).1
  constructor
  · have hmem := (mem_claims h).mpr (Or.inr ⟨d, hd, rfl⟩)
    exact ⟨_, claim?_of_mem ht hmem, rfl, rfl⟩
  · rw [result?_claim h]
    exact Service.result?_of_claim?_none hs (unclaimed_of_claimed hs h hd)

end Claim

/-- A record of a claim its worker owes is the service's. -/
theorem step_of_record {s t : Service} {w : WorkerId} {d : ClaimedDelivery}
    {result : AttemptResult} {draw : Draw} {now : Instant} (howes : s.Owes w d)
    (h : record settings s w d result draw now = some t) :
    s.step settings (.record d.deliveryId d.attemptNumber result draw now) = some t := by
  obtain ⟨⟨c, hc, rfl, rfl⟩, hnone⟩ := howes
  unfold record at h
  split at h
  · rename_i hnow
    split at h
    · rename_i db hrecord
      cases h
      exact Service.step_record.mpr ⟨hnow, hnone, c, db, hc, hrecord, rfl⟩
    · cases h
  · cases h

/-! ## Who has which claim -/

/-- The result of a claim is committed. -/
def Recorded (f : Fleet) (key : DeliveryId × ℕ) : Prop := (f.service.result? key.1 key.2).isSome

/-- A task of process `w` carries the claim. -/
def Held (f : Fleet) (w : WorkerId) (d : ClaimedDelivery) : Prop :=
  ∃ p, f.workers w = some p ∧ d ∈ p.held

structure Inv (settings : Settings) (f : Fleet) : Prop where
  reachable : (LeadQueue.service settings).Reachable f.service
  within : ∀ w p, f.workers w = some p → p.Within settings
  nodup : ∀ w p, f.workers w = some p → p.keys.Nodup
  owes : ∀ w d, f.Held w d → f.service.Owes w d ∧ d.key ∉ f.givenUp
  accounted : ∀ c ∈ f.service.claims,
    f.Recorded c.key ∨ c.key ∈ f.givenUp ∨ f.Held c.workerId c.delivery
  givenUp : ∀ key ∈ f.givenUp,
    (f.service.claim? key.1 key.2).isSome ∧ f.service.result? key.1 key.2 = none

theorem inv_empty (clock : Instant) : (empty clock).Inv settings where
  reachable := .init ⟨clock, rfl⟩
  within _ _ h := by cases h
  nodup _ _ h := by cases h
  owes := by
    rintro _ _ ⟨_, h, _⟩
    cases h
  accounted _ h := by cases h
  givenUp _ h := by cases h

section Held

variable {f : Fleet} {w v : WorkerId} {p : Process} {d : ClaimedDelivery}

theorem held_set_self {s : Service} {gone : List (DeliveryId × ℕ)} :
    Held { f.set w p with service := s, givenUp := gone } w d ↔ d ∈ p.held := by
  constructor
  · rintro ⟨q, hq, hd⟩
    obtain rfl : p = q := Option.some.inj ((workers_set_self (f := f)).symm.trans hq)
    exact hd
  · exact fun hd => ⟨p, workers_set_self, hd⟩

theorem held_set_of_ne {s : Service} {gone : List (DeliveryId × ℕ)} (h : v ≠ w) :
    Held { f.set w p with service := s, givenUp := gone } v d ↔ f.Held v d := by
  simp only [Held, workers_set_of_ne h]

end Held

/-- What a step that changes one process has to keep: `s` is the service after
it, `p'` the process, `gone` the claims it gives up. -/
theorem Inv.update {f : Fleet} {w : WorkerId} {p p' : Process} {s : Service}
    {gone : List (DeliveryId × ℕ)} (h : f.Inv settings) (hp : f.workers w = some p)
    (hs : (LeadQueue.service settings).Reachable s) (hwithin : p'.Within settings)
    (hnodup : p'.keys.Nodup)
    (howes : ∀ d ∈ p'.held, s.Owes w d ∧ d.key ∉ f.givenUp ++ gone)
    (hother : ∀ v d, v ≠ w → f.service.Owes v d → s.Owes v d ∧ d.key ∉ gone)
    (hclaims : ∀ c ∈ s.claims, (c ∈ f.service.claims ∧ ¬ (c.workerId = w ∧ c.delivery ∈ p.held)) ∨
      (s.result? c.key.1 c.key.2).isSome ∨ c.key ∈ gone ∨ (c.workerId = w ∧ c.delivery ∈ p'.held))
    (hresults : ∀ key, f.Recorded key → (s.result? key.1 key.2).isSome)
    (hgone : ∀ key ∈ f.givenUp ++ gone,
      (s.claim? key.1 key.2).isSome ∧ s.result? key.1 key.2 = none) :
    Inv settings { f.set w p' with service := s, givenUp := f.givenUp ++ gone } where
  reachable := hs
  within v q hq := by
    by_cases hv : v = w
    · subst hv
      obtain rfl : p' = q := Option.some.inj ((workers_set_self (f := f)).symm.trans hq)
      exact hwithin
    · exact h.within v q ((workers_set_of_ne hv).symm.trans hq)
  nodup v q hq := by
    by_cases hv : v = w
    · subst hv
      obtain rfl : p' = q := Option.some.inj ((workers_set_self (f := f)).symm.trans hq)
      exact hnodup
    · exact h.nodup v q ((workers_set_of_ne hv).symm.trans hq)
  owes v d hd := by
    by_cases hv : v = w
    · subst hv
      exact howes d (held_set_self.mp hd)
    · obtain ⟨hold, hfree⟩ := h.owes v d ((held_set_of_ne hv).mp hd)
      obtain ⟨hnew, hgone⟩ := hother v d hv hold
      exact ⟨hnew, fun hmem => (List.mem_append.mp hmem).elim hfree hgone⟩
  accounted c hc := by
    rcases hclaims c hc with ⟨hold, hfree⟩ | hdone | hgone | ⟨hw, hheld⟩
    · rcases h.accounted c hold with hdone | hgone | hheld
      · exact Or.inl (hresults _ hdone)
      · exact Or.inr (Or.inl (List.mem_append_left _ hgone))
      · refine Or.inr (Or.inr ((held_set_of_ne fun hw => ?_).mpr hheld))
        obtain ⟨q, hq, hd⟩ := hheld
        rw [hw] at hq
        obtain rfl : p = q := Option.some.inj (hp.symm.trans hq)
        exact hfree ⟨hw, hd⟩
    · exact Or.inl hdone
    · exact Or.inr (Or.inl (List.mem_append_right _ hgone))
    · subst hw
      exact Or.inr (Or.inr (held_set_self.mpr hheld))
  givenUp := hgone

theorem Inv.queue {f : Fleet} {e : Event} {s : Service} (h : f.Inv settings)
    (hout : e.fromOutside = true) (hs : f.service.step settings e = some s) :
    Inv settings { f with service := s } := by
  have hclaims : s.claims = f.service.claims := by
    rcases Service.step_claims hs with hsame | ⟨call, _, _, rfl, _⟩
    · exact hsame
    · cases hout
  have hresults : s.results = f.service.results := by
    rw [(Service.step_memory hs).2]
    cases e with
    | record => cases hout
    | _ => exact List.append_nil _
  have hclaim? : s.claim? = f.service.claim? := by
    unfold Service.claim?
    rw [hclaims]
  have hresult? : s.result? = f.service.result? := by
    unfold Service.result?
    rw [hresults]
  refine ⟨.step h.reachable trivial hs, h.within, h.nodup, fun w d hd => ?_, fun c hc => ?_,
    fun key hkey => ?_⟩
  · have howes := h.owes w d hd
    unfold Service.Owes at howes ⊢
    rw [hclaim?, hresult?]
    exact howes
  · have hacc := h.accounted c (hclaims ▸ hc)
    unfold Recorded at hacc ⊢
    rw [hresult?]
    exact hacc
  · have hgone := h.givenUp key hkey
    show (s.claim? key.1 key.2).isSome ∧ s.result? key.1 key.2 = none
    rw [hclaim?, hresult?]
    exact hgone

theorem Inv.start {f : Fleet} {w : WorkerId} (h : f.Inv settings) (hnew : f.workers w = none) :
    (f.set w .new).Inv settings where
  reachable := h.reachable
  within v q hq := by
    by_cases hv : v = w
    · subst hv
      obtain rfl : Process.new = q := Option.some.inj (workers_set_self.symm.trans hq)
      exact Process.within_new settings
    · exact h.within v q ((workers_set_of_ne hv).symm.trans hq)
  nodup v q hq := by
    by_cases hv : v = w
    · subst hv
      obtain rfl : Process.new = q := Option.some.inj (workers_set_self.symm.trans hq)
      exact List.nodup_nil
    · exact h.nodup v q ((workers_set_of_ne hv).symm.trans hq)
  owes v d hd := by
    by_cases hv : v = w
    · subst hv
      have hnil := held_set_self.mp hd
      cases hnil
    · exact h.owes v d ((held_set_of_ne hv).mp hd)
  accounted c hc := by
    rcases h.accounted c hc with hdone | hgone | ⟨q, hq, hd⟩
    · exact Or.inl hdone
    · exact Or.inr (Or.inl hgone)
    · refine Or.inr (Or.inr ⟨q, ?_, hd⟩)
      rwa [workers_set_of_ne]
      intro hw
      rw [hw, hnew] at hq
      cases hq
  givenUp := h.givenUp

theorem Inv.own {f : Fleet} {w : WorkerId} {p p' : Process} {e : ProcessEvent}
    (h : f.Inv settings) (hp : f.workers w = some p) (hstep : p.step settings e = some p') :
    Inv settings { f.set w p' with givenUp := f.givenUp ++ p.givesUp e } := by
  have hheld := Process.held_step hstep
  -- what is given up was held by this process
  have hgone : ∀ key ∈ p.givesUp e, ∃ d, d.key = key ∧ f.service.Owes w d := by
    intro key hkey
    obtain ⟨d, hd, rfl⟩ := Process.mem_keys.mp (Process.mem_keys_of_givesUp hstep hkey)
    exact ⟨d, rfl, (h.owes w d ⟨p, hp, hd⟩).1⟩
  have hsub : ∀ d ∈ p'.held, d ∈ p.held ∧ d.key ∉ p.givesUp e := by
    intro d hd
    rw [hheld] at hd
    obtain ⟨hd, hkeep⟩ := List.mem_filter.mp hd
    exact ⟨hd, of_decide_eq_true hkeep⟩
  refine h.update hp h.reachable ((h.within w p hp).step hstep) ?_ ?_ ?_ ?_ (fun _ => id) ?_
  · refine (h.nodup w p hp).sublist ?_
    unfold Process.keys
    rw [hheld]
    exact List.filter_sublist.map _
  · intro d hd
    obtain ⟨hd, hkeep⟩ := hsub d hd
    obtain ⟨howes, hfree⟩ := h.owes w d ⟨p, hp, hd⟩
    exact ⟨howes, fun hmem => (List.mem_append.mp hmem).elim hfree hkeep⟩
  · intro v d hv howes
    refine ⟨howes, fun hmem => hv ?_⟩
    obtain ⟨d', hkey, howes'⟩ := hgone _ hmem
    exact (howes'.unique howes hkey).1.symm
  · intro c hc
    by_cases hhas : c.workerId = w ∧ c.delivery ∈ p.held
    · by_cases hkey : c.key ∈ p.givesUp e
      · exact Or.inr (Or.inr (Or.inl hkey))
      · refine Or.inr (Or.inr (Or.inr ⟨hhas.1, ?_⟩))
        rw [hheld]
        exact List.mem_filter.mpr ⟨hhas.2, decide_eq_true hkey⟩
    · exact Or.inl ⟨hc, hhas⟩
  · intro key hkey
    rcases List.mem_append.mp hkey with hold | hnew
    · exact h.givenUp key hold
    · obtain ⟨d, rfl, ⟨c, hc, _⟩, hnone⟩ := hgone key hnew
      exact ⟨Option.isSome_iff_exists.mpr ⟨c, hc⟩, hnone⟩

section Claim

variable {f : Fleet} {w : WorkerId} {p : Process} {call : ClaimCall} {s : Service}
  {new : List ClaimedDelivery}

/-- An owed claim is none of the new ones. -/
theorem Inv.notMem_new (h : f.Inv settings) (hclaim : claim settings f.service call = some (s, new))
    {v : WorkerId} {d : ClaimedDelivery} (howes : f.service.Owes v d) :
    d.key ∉ new.map ClaimedDelivery.key := by
  intro hmem
  obtain ⟨d', hd', hkey⟩ := List.mem_map.mp hmem
  obtain ⟨hid, hn⟩ := Prod.mk.inj hkey
  obtain ⟨⟨c, hc, _⟩, _⟩ := howes
  have hnone := unclaimed_of_claimed h.reachable hclaim hd'
  rw [hid, hn, hc] at hnone
  cases hnone

theorem Inv.givenUp_claim (h : f.Inv settings)
    (hclaim : claim settings f.service call = some (s, new)) {key : DeliveryId × ℕ}
    (hkey : key ∈ f.givenUp) :
    ((s.claim? key.1 key.2).isSome ∧ s.result? key.1 key.2 = none) ∧
      key ∉ new.map ClaimedDelivery.key := by
  obtain ⟨hsome, hnone⟩ := h.givenUp key hkey
  obtain ⟨c, hc⟩ := Option.isSome_iff_exists.mp hsome
  refine ⟨⟨?_, (result?_claim hclaim _ _).trans hnone⟩, fun hmem => ?_⟩
  · exact Option.isSome_iff_exists.mpr
      ⟨c, Service.step_claim?_mono (claim_eq_some.mp hclaim).1 hc⟩
  · obtain ⟨d, hd, rfl⟩ := List.mem_map.mp hmem
    have hfree : f.service.claim? d.key.1 d.key.2 = none :=
      unclaimed_of_claimed h.reachable hclaim hd
    rw [hfree] at hc
    cases hc

theorem Inv.claimed (h : f.Inv settings) (hp : f.workers w = some p)
    (hphase : p.phase = .claiming call.limit) (hw : call.workerId = w)
    (hclaim : claim settings f.service call = some (s, new)) :
    Inv settings { f.set w (p.spawn new) with service := s } := by
  have hs : (LeadQueue.service settings).Reachable s :=
    .step h.reachable trivial (claim_eq_some.mp hclaim).1
  have hupdate := @Inv.update settings f w p (p.spawn new) s [] h hp hs
    ((h.within w p hp).spawn hphase (claimed_length hclaim))
  rw [List.append_nil] at hupdate
  apply hupdate
  · unfold Process.keys
    rw [Process.held_spawn, List.map_append]
    refine (h.nodup w p hp).append (claimed_keys_nodup hclaim) fun key hold hnew => ?_
    obtain ⟨d, hd, rfl⟩ := Process.mem_keys.mp hold
    exact h.notMem_new hclaim (h.owes w d ⟨p, hp, hd⟩).1 hnew
  · intro d hd
    rw [Process.held_spawn] at hd
    rcases List.mem_append.mp hd with hd | hd
    · obtain ⟨howes, hfree⟩ := h.owes w d ⟨p, hp, hd⟩
      exact ⟨owes_claim hclaim howes, hfree⟩
    · refine ⟨hw ▸ owes_of_claimed h.reachable hclaim hd, fun hgone => ?_⟩
      exact (h.givenUp_claim hclaim hgone).2 (List.mem_map_of_mem hd)
  · exact fun v d _ howes => ⟨owes_claim hclaim howes, List.not_mem_nil⟩
  · intro c hc
    rcases (mem_claims hclaim).mp hc with hold | ⟨d, hd, rfl⟩
    · by_cases hhas : c.workerId = w ∧ c.delivery ∈ p.held
      · refine Or.inr (Or.inr (Or.inr ⟨hhas.1, ?_⟩))
        rw [Process.held_spawn]
        exact List.mem_append_left _ hhas.2
      · exact Or.inl ⟨hold, hhas⟩
    · refine Or.inr (Or.inr (Or.inr ⟨hw, ?_⟩))
      rw [Process.held_spawn]
      exact List.mem_append_right _ hd
  · intro key hdone
    rw [result?_claim hclaim]
    exact hdone
  · exact fun key hkey => (h.givenUp_claim hclaim hkey).1

theorem Inv.claimLost (h : f.Inv settings) (hp : f.workers w = some p)
    (hclaim : claim settings f.service call = some (s, new)) :
    Inv settings { f.set w { p with phase := .draining } with
      service := s, givenUp := f.givenUp ++ new.map ClaimedDelivery.key } := by
  have hs : (LeadQueue.service settings).Reachable s :=
    .step h.reachable trivial (claim_eq_some.mp hclaim).1
  have hwithin : Process.Within settings { p with phase := .draining } :=
    (h.within w p hp).shrink le_rfl (Nat.zero_le _) (by simp)
  refine h.update hp hs hwithin (h.nodup w p hp) ?_ ?_ ?_ ?_ ?_
  · intro d hd
    obtain ⟨howes, hfree⟩ := h.owes w d ⟨p, hp, hd⟩
    exact ⟨owes_claim hclaim howes,
      fun hmem => (List.mem_append.mp hmem).elim hfree (h.notMem_new hclaim howes)⟩
  · exact fun v d _ howes => ⟨owes_claim hclaim howes, h.notMem_new hclaim howes⟩
  · intro c hc
    rcases (mem_claims hclaim).mp hc with hold | ⟨d, hd, rfl⟩
    · by_cases hhas : c.workerId = w ∧ c.delivery ∈ p.held
      · exact Or.inr (Or.inr (Or.inr hhas))
      · exact Or.inl ⟨hold, hhas⟩
    · exact Or.inr (Or.inr (Or.inl (List.mem_map_of_mem hd)))
  · intro key hdone
    rw [result?_claim hclaim]
    exact hdone
  · intro key hkey
    rcases List.mem_append.mp hkey with hold | hnew
    · exact (h.givenUp_claim hclaim hold).1
    · obtain ⟨d, hd, rfl⟩ := List.mem_map.mp hnew
      obtain ⟨⟨c, hc, _⟩, hnone⟩ := owes_of_claimed h.reachable hclaim hd
      exact ⟨Option.isSome_iff_exists.mpr ⟨c, hc⟩, hnone⟩

end Claim

theorem Inv.recorded {f : Fleet} {w : WorkerId} {p : Process} {d : ClaimedDelivery}
    {result : AttemptResult} {draw : Draw} {now : Instant} {s : Service} (h : f.Inv settings)
    (hp : f.workers w = some p) (hd : d ∈ p.held)
    (hrecord : record settings f.service w d result draw now = some s) :
    Inv settings { f.set w (p.discard d.key) with service := s } := by
  obtain ⟨howes, hfree⟩ := h.owes w d ⟨p, hp, hd⟩
  have hstep := step_of_record howes hrecord
  have hs : (LeadQueue.service settings).Reachable s := .step h.reachable trivial hstep
  -- a claim with another key is untouched
  have hrest : ∀ v d', d'.key ≠ d.key → f.service.Owes v d' → s.Owes v d' := by
    intro v d' hne howes'
    refine howes'.step hstep fun r hr => ?_
    rw [List.mem_singleton.mp hr]
    exact hne.symm
  have hmem : ∀ d', d' ∈ (p.discard d.key).held ↔ d' ∈ p.held ∧ d'.key ≠ d.key := by
    intro d'
    rw [Process.held_discard, List.mem_filter, decide_eq_true_iff]
  have hupdate := @Inv.update settings f w p (p.discard d.key) s [] h hp hs
    (h.within w p hp).discard
  rw [List.append_nil] at hupdate
  apply hupdate
  · unfold Process.keys
    rw [Process.held_discard]
    exact (h.nodup w p hp).sublist (List.filter_sublist.map _)
  · intro d' hd'
    obtain ⟨hd', hne⟩ := (hmem d').mp hd'
    obtain ⟨howes', hfree'⟩ := h.owes w d' ⟨p, hp, hd'⟩
    exact ⟨hrest w d' hne howes', hfree'⟩
  · intro v d' hv howes'
    refine ⟨hrest v d' (fun hkey => hv ?_) howes', List.not_mem_nil⟩
    exact (howes'.unique howes hkey).1
  · intro c hc
    have hclaims : s.claims = f.service.claims := by
      rcases Service.step_claims hstep with hsame | ⟨_, _, _, hevent, _⟩
      · exact hsame
      · cases hevent
    by_cases hhas : c.workerId = w ∧ c.delivery ∈ p.held
    · by_cases hkey : c.delivery.key = d.key
      · refine Or.inr (Or.inl ?_)
        show (s.result? c.delivery.key.1 c.delivery.key.2).isSome
        rw [hkey]
        obtain ⟨_, hnone, _, _, _, _, rfl⟩ := Service.step_record.mp hstep
        rw [Service.result?_append]
        simp [ClaimedDelivery.key]
      · exact Or.inr (Or.inr (Or.inr ⟨hhas.1, (hmem _).mpr ⟨hhas.2, hkey⟩⟩))
    · exact Or.inl ⟨hclaims ▸ hc, hhas⟩
  · exact fun key hdone => Service.step_result?_mono hstep hdone
  · intro key hkey
    obtain ⟨hsome, hnone⟩ := h.givenUp key hkey
    obtain ⟨c, hc⟩ := Option.isSome_iff_exists.mp hsome
    refine ⟨Option.isSome_iff_exists.mpr ⟨c, Service.step_claim?_mono hstep hc⟩, ?_⟩
    refine Service.step_result?_none hstep hnone fun r hr heq => hfree ?_
    rw [List.mem_singleton.mp hr] at heq
    have heq : d.key = key := heq
    exact heq ▸ hkey

theorem Inv.step {f f' : Fleet} {e : FleetEvent} (h : f.Inv settings)
    (hstep : f.step settings e = some f') : f'.Inv settings := by
  cases e with
  | queue e =>
      obtain ⟨hout, s, hs, rfl⟩ := step_queue.mp hstep
      exact h.queue hout hs
  | start w =>
      obtain ⟨hnew, rfl⟩ := step_start.mp hstep
      exact h.start hnew
  | own w e =>
      obtain ⟨p, p', hp, hown, rfl⟩ := step_own.mp hstep
      exact h.own hp hown
  | claimed w call =>
      obtain ⟨p, s, new, hp, hphase, hw, hclaim, rfl⟩ := step_claimed.mp hstep
      exact h.claimed hp hphase hw hclaim
  | claimLost w call =>
      obtain ⟨p, s, new, hp, _, _, hclaim, rfl⟩ := step_claimLost.mp hstep
      exact h.claimLost hp hclaim
  | recorded w key draw now =>
      obtain ⟨p, d, result, s, hp, htask, hrecord, rfl⟩ := step_recorded.mp hstep
      obtain ⟨hd, rfl⟩ := Process.task?_eq_some htask
      exact h.recorded hp hd hrecord

end Fleet

theorem fleet_inv {settings : Settings} {ok : Fleet → FleetEvent → Prop} {f : Fleet}
    (h : (fleet settings).ReachableBy ok f) : f.Inv settings := by
  refine h.invariant (fun f hinit => ?_) fun _ _ _ _ hinv _ hstep => hinv.step hstep
  obtain ⟨clock, rfl⟩ := hinit
  exact Fleet.inv_empty clock

/-! ## The queue under a fleet -/

namespace Fleet

variable {settings : Settings} {f f' : Fleet}

/-- The transaction an event commits, if any. -/
def transaction (f : Fleet) : FleetEvent → Option Event
  | .queue e => some e
  | .claimed _ call | .claimLost _ call => some (.claim call)
  | .recorded w key draw now =>
      match (f.workers w).bind fun p => p.task? key with
      | some ⟨claim, .recording result⟩ =>
          some (.record claim.deliveryId claim.attemptNumber result draw now)
      | _ => none
  | .start _ | .own .. => none

/-- A step of the fleet is a step of the service, or leaves the service alone. -/
theorem Inv.service_step {e : FleetEvent} (h : f.Inv settings)
    (hstep : f.step settings e = some f') :
    (f.transaction e = none ∧ f'.service = f.service) ∨
      ∃ d, f.transaction e = some d ∧ f.service.step settings d = some f'.service := by
  cases e with
  | queue e =>
      obtain ⟨_, s, hs, rfl⟩ := step_queue.mp hstep
      exact Or.inr ⟨e, rfl, hs⟩
  | start w =>
      obtain ⟨_, rfl⟩ := step_start.mp hstep
      exact Or.inl ⟨rfl, rfl⟩
  | own w e =>
      obtain ⟨p, p', _, _, rfl⟩ := step_own.mp hstep
      exact Or.inl ⟨rfl, rfl⟩
  | claimed w call =>
      obtain ⟨p, s, new, _, _, _, hclaim, rfl⟩ := step_claimed.mp hstep
      exact Or.inr ⟨_, rfl, (claim_eq_some.mp hclaim).1⟩
  | claimLost w call =>
      obtain ⟨p, s, new, _, _, _, hclaim, rfl⟩ := step_claimLost.mp hstep
      exact Or.inr ⟨_, rfl, (claim_eq_some.mp hclaim).1⟩
  | recorded w key draw now =>
      obtain ⟨p, d, result, s, hp, htask, hrecord, rfl⟩ := step_recorded.mp hstep
      have howes := (h.owes w d ⟨p, hp, (Process.task?_eq_some htask).1⟩).1
      refine Or.inr ⟨_, ?_, step_of_record howes hrecord⟩
      simp only [transaction, hp, Option.bind_some, htask]

/-- The outcome of the attempt is known: to its task, or to the queue. -/
def Has (f : Fleet) (key : DeliveryId × ℕ) (result : AttemptResult) : Prop :=
  f.service.result? key.1 key.2 = some result ∨
    ∃ w p t, f.workers w = some p ∧ t ∈ p.tasks ∧ t.key = key ∧ t.stage = .recording result

/-- A transaction records what a task carries. -/
theorem task_of_recordedBy {e : FleetEvent} {d : Event} {key : DeliveryId × ℕ}
    {result : AttemptResult} (hstep : f.step settings e = some f') (hd : f.transaction e = some d)
    (hrecorded : (key, result) ∈ Service.recordedBy d) :
    ∃ w p t, f.workers w = some p ∧ t ∈ p.tasks ∧ t.key = key ∧ t.stage = .recording result := by
  cases e with
  | queue e =>
      obtain ⟨hout, _⟩ := step_queue.mp hstep
      obtain rfl : e = d := Option.some.inj hd
      cases e with
      | record => cases hout
      | _ => cases hrecorded
  | recorded w key' draw now =>
      obtain ⟨p, claim, result', s, hp, htask, _, rfl⟩ := step_recorded.mp hstep
      simp only [transaction, hp, Option.bind_some, htask, Option.some.injEq] at hd
      subst hd
      obtain ⟨rfl, rfl⟩ := Prod.mk.inj (List.mem_singleton.mp hrecorded)
      exact ⟨w, p, _, hp, List.mem_of_find?_eq_some htask, rfl, rfl⟩
  | claimed w call =>
      cases hd
      cases hrecorded
  | claimLost w call =>
      cases hd
      cases hrecorded
  | start w => cases hd
  | own w e => cases hd

/-- What is known after a step was known before it, or an attempt has just
ended. -/
theorem Inv.has_step {e : FleetEvent} {key : DeliveryId × ℕ} {result : AttemptResult}
    (h : f.Inv settings) (hstep : f.step settings e = some f') (hhas : f'.Has key result) :
    f.Has key result ∨ ∃ w startedAt finishedAt exchange,
      e = .own w (.sent key startedAt finishedAt exchange) ∧
        result = send settings startedAt finishedAt exchange := by
  rcases hhas with hresult | ⟨w, p', t, hp', ht, rfl, hstage⟩
  · refine Or.inl ?_
    rcases h.service_step hstep with ⟨_, hsame⟩ | ⟨d, hd, hs⟩
    · exact Or.inl (hsame ▸ hresult)
    · rcases Service.step_result?_cases hs hresult with hold | hnew
      · exact Or.inl hold
      · exact Or.inr (task_of_recordedBy hstep hd hnew)
  · by_cases hw : e.actor = some w
    · rcases exists_worker hstep hw with rfl | ⟨p, hp⟩
      · -- a process that has just started has no task
        obtain ⟨_, rfl⟩ := step_start.mp hstep
        obtain rfl : Process.new = p' := Option.some.inj (workers_set_self.symm.trans hp')
        cases ht
      · have hkeep : t ∈ p.tasks → f.Has t.key result :=
          fun hmem => Or.inr ⟨w, p, t, hp, hmem, rfl, hstage⟩
        obtain ⟨q, hq, hcase⟩ := worker_cases hstep hp hw
        obtain rfl : p' = q := Option.some.inj (hp'.symm.trans hq)
        rcases hcase with ⟨e', rfl, hown⟩ | ⟨call, s, new, rfl, _, _, rfl⟩ | ⟨call, rfl, _, rfl⟩ |
          ⟨key, draw, now, claim, _, rfl, _, rfl⟩
        · rcases Process.mem_tasks_step hown ht with
            hmem | ⟨startedAt, finishedAt, exchange, rfl, hnew⟩
          · exact Or.inl (hkeep hmem)
          · refine Or.inr ⟨w, startedAt, finishedAt, exchange, rfl, ?_⟩
            exact TaskStage.recording.inj (hstage.symm.trans hnew)
        · rcases List.mem_append.mp ht with hmem | hnew
          · exact Or.inl (hkeep hmem)
          · obtain ⟨d, _, rfl⟩ := List.mem_map.mp hnew
            cases hstage
        · exact Or.inl (hkeep ht)
        · exact Or.inl (hkeep (List.mem_of_mem_filter ht))
    · rw [workers_of_ne hstep hw] at hp'
      exact Or.inl (Or.inr ⟨w, p', t, hp', ht, rfl, hstage⟩)

end Fleet

/-- Whatever workers and API do, the queue is in a state of the service; no
worker has more tasks than slots; every claim is recorded, or given up, or held
by a task of the process that made it; a claim is held by that process alone,
and then neither recorded nor given up; and what is given up is not recorded. -/
theorem fleet_accounts_for_claims {settings : Settings} {f : Fleet}
    (h : (fleet settings).Reachable f) :
    (service settings).Reachable f.service ∧
    (∀ w p, f.workers w = some p → p.tasks.length ≤ settings.workerConcurrency) ∧
    (∀ c ∈ f.service.claims, f.Recorded c.key ∨ c.key ∈ f.givenUp ∨ f.Held c.workerId c.delivery) ∧
    (∀ c ∈ f.service.claims, ∀ w d, f.Held w d → d.key = c.key →
      w = c.workerId ∧ d = c.delivery ∧ ¬ f.Recorded c.key ∧ c.key ∉ f.givenUp) ∧
    ∀ key ∈ f.givenUp, ¬ f.Recorded key := by
  have hinv := fleet_inv h
  refine ⟨hinv.reachable, fun w p hp => (hinv.within w p hp).tasks_le, hinv.accounted, ?_, ?_⟩
  · intro c hc w d hd hkey
    obtain ⟨⟨⟨c', hc', hw, hdelivery⟩, hnone⟩, hfree⟩ := hinv.owes w d hd
    have hfound : f.service.claim? d.key.1 d.key.2 = some c := by
      rw [hkey]
      exact claim?_of_mem hinv.reachable hc
    obtain rfl : c' = c := Option.some.inj (hc'.symm.trans hfound)
    refine ⟨hw.symm, hdelivery.symm, fun hdone => ?_, hkey ▸ hfree⟩
    rw [← hkey] at hdone
    exact Option.isSome_iff_ne_none.mp hdone hnone
  · intro key hkey hdone
    exact Option.isSome_iff_ne_none.mp hdone (hinv.givenUp key hkey).2

/-- One claim given up and one recorded. -/
theorem fleet_accounts_for_claims_takenOver :
    ∃ f, (fleet .default).Reachable f ∧ f.service.claims.length = 2 ∧ f.givenUp.length = 1 ∧
      ∀ key ∈ f.givenUp, ¬ f.Recorded key := by
  obtain ⟨f, hf, hp⟩ := exists_fleetBy_of_moves .default (fun _ _ => True) Fleet.Move.takenOver
    (fun f => decide (f.service.claims.length = 2 ∧ f.givenUp.length = 1)) (by decide +kernel)
  obtain ⟨hclaims, hgone⟩ := of_decide_eq_true hp
  exact ⟨f, hf, hclaims, hgone, (fleet_accounts_for_claims hf).2.2.2.2⟩

/-! ## A worker that is shut down gracefully -/

/-- Process `w` is not killed, has time to drain, and the database answers it. -/
def Fleet.Graceful (w : WorkerId) : FleetEvent → Prop
  | .own v .crash | .own v .abandon | .own v (.recordFailed _) | .claimLost v _ => v ≠ w
  | _ => True

instance Fleet.decidableGraceful (w : WorkerId) (e : FleetEvent) :
    Decidable (Fleet.Graceful w e) := by
  unfold Fleet.Graceful
  split <;> infer_instance

theorem Fleet.givesUp_of_graceful {w v : WorkerId} {p : Process} {e : ProcessEvent}
    (h : Fleet.Graceful w (.own v e)) (hv : v = w) : p.givesUp e = [] := by
  cases e <;> first | rfl | exact absurd hv h

/-- None of its claims is given up. -/
theorem notMem_givenUp_of_graceful {settings : Settings} {w : WorkerId} {f : Fleet}
    (h : (fleet settings).ReachableBy (fun _ e => Fleet.Graceful w e) f) :
    ∀ c ∈ f.service.claims, c.workerId = w → c.key ∉ f.givenUp := by
  induction h with
  | init h0 =>
      obtain ⟨clock, rfl⟩ := h0
      intro c hc
      cases hc
  | @step f f' e hf hok hst ih =>
      have hinv := fleet_inv hf
      cases e with
      | queue e =>
          obtain ⟨hout, s, hs, rfl⟩ := Fleet.step_queue.mp hst
          intro c hc hw
          rcases Service.step_claims hs with hsame | ⟨_, _, _, rfl, _⟩
          · exact ih c (hsame ▸ hc) hw
          · cases hout
      | start v =>
          obtain ⟨_, rfl⟩ := Fleet.step_start.mp hst
          exact ih
      | own v e =>
          obtain ⟨p, p', hp, hown, rfl⟩ := Fleet.step_own.mp hst
          intro c hc hw hmem
          rcases List.mem_append.mp hmem with hold | hgone
          · exact ih c hc hw hold
          · by_cases hv : v = w
            · rw [Fleet.givesUp_of_graceful hok hv] at hgone
              cases hgone
            · obtain ⟨d, hd, hkey⟩ :=
                Process.mem_keys.mp (Process.mem_keys_of_givesUp hown hgone)
              obtain ⟨⟨⟨c', hc', hv', _⟩, _⟩, _⟩ := hinv.owes v d ⟨p, hp, hd⟩
              have hfound : f.service.claim? d.key.1 d.key.2 = some c := by
                rw [hkey]
                exact claim?_of_mem hinv.reachable hc
              obtain rfl : c' = c := Option.some.inj (hc'.symm.trans hfound)
              exact hv (hv'.symm.trans hw)
      | claimed v call =>
          obtain ⟨p, s, new, hp, _, _, hclaim, rfl⟩ := Fleet.step_claimed.mp hst
          intro c hc hw hmem
          rcases (Fleet.mem_claims hclaim).mp hc with hold | ⟨d, hd, rfl⟩
          · exact ih c hold hw hmem
          · exact (hinv.givenUp_claim hclaim hmem).2 (List.mem_map_of_mem hd)
      | claimLost v call =>
          obtain ⟨p, s, new, hp, _, hv, hclaim, rfl⟩ := Fleet.step_claimLost.mp hst
          intro c hc hw hmem
          rcases (Fleet.mem_claims hclaim).mp hc with hold | ⟨d, hd, rfl⟩
          · rcases List.mem_append.mp hmem with hgone | hnew
            · exact ih c hold hw hgone
            · obtain ⟨d, hd, hkey⟩ := List.mem_map.mp hnew
              have hfree : f.service.claim? d.key.1 d.key.2 = none :=
                Fleet.unclaimed_of_claimed hinv.reachable hclaim hd
              rw [hkey] at hfree
              rw [show f.service.claim? c.key.1 c.key.2 = some c from
                claim?_of_mem hinv.reachable hold] at hfree
              cases hfree
          · exact hok (hv.symm.trans hw)
      | recorded v key draw now =>
          obtain ⟨p, d, result, s, hp, htask, hrecord, rfl⟩ := Fleet.step_recorded.mp hst
          obtain ⟨hd, rfl⟩ := Process.task?_eq_some htask
          have hstep := Fleet.step_of_record (hinv.owes v d ⟨p, hp, hd⟩).1 hrecord
          intro c hc hw
          rcases Service.step_claims hstep with hsame | ⟨_, _, _, hevent, _⟩
          · exact ih c (hsame ▸ hc) hw
          · cases hevent

/-- A process that ends gracefully leaves every claim it made recorded, with a
journal entry that knows its outcome. -/
theorem graceful_stop_leaves_nothing {settings : Settings} {w : WorkerId} {f : Fleet} {p : Process}
    (h : (fleet settings).ReachableBy (fun _ e => Fleet.Graceful w e) f)
    (hp : f.workers w = some p) (hstopped : p.phase = .stopped) :
    ∀ c ∈ f.service.claims, c.workerId = w → f.Recorded c.key ∧
      ∃ a, f.service.db.deliveryAttempts.get? c.key = some a ∧ a.outcome ≠ .unknown := by
  intro c hc hw
  have hinv := fleet_inv h
  have hdone : f.Recorded c.key := by
    rcases hinv.accounted c hc with hdone | hgone | ⟨q, hq, hd⟩
    · exact hdone
    · exact absurd hgone (notMem_givenUp_of_graceful h c hc hw)
    · rw [hw] at hq
      obtain rfl : p = q := Option.some.inj (hp.symm.trans hq)
      simp [Process.held, (hinv.within w p hp).quiet hstopped] at hd
  refine ⟨hdone, ?_⟩
  have hfound := claim?_of_mem hinv.reachable hc
  cases hrow : f.service.db.deliveries.get? c.key.1 with
  | none =>
      have hfree := (Service.tidy_of_reachable hinv.reachable c.key.1 hrow c.key.2).1
      rw [show f.service.claim? c.key.1 c.key.2 = some c from hfound] at hfree
      cases hfree
  | some row =>
      have hlife := inv_of_reachable hinv.reachable
        (Service.life_eq_some_iff.mpr ⟨row, hrow, rfl⟩)
      exact (hlife.known_iff c.key.2).mp hdone

/-- The attempt under way is finished and recorded before the process ends. -/
theorem graceful_stop_leaves_nothing_inTime :
    ∃ f, (fleet .default).ReachableBy (fun _ e => Fleet.Graceful Move.workerA e) f ∧
      f.service.claims ≠ [] ∧ ∀ c ∈ f.service.claims, c.workerId = Move.workerA →
        f.Recorded c.key := by
  obtain ⟨f, hf, hp⟩ := exists_fleetBy_of_moves .default
    (fun _ e => Fleet.Graceful Move.workerA e) Fleet.Move.stoppedInTime
    (fun f => decide (f.service.claims.length = 1) &&
      (f.workers Move.workerA).any fun p : Process => decide (p.phase = Phase.stopped))
    (by decide +kernel)
  obtain ⟨hclaims, hp⟩ := Bool.and_eq_true_iff.mp hp
  obtain ⟨p, hworker, hstopped⟩ := (Option.any_eq_true _ _).mp hp
  refine ⟨f, hf, List.ne_nil_of_length_pos ((of_decide_eq_true hclaims).symm ▸ Nat.one_pos), ?_⟩
  intro c hc hw
  exact (graceful_stop_leaves_nothing hf hworker (of_decide_eq_true hstopped) c hc hw).1

end LeadQueue
