import LeadQueue.Concurrent
import LeadQueue.Life.Invariant

/-!
# Exclusive claims

The ranking of a claim may read a snapshot that other transactions have since
overtaken. What makes a claim exclusive is the lock and the second look at the
latest version: the versions of a row form a chain, so a claim starts from what
the last change of the row left, and that has to be free.
-/

namespace LeadQueue

open Relational Transition RowLocks

/-- Pending with its retry time reached, or in flight with its lease over. -/
def Delivery.FreeAt (now : Instant) (d : Delivery) : Prop :=
  (d.status = .pending ∧ d.nextAttemptAt ≤ now) ∨
    (d.status = .inFlight ∧ ∃ lease, d.leaseExpiresAt = some lease ∧ lease ≤ now)

def QueueOp.isClaim : QueueOp → Bool
  | claim .. => true
  | _ => false

/-- The change frees the row for a claim at `now`: a failure whose backoff is
over by then, or a manual requeue. -/
def Frees (now : Instant) (c : Change Delivery QueueOp) : Prop :=
  match c.op with
  | .failure .. => c.after.status = .pending ∧ c.after.nextAttemptAt ≤ now
  | .requeue .. => True
  | _ => False

/-- `c₁` and `c₂` are claims of one delivery, `c₁` the earlier, with the changes
`between` them. -/
structure ClaimedTwice (history : List (Change Delivery QueueOp)) (c₁ c₂ : Change Delivery QueueOp)
    (between : List (Change Delivery QueueOp)) : Prop where
  split : ∃ newer older, history = newer ++ c₂ :: between ++ c₁ :: older
  sameDelivery : c₂.before.id = c₁.before.id
  isClaim₁ : c₁.op.isClaim = true
  isClaim₂ : c₂.op.isClaim = true

theorem ClaimedTwice.subset {history between : List (Change Delivery QueueOp)}
    {c₁ c₂ : Change Delivery QueueOp} (h : ClaimedTwice history c₁ c₂ between) :
    c₂ :: c₁ :: between ⊆ history := by
  obtain ⟨newer, older, hsplit⟩ := h.split
  intro c hc
  rw [hsplit]
  simp only [List.mem_cons, List.mem_append] at hc ⊢
  tauto

structure Exclusive {ι : Type} (settings : Settings) (s : State Delivery.id QueueOp ι) : Prop where
  /-- What an open claim has picked is free in its latest committed version. -/
  picked_free : ∀ i tx, s.txs i = some tx → tx.op.isClaim = true → ∀ d ∈ tx.taken,
    s.committed.get? d.id = some d ∧ d.FreeAt tx.op.now
  /-- So is every row a committed claim has taken. -/
  claimed_free : ∀ c ∈ s.history, c.op.isClaim = true → c.before.FreeAt c.op.now
  /-- Between two successive claims of a delivery the first lease ran out, or the
  row was freed. -/
  freed : ∀ c₁ c₂ between, ClaimedTwice s.history c₁ c₂ between →
    (∀ c ∈ between, c.before.id = c₁.before.id → c.op.isClaim = false) →
    c₁.op.now + settings.lease ≤ c₂.op.now ∨
      ∃ c ∈ between, c.before.id = c₁.before.id ∧ Frees c₂.op.now c
  /-- Two claims of a delivery have disjoint leases, or a result or a requeue
  came between them. -/
  disjoint : ∀ c₁ c₂ between, ClaimedTwice s.history c₁ c₂ between →
    c₁.op.now + settings.lease ≤ c₂.op.now ∨
      ∃ c ∈ between, c.before.id = c₁.before.id ∧ c.op.isClaim = false

/-! ## One change after another -/

section Chain

variable {settings : Settings}

/-- A change the discipline permits. -/
def Legal (settings : Settings) (c : Change Delivery QueueOp) : Prop :=
  (queueLocks settings).recheck c.op c.before = true ∧
    (queueLocks settings).change c.op c.before = some c.after

theorem wellShaped_change {op : QueueOp} {d d' : Delivery} (h : d.WellShaped)
    (hcond : op.cond d = true) (heffect : op.effect settings d = some d') : d'.WellShaped := by
  cases op with
  | claim workerId limit now =>
      cases heffect
      exact claimRow_wellShaped h hcond
  | success id result now =>
      cases heffect
      exact deliveredRow_wellShaped h
  | failure id workerId result lastError exhausted delay now =>
      cases heffect
      exact failedRow_wellShaped h (heldBy_iff.mp hcond).2.2
  | requeue where_ includeDelivered limit now =>
      simp only [QueueOp.effect] at heffect
      split at heffect
      · cases heffect
        exact requeueRow_wellShaped h
      · cases heffect

/-- A claimed row that is free again has outlived its lease. -/
theorem lease_over_of_claim {c : Change Delivery QueueOp} {now : Instant} (hc : Legal settings c)
    (hclaim : c.op.isClaim = true) (hfree : c.after.FreeAt now) :
    c.op.now + settings.lease ≤ now := by
  obtain ⟨op, before, after⟩ := c
  have heffect : op.effect settings before = some after := hc.2
  cases op with
  | claim workerId limit at_ =>
      cases heffect
      rcases hfree with ⟨hpending, _⟩ | ⟨_, lease, hlease, hle⟩
      · cases hpending
      · obtain rfl := Option.some.inj hlease
        exact hle
  | success | failure | requeue => cases hclaim

/-- A row left free by something else than a claim was freed by it: a success
leaves no row free. -/
theorem frees_of_other {c : Change Delivery QueueOp} {now : Instant} (hc : Legal settings c)
    (hother : c.op.isClaim = false) (hfree : c.after.FreeAt now) : Frees now c := by
  obtain ⟨op, before, after⟩ := c
  have heffect : op.effect settings before = some after := hc.2
  cases op with
  | claim => cases hother
  | success id result at_ =>
      cases heffect
      rcases hfree with ⟨hpending, _⟩ | ⟨hflight, _⟩
      · cases hpending
      · cases hflight
  | failure id workerId result lastError exhausted delay at_ =>
      cases heffect
      rcases hfree with hpending | ⟨hflight, _⟩
      · exact hpending
      · rw [Life.failedRow_status] at hflight
        split at hflight <;> cases hflight
  | requeue => trivial

/-- A row claimed again and again, with no other change: each lease is over
before the next claim, so the first is over before the last. -/
theorem lease_over_of_claims {latest : Option Delivery}
    {newer between older : List (Change Delivery QueueOp)} {c₁ c₂ : Change Delivery QueueOp}
    (hlinked : Linked latest (newer ++ c₂ :: (between ++ c₁ :: older)))
    (hc₁ : Legal settings c₁) (hclaim₁ : c₁.op.isClaim = true)
    (hfree : c₂.before.FreeAt c₂.op.now)
    (hclaims : ∀ c ∈ between, Legal settings c ∧ c.op.isClaim = true ∧ c.before.FreeAt c.op.now) :
    c₁.op.now + settings.lease ≤ c₂.op.now := by
  -- from the newest claim down; the chain hands each claim what the one before it left
  induction between generalizing newer c₂ with
  | nil =>
      rw [hlinked.adjacent] at hfree
      exact lease_over_of_claim hc₁ hclaim₁ hfree
  | cons c rest ih =>
      obtain ⟨hc, hclaim, hcfree⟩ := hclaims c List.mem_cons_self
      rw [hlinked.adjacent] at hfree
      have hrest : Linked latest ((newer ++ [c₂]) ++ c :: (rest ++ c₁ :: older)) := by
        rw [List.append_assoc]
        exact hlinked
      have hfirst : c₁.op.now + settings.lease ≤ c.op.now :=
        ih hrest hcfree fun c' hc' => hclaims c' (List.mem_cons_of_mem _ hc')
      calc c₁.op.now + settings.lease
          ≤ c.op.now := hfirst
        _ ≤ c.op.now + settings.lease := le_add_of_nonneg_right settings.lease_nonneg
        _ ≤ c₂.op.now := lease_over_of_claim hc hclaim hfree

end Chain

/-! ## Every run -/

section Runs

variable {settings : Settings} {ι : Type} [DecidableEq ι] {s : State Delivery.id QueueOp ι}

theorem legal_of_mem (h : ((queueLocks settings).machine ι).Reachable s)
    {c : Change Delivery QueueOp} (hc : c ∈ s.history) : Legal settings c :=
  (RowLocks.inv_of_reachable h).legal c hc

theorem rows_wellShaped (h : ((queueLocks settings).machine ι).Reachable s) :
    (∀ d ∈ s.committed.rows, d.WellShaped) ∧ ∀ c ∈ s.history, c.before.WellShaped ∧
      c.after.WellShaped :=
  forall_rows h (fun _ ⟨_, _, _, _, hd⟩ => hd ▸ newDelivery_wellShaped _ _ _ _)
    fun _ _ _ => wellShaped_change

theorem freeAt_of_cond {op : QueueOp} {d : Delivery} (hclaim : op.isClaim = true)
    (hshape : d.WellShaped) (hcond : op.cond d = true) : d.FreeAt op.now := by
  cases op with
  | claim workerId limit now => exact (due_iff_of_wellShaped hshape).mp hcond
  | success | failure | requeue => cases hclaim

theorem claim_free (h : ((queueLocks settings).machine ι).Reachable s)
    {c : Change Delivery QueueOp} (hc : c ∈ s.history) (hclaim : c.op.isClaim = true) :
    c.before.FreeAt c.op.now :=
  freeAt_of_cond hclaim ((rows_wellShaped h).2 c hc).1 (legal_of_mem h hc).1

section Twice

variable {c₁ c₂ : Change Delivery QueueOp} {between : List (Change Delivery QueueOp)}

theorem ClaimedTwice.linked (htwice : ClaimedTwice s.history c₁ c₂ between)
    (h : ((queueLocks settings).machine ι).Reachable s) :
    ∃ newer older, Linked (s.committed.get? c₁.before.id)
      (newer ++ c₂ :: (changesOf Delivery.id c₁.before.id between ++ c₁ :: older)) := by
  obtain ⟨newer, older, hsplit⟩ := htwice.split
  exact linked_between h hsplit htwice.sameDelivery

theorem freed_between (h : ((queueLocks settings).machine ι).Reachable s)
    (htwice : ClaimedTwice s.history c₁ c₂ between)
    (hnone : ∀ c ∈ between, c.before.id = c₁.before.id → c.op.isClaim = false) :
    c₁.op.now + settings.lease ≤ c₂.op.now ∨
      ∃ c ∈ between, c.before.id = c₁.before.id ∧ Frees c₂.op.now c := by
  have hsub := htwice.subset
  have hfree : c₂.before.FreeAt c₂.op.now := claim_free h (hsub (by simp)) htwice.isClaim₂
  obtain ⟨newer, older, hlinked⟩ := htwice.linked h
  cases hbetween : changesOf Delivery.id c₁.before.id between with
  | nil =>
      rw [hbetween, List.nil_append] at hlinked
      rw [hlinked.adjacent] at hfree
      exact Or.inl
        (lease_over_of_claim (legal_of_mem h (hsub (by simp))) htwice.isClaim₁ hfree)
  | cons c rest =>
      -- the last change before the second claim decides
      have hc : c ∈ changesOf Delivery.id c₁.before.id between := hbetween ▸ List.mem_cons_self
      obtain ⟨hmem, hid⟩ := List.mem_filter.mp hc
      have hid : c.before.id = c₁.before.id := of_decide_eq_true hid
      rw [hbetween, List.cons_append] at hlinked
      rw [hlinked.adjacent] at hfree
      have hlegal : Legal settings c := legal_of_mem h (hsub (by simp [hmem]))
      exact Or.inr ⟨c, hmem, hid, frees_of_other hlegal (hnone c hmem hid) hfree⟩

theorem disjoint_leases (h : ((queueLocks settings).machine ι).Reachable s)
    (htwice : ClaimedTwice s.history c₁ c₂ between) :
    c₁.op.now + settings.lease ≤ c₂.op.now ∨
      ∃ c ∈ between, c.before.id = c₁.before.id ∧ c.op.isClaim = false := by
  have hsub := htwice.subset
  by_cases hother : ∃ c ∈ between, c.before.id = c₁.before.id ∧ c.op.isClaim = false
  · exact Or.inr hother
  · left
    obtain ⟨newer, older, hlinked⟩ := htwice.linked h
    apply lease_over_of_claims hlinked (legal_of_mem h (hsub (by simp))) htwice.isClaim₁
      (claim_free h (hsub (by simp)) htwice.isClaim₂)
    intro c hc
    obtain ⟨hmem, hid⟩ := List.mem_filter.mp hc
    have hhist : c ∈ s.history := hsub (by simp [hmem])
    have hclaim : c.op.isClaim = true := by
      by_contra hnot
      exact hother ⟨c, hmem, of_decide_eq_true hid, by simpa using hnot⟩
    exact ⟨legal_of_mem h hhist, hclaim, claim_free h hhist hclaim⟩

end Twice

/-- Claims are exclusive and take due work only, however the transactions of
any number of workers, recorders and requeues overlap. -/
theorem claims_exclusive (h : ((queueLocks settings).machine ι).Reachable s) :
    Exclusive settings s where
  picked_free i tx htx hclaim d hd := by
    obtain ⟨hcur, hcond⟩ := taken_current h htx hd
    have hshape := (rows_wellShaped h).1 d (Table.mem_of_get? hcur)
    exact ⟨hcur, freeAt_of_cond hclaim hshape hcond⟩
  claimed_free _ hc hclaim := claim_free h hc hclaim
  freed _ _ _ htwice hnone := freed_between h htwice hnone
  disjoint _ _ _ htwice := disjoint_leases h htwice

end Runs

namespace Exclusive

/-- A claim that meets no other transaction. -/
def loneClaim (settings : Settings) (workerId : WorkerId) (limit : ℕ) (now : Instant)
    (s : State Delivery.id QueueOp ℕ) : State Delivery.id QueueOp ℕ :=
  let D := queueLocks settings
  let op := QueueOp.claim workerId limit now
  let taken := s.committed.lockRows (fun _ => false) (D.recheck op) (D.limit op)
    ((ClaimCall.unlocked settings workerId limit now s.committed).order.map RankedRow.id)
  ⟨s.committed.update (D.rewrite op taken) (D.key_rewrite op taken), s.txs,
    D.changes op taken ++ s.history⟩

theorem loneClaim_reachable {settings : Settings} {s : State Delivery.id QueueOp ℕ}
    (workerId : WorkerId) (limit : ℕ) (now : Instant)
    (h : ((queueLocks settings).machine ℕ).Reachable s) (hidle : ∀ j, s.txs j = none) :
    ((queueLocks settings).machine ℕ).Reachable (loneClaim settings workerId limit now s) :=
  reachable_alone h hidle 0 (.claim (ClaimCall.unlocked_valid settings workerId limit now _)) rfl

/-- One delivery of an accepted lead. -/
def accepted : State Delivery.id QueueOp ℕ :=
  ⟨⟨[newDelivery 0 0 Move.first
      ⟨none, ⟨.ofString "https://a.example/hook", by decide⟩,
        ⟨.ofString "https://a.example", by decide⟩⟩], by simp⟩,
    fun _ => none, []⟩

theorem accepted_reachable : ((queueLocks .default).machine ℕ).Reachable accepted :=
  .step (.init rfl) trivial (.insert ⟨0, 0, Move.first, _, rfl⟩ rfl)

end Exclusive

/-- Worker B takes the delivery over when A's lease ends. -/
theorem claims_exclusive_takenOver :
    ∃ s : State Delivery.id QueueOp ℕ, ((queueLocks .default).machine ℕ).Reachable s ∧
      s.history.map (fun c => (c.op.isClaim, c.before.id)) =
        [(true, Move.first), (true, Move.first)] ∧ Exclusive .default s := by
  have hs := Exclusive.loneClaim_reachable Move.workerB 1 Settings.default.lease
    (Exclusive.loneClaim_reachable Move.workerA 1 0 Exclusive.accepted_reachable fun _ => rfl)
    fun _ => rfl
  exact ⟨_, hs, by decide +kernel, claims_exclusive hs⟩

end LeadQueue
