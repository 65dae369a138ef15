import LeadQueue.Guarantees.JournalHistory

/-!
# Delivered is final

No claim, no late result, no repeated intake and no manual retry without the
opt-in takes a delivery out of `delivered`; and a delivered row always has a
success in the journal.
-/

namespace LeadQueue

open Relational Transition

namespace Life

/-- No requeue of a delivered row. -/
def KeepsDelivered (l : Life) : Event → Prop
  | .requeue _ => l.row.status ≠ .delivered
  | _ => True

theorem not_due_of_delivered {now : Instant} {row : Delivery} (h : row.status = .delivered) :
    row.due now = false := by
  simp [Delivery.due, Delivery.unresolved, h]

/-- A failure neither finds a delivered row in flight nor makes one. -/
theorem failureRow_delivered_iff {settings : Settings} {c : Claim} {result : AttemptResult}
    {lastError : Option PgText} {delay : Duration} {now : Instant} {row : Delivery} :
    (failureRow settings c result lastError delay now row).status = .delivered ↔
      row.status = .delivered := by
  rcases failureRow_cases with ⟨_, hflight, heq⟩ | ⟨_, heq⟩
  · rw [heq, failedRow_status, hflight]
    split <;> simp
  · rw [heq]

theorem Step.delivered {settings : Settings} {l l' : Life} {d : Event}
    (hstep : Step settings l d l') (hok : l.KeepsDelivered d) (h : l.row.status = .delivered) :
    l'.row.status = .delivered := by
  cases hstep with
  | advance _ => exact h
  | claim _ hdue _ =>
      rw [not_due_of_delivered h] at hdue
      cases hdue
  | success _ _ _ _ _ => exact successRow_status _ _ _
  | failure _ _ _ _ _ _ _ => exact failureRow_delivered_iff.mpr h
  | requeue _ _ => exact absurd h hok

/-- A delivered row has a success in the journal. -/
def Proven (l : Life) : Prop :=
  l.row.status = .delivered → ∃ n a, l.journal n = some a ∧ a.outcome = .success

theorem Proven.step {settings : Settings} {l l' : Life} {d : Event} (h : l.Proven)
    (hinv : l.Inv settings) (hstep : Step settings l d l') : l'.Proven := by
  intro hdelivered
  -- a success that was there before the step is still there
  have hkeep : (∃ n a, l.journal n = some a ∧ a.outcome = .success) →
      ∃ n a, l'.journal n = some a ∧ a.outcome = .success := by
    rintro ⟨n, a, ha, hout⟩
    refine ⟨n, a, (Step.journal hinv hstep ha).resolve_right ?_, hout⟩
    rintro ⟨hunknown, _⟩
    rw [hout] at hunknown
    cases hunknown
  cases hstep with
  | advance _ => exact hkeep (h hdelivered)
  | claim _ _ _ => cases hdelivered
  | @success n _ _ _ _ _ _ _ hnone _ hs _ =>
      refine ⟨n, _, if_pos rfl, ?_⟩
      rw [(journalAfter_reports fun a ha => hinv.unrecorded hnone ha).outcome, if_pos hs]
  | failure _ _ _ _ _ _ _ => exact hkeep (h (failureRow_delivered_iff.mp hdelivered))
  | requeue _ _ => cases hdelivered

end Life

theorem delivered_later {settings : Settings} {l l' : Life}
    (h : (life settings).LaterBy Life.KeepsDelivered l l') (hdel : l.row.status = .delivered) :
    l'.row.status = .delivered := by
  induction h with
  | refl => exact hdel
  | step _ hok hstep ih => exact Life.Step.delivered hstep hok ih

theorem proven_of_reachable {settings : Settings} {l : Life} (h : (life settings).Reachable l) :
    l.Proven := by
  refine h.invariant (fun l hstarts => ?_)
    fun _ _ _ hs hproven _ hstep => hproven.step (life_inv hs) hstep
  obtain ⟨_, _, _, _, _, hrow, _⟩ := hstarts
  intro hdelivered
  rw [hrow] at hdelivered
  cases hdelivered

/-! ## Manual retries without the opt-in -/

/-- The event is no manual retry that asks for delivered rows. -/
def Event.NoOptIn : Event → Prop
  | .requeueRequest _ _ _ includeDelivered => includeDelivered = false
  | .requeueBulk _ filter _ => .delivered ∉ filter.statuses
  | _ => True

instance Event.decidableNoOptIn (e : Event) : Decidable e.NoOptIn :=
  match e with
  | .requeueRequest _ _ _ includeDelivered => decEq includeDelivered false
  | .requeueBulk _ filter _ =>
      inferInstanceAs (Decidable (DeliveryStatus.delivered ∉ filter.statuses))
  | .advance _ | .accept _ _ | .attach _ _ _ | .claim _ | .record _ _ _ _ _ => .isTrue trivial

theorem not_delivered_of_requeueRequest {s : Service} {call : RequeueScan} {requestId : RequestId}
    {recipients : Option (List PyStr)} {id : DeliveryId}
    (h : id ∈ s.requeuedIds (.requeueRequest call requestId recipients false)) :
    ∃ d, s.db.deliveries.get? id = some d ∧ d.status ≠ .delivered := by
  simp only [Service.requeuedIds] at h
  split at h
  · rename_i db outcome heq
    obtain ⟨named, _, hspec⟩ := requeueRequest_spec heq
    rw [show outcome = _ from congrArg Prod.snd hspec] at h
    obtain ⟨d, hd, _, _, hclass⟩ := mem_requeuedIds h
    exact ⟨d, hd, fun hdel => (classify_eq_requeue_iff.mp hclass).2 ⟨hdel, rfl⟩⟩
  · cases h

/-- The status filter is checked again on the version that was locked. -/
theorem status_of_requeueBulk {s : Service} {call : RequeueScan} {filter : BulkFilter} {limit : ℕ}
    {id : DeliveryId} (h : id ∈ s.requeuedIds (.requeueBulk call filter limit)) :
    ∃ d, s.db.deliveries.get? id = some d ∧ d.status ∈ filter.statuses := by
  simp only [Service.requeuedIds] at h
  split at h
  · rename_i db outcome heq
    rw [show outcome = _ from congrArg Prod.snd (requeueBulk_spec heq)] at h
    obtain ⟨d, hd, hwhere, _, _⟩ := mem_requeuedIds h
    simp only [bulkWhere, Bool.and_eq_true] at hwhere
    exact ⟨d, hd, List.contains_iff_mem.mp hwhere.1.1.1.1⟩
  · cases h

theorem keepsDelivered_of_noOptIn {s : Service} {e : Event} (h : e.NoOptIn) :
    Service.Everywhere Life.KeepsDelivered s e := by
  intro id x hx d hd
  obtain ⟨_, hrow, _⟩ := Service.parts_of_life hx
  have hother : (∃ row, s.db.deliveries.get? id = some row ∧ row.status ≠ .delivered) →
      x.row.status ≠ .delivered := by
    rintro ⟨row, hget, hne⟩
    obtain rfl : x.row = row := Option.some.inj (hrow.symm.trans hget)
    exact hne
  cases e with
  | requeueRequest call requestId recipients includeDelivered =>
      obtain rfl : includeDelivered = false := h
      simp only [Service.acts, Option.mem_def] at hd
      split at hd
      · rename_i hmem
        cases hd
        exact hother (not_delivered_of_requeueRequest hmem)
      · cases hd
  | requeueBulk call filter limit =>
      simp only [Service.acts, Option.mem_def] at hd
      split at hd
      · rename_i hmem
        cases hd
        obtain ⟨row, hget, hstatus⟩ := status_of_requeueBulk hmem
        exact hother ⟨row, hget, fun hdel => h (hdel ▸ hstatus)⟩
      · cases hd
  | claim call =>
      simp only [Service.acts, Option.mem_def] at hd
      split at hd <;> cases hd
      trivial
  | record id' n result draw now =>
      simp only [Service.acts, Option.mem_def] at hd
      split at hd <;> cases hd
      trivial
  | advance time =>
      cases hd
      trivial
  | accept gen req => cases hd
  | attach gen requestId recipients => cases hd

/-! ## The service -/

/-- What a success leaves behind. -/
theorem delivered_of_success {settings : Settings} {s t : Service} {id : DeliveryId} {n : ℕ}
    {result : AttemptResult} {draw : Draw} {now : Instant} (hs : (service settings).Reachable s)
    (hstep : Service.step settings s (.record id n result draw now) = some t)
    (hsuccess : result.succeeded = true) :
    ∃ x, t.life id = some x ∧ x.row.status = .delivered := by
  obtain ⟨_, _, c, db, hc, hrec, rfl⟩ := Service.step_record.mp hstep
  obtain ⟨_, hcid, _⟩ := Service.claim?_eq_some hc
  cases hrow : s.db.deliveries.get? id with
  | none =>
      have hfree := (Service.tidy_of_reachable hs id hrow n).1
      rw [hc] at hfree
      cases hfree
  | some row =>
      obtain ⟨entry, hspec⟩ := recordResult_success hsuccess hrec
      have hget := hspec.deliveries id
      rw [hrow, Option.map_some] at hget
      refine ⟨_, Service.life_eq_some_iff.mpr ⟨_, hget, rfl⟩, ?_⟩
      show (if undelivered c.delivery.deliveryId row then _ else row).status = .delivered
      split
      · rfl
      · rename_i hnot
        rw [undelivered_iff, hcid, Table.key_of_get? hrow] at hnot
        by_contra hne
        exact hnot ⟨rfl, hne⟩

/-- No claim returns a delivered row. -/
theorem notMem_claimed_of_delivered {settings : Settings} {call : ClaimCall} {db db' : Database}
    {claimed : List ClaimedDelivery} {id : DeliveryId} {row : Delivery}
    (hrow : db.deliveries.get? id = some row) (hdel : row.status = .delivered)
    (hclaim : claimBatch settings call db = .ok (db', claimed)) :
    id ∉ claimed.map ClaimedDelivery.deliveryId := by
  obtain ⟨lost, hspec⟩ := claimBatch_spec hclaim
  rw [hspec.returned, List.map_map]
  intro hmem
  obtain ⟨cr, hcr, rfl⟩ := List.mem_map.mp hmem
  obtain ⟨hget, _, _, hdue⟩ := mem_picked (mem_claimedRows.mp hcr).1
  obtain rfl : cr.prev = row := Option.some.inj (hget.symm.trans hrow)
  rw [Life.not_due_of_delivered hdel] at hdue
  cases hdue

/-- Once a success is committed the delivery stays delivered, and no claim
returns it, until someone opts in; and in every reachable state a delivered row
has a success in the journal. -/
theorem delivered_is_final (settings : Settings) :
    (∀ s t u id n result draw now, (service settings).Reachable s →
      Service.step settings s (.record id n result draw now) = some t → result.succeeded = true →
      (service settings).LaterBy (fun _ e => e.NoOptIn) t u →
      (∃ row, u.db.deliveries.get? id = some row ∧ row.status = .delivered) ∧
      ∀ call db claimed, claimBatch settings call u.db = .ok (db, claimed) →
        id ∉ claimed.map ClaimedDelivery.deliveryId) ∧
    (∀ s, (service settings).Reachable s → ∀ row ∈ s.db.deliveries.rows,
      row.status = .delivered → ∃ a ∈ s.db.deliveryAttempts.rows,
        a.deliveryId = row.id ∧ a.outcome = .success) := by
  constructor
  · intro s t u id n result draw now hs hstep hsuccess htu
    have ht : (service settings).Reachable t := .step hs trivial hstep
    obtain ⟨x, hx, hdel⟩ := delivered_of_success hs hstep hsuccess
    obtain ⟨y, hy, hxy⟩ := life_later ht (htu.mono fun _ _ hok => keepsDelivered_of_noOptIn hok) hx
    obtain ⟨_, hrow, _⟩ := Service.parts_of_life hy
    have hfinal := delivered_later hxy hdel
    exact ⟨⟨y.row, hrow, hfinal⟩,
      fun call db claimed hclaim => notMem_claimed_of_delivered hrow hfinal hclaim⟩
  · intro s hs row hrow hdel
    have hx := Service.life_eq_some_iff.mpr ⟨row, Table.get?_of_mem hrow, rfl⟩
    obtain ⟨n, a, ha, hout⟩ := proven_of_reachable (life_of_reachable hs hx) hdel
    obtain ⟨hmem, hkey⟩ := Table.get?_eq_some_iff.mp ha
    exact ⟨a, hmem, congrArg Prod.fst hkey, hout⟩

/-- A confirmed delivery outlasts a retry without the opt-in and the next claim. -/
theorem delivered_is_final_afterRetry :
    ∃ u row, (service .default).Reachable u ∧ u.db.deliveries.get? Move.first = some row ∧
      row.status = .delivered ∧ ∃ a ∈ u.db.deliveryAttempts.rows,
        a.deliveryId = row.id ∧ a.outcome = .success := by
  obtain ⟨s, hs, hp⟩ := exists_reachable_of_moves .default
    [Move.accept 0 Move.lead, Move.claim .default Move.workerA 1]
    (fun s => (Service.step .default s (Move.record Move.first 1 Move.confirmed s)).any fun t =>
      (Machine.play (Service.step .default) (fun _ e => e.NoOptIn) t
        [Move.requeue 0 false, Move.advance 100000000, Move.claim .default Move.workerB 1]).isSome)
    (by decide +kernel)
  obtain ⟨t, ht, hlater⟩ := (Option.any_eq_true _ _).mp hp
  obtain ⟨u, hu⟩ := Option.isSome_iff_exists.mp hlater
  have htu : (service .default).LaterBy (fun _ e => e.NoOptIn) t u :=
    Machine.laterBy_of_play .refl hu
  have hreach : (service .default).Reachable u := htu.reachable (.step hs trivial ht)
  obtain ⟨⟨row, hrow, hdel⟩, _⟩ :=
    (delivered_is_final .default).1 s t u _ _ _ _ _ hs ht rfl htu
  exact ⟨u, row, hreach, hrow, hdel,
    (delivered_is_final .default).2 u hreach row (Table.mem_of_get? hrow) hdel⟩

end LeadQueue
