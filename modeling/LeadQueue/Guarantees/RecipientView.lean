import LeadQueue.Guarantees.OneCopy
import LeadQueue.Intake.Constraints
import LeadQueue.Sender

/-!
# What a recipient can tell from the headers

The Idempotency-Key is the delivery's id, and a delivery is one (lead, URL)
pair; the attempt number of its claims counts up from 1 and is never reset. So
the two headers together name an HTTP attempt.
-/

namespace LeadQueue

open Relational Transition

/-- The value of a header. -/
def headerValue (name : String) (headers : List (String × PyStr)) : Option PyStr :=
  headers.lookup name

theorem headerValue_idempotencyKey (claim : ClaimedDelivery) (settings : Settings) :
    headerValue "Idempotency-Key" (buildHeaders claim settings) = some claim.deliveryId.str := rfl

theorem headerValue_attempt (claim : ClaimedDelivery) (settings : Settings) :
    headerValue "X-Intake-Attempt" (buildHeaders claim settings) =
      some (.ofNat claim.attemptNumber) := rfl

/-! ## The numbers of a delivery's claims -/

/-- The claims of one delivery, in the order they were made. -/
def Service.claimsOf (s : Service) (id : DeliveryId) : List Claim :=
  s.claims.filter fun c => c.delivery.deliveryId = id

/-- Among distinct keys a key selects one element. -/
theorem filter_key_eq_singleton {α β : Type} [DecidableEq β] {key : α → β} {xs : List α}
    (hnodup : (xs.map key).Nodup) {x : α} (hx : x ∈ xs) :
    xs.filter (fun y => decide (key y = key x)) = [x] := by
  induction xs with
  | nil => cases hx
  | cons y ys ih =>
      rw [List.map_cons, List.nodup_cons] at hnodup
      rcases List.mem_cons.mp hx with rfl | hmem
      · rw [List.filter_cons_of_pos (by simp)]
        congr 1
        refine List.filter_eq_nil_iff.mpr fun z hz heq => hnodup.1 ?_
        exact of_decide_eq_true heq ▸ List.mem_map.mpr ⟨z, hz, rfl⟩
      · rw [List.filter_cons_of_neg, ih hnodup.2 hmem]
        intro heq
        exact hnodup.1 (of_decide_eq_true heq ▸ List.mem_map.mpr ⟨x, hmem, rfl⟩)

theorem newClaims_map_deliveryId (settings : Settings) (call : ClaimCall) (rows : List ClaimedRow) :
    (newClaims settings call (rows.map toClaimed)).map (fun c => c.delivery.deliveryId) =
      rows.map fun row => row.prev.id := by
  simp [newClaims, toClaimed, Function.comp_def]

/-- One call adds nothing to the claims of a delivery, or its next claim. -/
theorem filter_newClaims {settings : Settings} {call : ClaimCall} {db : Database}
    (hvalid : call.Valid settings) (id : DeliveryId) :
    (newClaims settings call ((claimedRows call db).map toClaimed)).filter
        (fun c => decide (c.delivery.deliveryId = id)) = [] ∨
      ∃ row c, db.deliveries.get? id = some row ∧ c.attemptNumber = row.totalAttempts + 1 ∧
        (newClaims settings call ((claimedRows call db).map toClaimed)).filter
          (fun c => decide (c.delivery.deliveryId = id)) = [c] := by
  by_cases hmem : id ∈ (claimedRows call db).map fun row => row.prev.id
  · obtain ⟨cr, hcr, rfl⟩ := List.mem_map.mp hmem
    have hget := (mem_picked (mem_claimedRows.mp hcr).1).1
    have hnodup := claimedRows_nodup hvalid db
    rw [← newClaims_map_deliveryId settings call] at hnodup
    exact Or.inr ⟨cr.prev, _, hget, rfl,
      filter_key_eq_singleton hnodup (Service.mem_newClaims.mpr ⟨cr, hcr, rfl⟩)⟩
  · refine Or.inl (List.filter_eq_nil_iff.mpr fun c hc hid => hmem ?_)
    rw [← newClaims_map_deliveryId settings call]
    exact List.mem_map.mpr ⟨c, hc, of_decide_eq_true hid⟩

/-- As many claims as attempts. -/
theorem length_claimsOf {settings : Settings} {s : Service} (hs : (service settings).Reachable s)
    {id : DeliveryId} {row : Delivery} (hrow : s.db.deliveries.get? id = some row)
    (hnumbers : (s.claimsOf id).map Claim.attemptNumber =
      List.range' 1 (s.claimsOf id).length) : (s.claimsOf id).length = row.totalAttempts := by
  have hx := Service.life_eq_some_iff.mpr ⟨row, hrow, rfl⟩
  have hiff : ∀ n, n ∈ (s.claimsOf id).map Claim.attemptNumber ↔
      1 ≤ n ∧ n ≤ row.totalAttempts := by
    intro n
    rw [← (inv_of_reachable hs hx).claims_iff n, Option.isSome_iff_exists]
    constructor
    · intro hn
      obtain ⟨c, hc, rfl⟩ := List.mem_map.mp hn
      obtain ⟨hmem, hid⟩ := List.mem_filter.mp hc
      exact ⟨c, of_decide_eq_true hid ▸ claim?_of_mem hs hmem⟩
    · rintro ⟨c, hc⟩
      obtain ⟨hmem, hid, hn⟩ := Service.claim?_eq_some hc
      exact List.mem_map.mpr ⟨c, List.mem_filter.mpr ⟨hmem, decide_eq_true hid⟩, hn⟩
  rw [hnumbers] at hiff
  simp only [List.mem_range'_1] at hiff
  have hlen := hiff (s.claimsOf id).length
  have htotal := hiff row.totalAttempts
  omega

/-- The claims of a delivery are numbered 1, 2, 3, ... in their order. -/
theorem claimsOf_numbers {settings : Settings} {s : Service} (h : (service settings).Reachable s)
    (id : DeliveryId) :
    (s.claimsOf id).map Claim.attemptNumber = List.range' 1 (s.claimsOf id).length := by
  induction h with
  | init h0 =>
      obtain ⟨clock, rfl⟩ := h0
      rfl
  | @step s t e hs _ hstep ih =>
      rcases Service.step_claims hstep with hsame | ⟨call, db, claimed, _, hvalid, hclaim, happend⟩
      · unfold Service.claimsOf at ih ⊢
        rw [hsame]
        exact ih
      · obtain ⟨lost, hspec⟩ := claimBatch_spec hclaim
        obtain rfl := hspec.returned
        have hof : t.claimsOf id = s.claimsOf id ++ _ :=
          (congrArg (List.filter _) happend).trans (List.filter_append _ _)
        rcases @filter_newClaims settings call s.db hvalid id with hnil | ⟨row, c, hrow, hn, hone⟩
        · rw [hof, hnil, List.append_nil]
          exact ih
        · rw [hof, hone, List.map_append, List.length_append, ih, List.range'_append_1.symm]
          simp [hn, length_claimsOf hs hrow ih, Nat.add_comm]

/-! ## HTTP attempts -/

namespace Wire

/-- The claims that were sent: one for each HTTP attempt. -/
def sent (w : Wire) : List ClaimedDelivery :=
  w.started.filterMap fun k => (w.service.claim? k.1 k.2).map Claim.delivery

/-- An attempt is started once, for a claim. -/
structure Started (w : Wire) : Prop where
  nodup : w.started.Nodup
  claimed : ∀ k ∈ w.started, ∃ c, w.service.claim? k.1 k.2 = some c

theorem Started.step {settings : Settings} {w w' : Wire} {e : WireEvent} (h : w.Started)
    (hstep : Wire.step settings w e = some w') : w'.Started := by
  cases e with
  | queue e =>
      obtain ⟨_, s, hs, rfl⟩ := step_queue hstep
      refine ⟨h.nodup, fun k hk => ?_⟩
      obtain ⟨c, hc⟩ := h.claimed k hk
      exact ⟨c, Service.step_claim?_mono hs hc⟩
  | start id n =>
      simp only [Wire.step] at hstep
      split at hstep
      · rename_i hguard
        cases hstep
        refine ⟨List.nodup_cons.mpr ⟨hguard.2, h.nodup⟩, ?_⟩
        exact List.forall_mem_cons.mpr ⟨Option.isSome_iff_exists.mp hguard.1, h.claimed⟩
      · cases hstep
  | finish id n =>
      cases hstep
      exact ⟨h.nodup, h.claimed⟩
  | crash workerId =>
      cases hstep
      exact ⟨h.nodup, h.claimed⟩

/-- The attempts, read off the claims that were sent. -/
theorem Started.map_sent {w : Wire} (h : w.Started) :
    w.sent.map (fun c => (c.deliveryId, c.attemptNumber)) = w.started := by
  apply map_filterMap_of_forall
  intro k hk
  obtain ⟨c, hc⟩ := h.claimed k hk
  obtain ⟨_, hid, hn⟩ := Service.claim?_eq_some hc
  exact ⟨c.delivery, by rw [hc]; rfl, Prod.ext hid hn⟩

end Wire

theorem wire_started {settings : Settings} {w : Wire} (h : (wire settings).Reachable w) :
    w.Started := by
  induction h with
  | init h0 =>
      obtain ⟨clock, rfl⟩ := h0
      exact ⟨List.nodup_nil, by simp⟩
  | step _ _ hst ih => exact ih.step hst

/-- The service beneath any run of the wire. -/
theorem reachable_of_wire {settings : Settings} {w : Wire} (h : (wire settings).Reachable w) :
    (service settings).Reachable w.service := by
  induction h with
  | init h0 =>
      obtain ⟨clock, rfl⟩ := h0
      exact .init ⟨clock, rfl⟩
  | @step w w' e _ _ hst ih =>
      cases e with
      | queue e =>
          obtain ⟨_, s, hs, rfl⟩ := Wire.step_queue hst
          exact .step ih trivial hs
      | start id n =>
          simp only [wire, Machine.ofFun, Wire.step] at hst
          split at hst <;> cases hst
          exact ih
      | finish id n =>
          cases hst
          exact ih
      | crash workerId =>
          cases hst
          exact ih

/-- The row behind an HTTP attempt. -/
theorem row_of_sent {settings : Settings} {w : Wire} (h : (wire settings).Reachable w)
    {c : ClaimedDelivery} (hc : c ∈ w.sent) :
    ∃ row ∈ w.service.db.deliveries.rows, c.deliveryId = row.id ∧
      c.requestId = row.requestId ∧ c.recipientUrl = row.recipientUrl := by
  obtain ⟨k, _, hk⟩ := List.mem_filterMap.mp hc
  obtain ⟨claim, hclaim, rfl⟩ := Option.map_eq_some_iff.mp hk
  have hs := reachable_of_wire h
  cases hrow : w.service.db.deliveries.get? k.1 with
  | none =>
      have hfree := (Service.tidy_of_reachable hs k.1 hrow k.2).1
      rw [hclaim] at hfree
      cases hfree
  | some row =>
      have hfits := (inv_of_reachable hs (Service.life_eq_some_iff.mpr ⟨row, hrow, rfl⟩)).fits
        k.2 claim hclaim
      exact ⟨row, Table.mem_of_get? hrow, hfits.deliveryId, hfits.requestId, hfits.recipientUrl⟩

/-- Two HTTP attempts carry one Idempotency-Key exactly when they are for one
(lead, URL) pair; the claims of a delivery are numbered 1, 2, 3, ...; and key
and attempt number together name each HTTP attempt. -/
theorem headers_identify_attempts {settings : Settings} {w : Wire}
    (h : (wire settings).Reachable w) :
    (∀ c ∈ w.sent, ∀ c' ∈ w.sent,
      headerValue "Idempotency-Key" (buildHeaders c settings) =
          headerValue "Idempotency-Key" (buildHeaders c' settings) ↔
        c.requestId = c'.requestId ∧ c.recipientUrl = c'.recipientUrl) ∧
    (∀ id, (w.service.claimsOf id).map Claim.attemptNumber =
      List.range' 1 (w.service.claimsOf id).length) ∧
    w.sent.map (fun c => (c.deliveryId, c.attemptNumber)) = w.started ∧
    (w.sent.map fun c => (headerValue "Idempotency-Key" (buildHeaders c settings),
      headerValue "X-Intake-Attempt" (buildHeaders c settings))).Nodup := by
  have hs := reachable_of_wire h
  have hstarted := wire_started h
  refine ⟨?_, claimsOf_numbers hs, hstarted.map_sent, ?_⟩
  · intro c hc c' hc'
    obtain ⟨row, hrow, hid, hrequest, hurl⟩ := row_of_sent h hc
    obtain ⟨row', hrow', hid', hrequest', hurl'⟩ := row_of_sent h hc'
    rw [headerValue_idempotencyKey, headerValue_idempotencyKey, Option.some.injEq,
      Uuid.str_injective.eq_iff, hid, hid', hrequest, hrequest', hurl, hurl']
    constructor
    · intro hsame
      obtain rfl : row = row' := Table.eq_of_key_eq hrow hrow' hsame
      exact ⟨rfl, rfl⟩
    · rintro ⟨hlead, htarget⟩
      rw [(constrained_of_reachable hs).targets row hrow row' hrow' hlead htarget]
  · have hmap : w.sent.map (fun c => (headerValue "Idempotency-Key" (buildHeaders c settings),
          headerValue "X-Intake-Attempt" (buildHeaders c settings))) =
        w.started.map fun k => (some k.1.str, some (PyStr.ofNat k.2)) := by
      rw [← hstarted.map_sent, List.map_map]
      apply List.map_congr_left
      intro c _
      rw [headerValue_idempotencyKey, headerValue_attempt]
      rfl
    rw [hmap]
    apply hstarted.nodup.map
    intro k k' hk
    obtain ⟨hfst, hsnd⟩ := Prod.mk.inj hk
    exact Prod.ext (Uuid.str_injective (Option.some.inj hfst))
      (PyStr.ofNat_injective (Option.some.inj hsnd))

/-- Two attempts of one delivery: one key, two numbers. -/
theorem headers_identify_attempts_sentTwice :
    ∃ w, (wire .default).Reachable w ∧ w.sent.length = 2 ∧
      (w.sent.map fun c => (headerValue "Idempotency-Key" (buildHeaders c .default),
        headerValue "X-Intake-Attempt" (buildHeaders c .default))).Nodup := by
  obtain ⟨w, hw, hp⟩ : ∃ w, (wire .default).Reachable w ∧ decide (w.sent.length = 2) = true :=
    @Machine.exists_reachableBy_of_play _ _ _ _ (fun _ _ => True) _ ⟨.empty 0, [], []⟩
      OneCopy.sentTwice _ ⟨0, rfl⟩ (by decide +kernel)
  exact ⟨w, hw, of_decide_eq_true hp, (headers_identify_attempts hw).2.2.2⟩

end LeadQueue
