import LeadQueue.Life.Machine

/-!
# Every service step is a step of each delivery

One lemma for each event says what it does to the part of the state that is
about a delivery. `life_step` collects them, and `lifeProjection` turns them into
a projection, so that an invariant proved for `life` holds of every delivery in
every reachable state of the service.
-/

namespace LeadQueue

open Relational Transition

namespace Service

@[simp] theorem life_eq_none_iff {s : Service} {id : DeliveryId} :
    s.life id = none ↔ s.db.deliveries.get? id = none := by
  simp [life]

theorem life_eq_some_iff {s : Service} {id : DeliveryId} {l : Life} :
    s.life id = some l ↔ ∃ row, s.db.deliveries.get? id = some row ∧
      l = ⟨s.clock, row, s.claim? id, s.result? id,
        fun n => s.db.deliveryAttempts.get? (id, n)⟩ := by
  simp [life, eq_comm]

/-- The parts of a delivery's life, as the service holds them. -/
theorem parts_of_life {s : Service} {id : DeliveryId} {l : Life} (h : s.life id = some l) :
    l.clock = s.clock ∧ s.db.deliveries.get? id = some l.row ∧ l.row.id = id ∧
      l.claims = s.claim? id ∧ l.results = s.result? id ∧
      ∀ n, l.journal n = s.db.deliveryAttempts.get? (id, n) := by
  obtain ⟨row, hrow, rfl⟩ := life_eq_some_iff.mp h
  exact ⟨rfl, hrow, Table.key_of_get? hrow, rfl, rfl, fun _ => rfl⟩

/-! ## Claims -/

/-- The lookup in a list that has at most one candidate. -/
theorem find?_of_unique {α : Type} {p : α → Bool} {xs : List α} {x : α} (hx : x ∈ xs)
    (huniq : ∀ y ∈ xs, p y = true → y = x) : xs.find? p = if p x = true then some x else none := by
  split
  · rename_i hp
    have hsome : (xs.find? p).isSome := List.find?_isSome.mpr ⟨x, hx, hp⟩
    obtain ⟨y, hy⟩ := Option.isSome_iff_exists.mp hsome
    rw [hy, huniq y (List.mem_of_find?_eq_some hy) (List.find?_some hy)]
  · rename_i hp
    refine List.find?_eq_none.mpr fun y hy hpy => hp ?_
    rw [← huniq y hy hpy]
    exact hpy

/-- Two claimed rows of one delivery are the same row. -/
theorem prev_unique {settings : Settings} {call : ClaimCall} {db : Database}
    (hvalid : call.Valid settings) {row row' : ClaimedRow} (h : row ∈ claimedRows call db)
    (h' : row' ∈ claimedRows call db) (hid : row.prev.id = row'.prev.id) : row = row' :=
  List.inj_on_of_nodup_map (claimedRows_nodup hvalid db) h h' hid

theorem mem_newClaims {settings : Settings} {call : ClaimCall} {rows : List ClaimedRow}
    {c : Claim} : c ∈ newClaims settings call (rows.map toClaimed) ↔ ∃ row ∈ rows,
      c = ⟨call.workerId, call.now, call.now + settings.lease, toClaimed row⟩ := by
  simp [newClaims, eq_comm]

theorem find?_newClaims {settings : Settings} {call : ClaimCall} {db : Database}
    (hvalid : call.Valid settings) {row : ClaimedRow} (h : row ∈ claimedRows call db) (n : ℕ) :
    (newClaims settings call ((claimedRows call db).map toClaimed)).find?
        (fun c => c.key = (row.prev.id, n)) =
      if n = row.prev.totalAttempts + 1 then
        some ⟨call.workerId, call.now, call.now + settings.lease, toClaimed row⟩
      else none := by
  rw [find?_of_unique (mem_newClaims.mpr ⟨row, h, rfl⟩)]
  · simp [Claim.key, toClaimed, eq_comm]
  · intro c hc hkey
    obtain ⟨row', hrow', rfl⟩ := mem_newClaims.mp hc
    have hid : row'.prev.id = row.prev.id := congrArg Prod.fst (of_decide_eq_true hkey)
    rw [prev_unique hvalid hrow' h hid]

theorem find?_newClaims_of_notMem {settings : Settings} {call : ClaimCall} {db : Database}
    {id : DeliveryId} (h : id ∉ (claimedRows call db).map fun row => row.prev.id) (n : ℕ) :
    (newClaims settings call ((claimedRows call db).map toClaimed)).find?
      (fun c => c.key = (id, n)) = none := by
  refine List.find?_eq_none.mpr fun c hc hkey => h ?_
  obtain ⟨row, hrow, rfl⟩ := mem_newClaims.mp hc
  exact List.mem_map.mpr ⟨row, hrow, congrArg Prod.fst (of_decide_eq_true hkey)⟩

theorem key_of_lostAttempt {workerId : WorkerId} {now : Instant} {d : Delivery} {a : Attempt}
    (h : lostAttempt workerId now d = .ok a) : a.key = (d.id, d.totalAttempts) := by
  unfold lostAttempt at h
  obtain ⟨ms, _, h⟩ := Fallible.bind_eq_ok_iff.mp h
  cases h
  rfl

/-- The entries a claim writes for one of its deliveries. -/
theorem find?_lost {settings : Settings} {call : ClaimCall} {db : Database} {lost : List Attempt}
    (hvalid : call.Valid settings) {row : ClaimedRow} (h : row ∈ claimedRows call db)
    (hlost : (((claimedRows call db).map ClaimedRow.prev).filter reclaimed).mapM
      (lostAttempt call.workerId call.now) = .ok lost) :
    ∃ entry, Life.lostEntry call.workerId call.now row.prev = .ok entry ∧
      ∀ n, lost.find? (fun a => a.key = (row.prev.id, n)) =
        if n = row.prev.totalAttempts then entry else none := by
  -- an entry for this delivery comes from this row
  have hsource : ∀ a ∈ lost, a.deliveryId = row.prev.id →
      reclaimed row.prev = true ∧ lostAttempt call.workerId call.now row.prev = .ok a := by
    intro a ha hid
    obtain ⟨d, hd, hda⟩ := Fallible.exists_of_mem_mapM hlost ha
    obtain ⟨hmem, hrec⟩ := List.mem_filter.mp hd
    obtain ⟨row', hrow', rfl⟩ := List.mem_map.mp hmem
    have hkey : a.deliveryId = row'.prev.id := congrArg Prod.fst (key_of_lostAttempt hda)
    obtain rfl := prev_unique hvalid hrow' h (hkey.symm.trans hid)
    exact ⟨hrec, hda⟩
  by_cases hrec : reclaimed row.prev = true
  · obtain ⟨a, ha, hda⟩ := Fallible.exists_mem_of_mapM hlost
      (List.mem_filter.mpr ⟨List.mem_map.mpr ⟨row, h, rfl⟩, hrec⟩)
    refine ⟨some a, by simp [Life.lostEntry, hrec, hda, Except.map], fun n => ?_⟩
    rw [find?_of_unique ha]
    · simp [key_of_lostAttempt hda, eq_comm]
    · intro b hb hkey
      have hid : b.deliveryId = row.prev.id := congrArg Prod.fst (of_decide_eq_true hkey)
      exact Except.ok.inj ((hsource b hb hid).2.symm.trans hda)
  · refine ⟨none, by simp [Life.lostEntry, hrec], fun n => ?_⟩
    have hnone : lost.find? (fun a => decide (a.key = (row.prev.id, n))) = none :=
      List.find?_eq_none.mpr fun b hb hkey =>
        hrec (hsource b hb (congrArg Prod.fst (of_decide_eq_true hkey))).1
    simp [hnone]

theorem find?_lost_of_notMem {call : ClaimCall} {db : Database} {lost : List Attempt}
    {id : DeliveryId} (h : id ∉ (claimedRows call db).map fun row => row.prev.id)
    (hlost : (((claimedRows call db).map ClaimedRow.prev).filter reclaimed).mapM
      (lostAttempt call.workerId call.now) = .ok lost) (n : ℕ) :
    lost.find? (fun a => a.key = (id, n)) = none := by
  refine List.find?_eq_none.mpr fun a ha hkey => h ?_
  obtain ⟨d, hd, hda⟩ := Fallible.exists_of_mem_mapM hlost ha
  obtain ⟨row, hrow, rfl⟩ := List.mem_map.mp (List.mem_filter.mp hd).1
  have hid : row.prev.id = id :=
    congrArg Prod.fst ((key_of_lostAttempt hda).symm.trans (of_decide_eq_true hkey))
  exact List.mem_map.mpr ⟨row, hrow, hid⟩

/-! ## One step -/

/-- A delivery after a step: just created, left alone, or moved by what the
event does to it. -/
def Follows (settings : Settings) (s : Service) (e : Event) (id : DeliveryId) (y : Life) : Prop :=
  (s.life id = none ∧ y.Starts) ∨ ∃ x, s.life id = some x ∧
    ((s.acts id e = none ∧ y = x) ∨ ∃ d, s.acts id e = some d ∧ Life.Step settings x d y)

theorem follows_advance {settings : Settings} {s : Service} {time : Instant} {id : DeliveryId}
    {y : Life} (htime : s.clock ≤ time) (hy : life { s with clock := time } id = some y) :
    Follows settings s (.advance time) id y := by
  obtain ⟨row, hrow, rfl⟩ := life_eq_some_iff.mp hy
  exact Or.inr ⟨_, life_eq_some_iff.mpr ⟨row, hrow, rfl⟩, Or.inr ⟨_, rfl, .advance htime⟩⟩

theorem follows_intake {settings : Settings} {s : Service} {e : Event} {db : Database}
    {now : Instant} {id : DeliveryId} {y : Life} (htidy : s.Tidy) (hacts : s.acts id e = none)
    (hnow : now ≤ s.clock) (hext : Extends now s.db db)
    (hy : life { s with db := db } id = some y) : Follows settings s e id y := by
  obtain ⟨row, hrow, rfl⟩ := life_eq_some_iff.mp hy
  rcases hext.deliveries id with hsame | ⟨hnone, requestId, r, hnew, _⟩
  · refine Or.inr ⟨_, life_eq_some_iff.mpr ⟨row, hsame ▸ hrow, rfl⟩, Or.inl ⟨hacts, ?_⟩⟩
    simp only [hext.journal]
    rfl
  · have hrow' : row = newDelivery now requestId id r := Option.some.inj (hrow.symm.trans hnew)
    refine Or.inl ⟨life_eq_none_iff.mpr hnone, now, requestId, id, r, hnow, hrow', ?_, ?_, ?_⟩
    · exact fun n => (htidy id hnone n).1
    · exact fun n => (htidy id hnone n).2.1
    · exact fun n => (congrArg (fun t => t.get? (id, n)) hext.journal).trans (htidy id hnone n).2.2

theorem follows_claim {settings : Settings} {s : Service} {call : ClaimCall} {db : Database}
    {cds : List ClaimedDelivery} {lost : List Attempt} {id : DeliveryId} {y : Life}
    (hnow : call.now ≤ s.clock) (hvalid : call.Valid settings)
    (hclaimed : Claimed settings call s.db db cds lost)
    (hy : life { s with db := db, claims := s.claims ++ newClaims settings call cds } id = some y) :
    Follows settings s (.claim call) id y := by
  obtain rfl := hclaimed.returned
  obtain ⟨row', hrow', rfl⟩ := life_eq_some_iff.mp hy
  rw [hclaimed.deliveries] at hrow'
  obtain ⟨row, hrow, rfl⟩ := Option.map_eq_some_iff.mp hrow'
  refine Or.inr ⟨_, life_eq_some_iff.mpr ⟨row, hrow, rfl⟩, ?_⟩
  have hid : row.id = id := Table.key_of_get? hrow
  by_cases hmem : id ∈ (claimedRows call s.db).map fun row => row.prev.id
  · obtain ⟨cr, hcr, hcrid⟩ := List.mem_map.mp hmem
    obtain ⟨hget, _, _, hdue⟩ := mem_picked (mem_claimedRows.mp hcr).1
    obtain rfl : cr.prev = row := Option.some.inj (hget.symm.trans (hcrid ▸ hrow))
    obtain ⟨entry, hentry, hfind⟩ := find?_lost hvalid hcr hclaimed.lost_entries
    refine Or.inr ⟨.claim call.workerId call.now, by simp only [acts, if_pos hmem], ?_⟩
    refine Life.Step.of_eq (@Life.Step.claim settings _ _ _ cr.request _ hnow hdue hentry)
      (Life.ext rfl (if_pos (hid ▸ hmem)) (funext fun n => ?_) rfl (funext fun n => ?_))
    · refine (claim?_append s db _ id n).trans ?_
      rw [← hcrid, find?_newClaims hvalid hcr n]
      rfl
    · apply (hclaimed.journal (id, n)).trans
      rw [← hcrid, hfind n]
      rfl
  · refine Or.inl ⟨by simp only [acts, if_neg hmem], ?_⟩
    refine Life.ext rfl (if_neg (hid ▸ hmem)) (funext fun n => ?_) rfl (funext fun n => ?_)
    · refine (claim?_append s db _ id n).trans ?_
      rw [find?_newClaims_of_notMem hmem, Option.or_none]
    · apply (hclaimed.journal (id, n)).trans
      rw [find?_lost_of_notMem hmem hclaimed.lost_entries, Option.or_none]

/-- What the two branches of a record share: one delivery's row is changed by
`f`, its result is stored and its journal entry written; the others stay. -/
theorem life_record {s : Service} {db : Database} {id id' : DeliveryId} {n : ℕ}
    {result : AttemptResult} {f : Delivery → Delivery} {entry : Attempt} {y : Life}
    (hnone : s.result? id' n = none) (hf : ∀ d, d.id ≠ id' → f d = d)
    (hkey : entry.key = (id', n))
    (hrow : ∀ i, db.deliveries.get? i = (s.db.deliveries.get? i).map f)
    (hjournal : ∀ k, db.deliveryAttempts.get? k =
      if k = entry.key then some (journalAfter entry (s.db.deliveryAttempts.get? k))
      else s.db.deliveryAttempts.get? k)
    (hy : life { s with db := db, results := s.results ++ [((id', n), result)] } id = some y) :
    ∃ x, s.life id = some x ∧
      (id' = id → y = x.recorded n result (f x.row) entry) ∧ (id' ≠ id → y = x) := by
  obtain ⟨row', hrow', rfl⟩ := life_eq_some_iff.mp hy
  rw [hrow] at hrow'
  obtain ⟨row, hget, rfl⟩ := Option.map_eq_some_iff.mp hrow'
  refine ⟨_, life_eq_some_iff.mpr ⟨row, hget, rfl⟩, fun hid => ?_, fun hid => ?_⟩
  · subst hid
    refine Life.ext rfl rfl rfl (funext fun k => ?_) (funext fun k => ?_)
    · refine (result?_append s db _ result id' k).trans ?_
      simp [Life.recorded, addNew, eq_comm]
    · apply (hjournal (id', k)).trans
      rw [hkey]
      by_cases hk : k = n
      · subst hk
        simp [Life.recorded]
      · simp [Life.recorded, hk]
  · refine Life.ext rfl (hf row ?_) rfl (funext fun k => ?_) (funext fun k => ?_)
    · exact fun h => hid (h.symm.trans (Table.key_of_get? hget))
    · refine (result?_append s db _ result id k).trans ?_
      simp [hid]
    · refine (hjournal (id, k)).trans (if_neg fun h => hid ?_)
      exact (congrArg Prod.fst (h.trans hkey)).symm

section Record

variable {settings : Settings} {s : Service} {id id' : DeliveryId} {n : ℕ}
  {result : AttemptResult} {draw : Draw} {now : Instant} {c : Claim} {db : Database} {y : Life}

theorem key_attemptEntry (hc : s.claim? id' n = some c) {ms : Int4} {text : Option PgText}
    {scheduled : Option Instant} :
    (attemptEntry c.workerId c.delivery result ms text scheduled).key = (id', n) := by
  obtain ⟨_, hcid, hcn⟩ := claim?_eq_some hc
  exact Prod.ext hcid hcn

theorem follows_success (hnow : now ≤ s.clock) (hnone : s.result? id' n = none)
    (hc : s.claim? id' n = some c) (hs : result.succeeded = true)
    (hrec : recordResult settings c.workerId c.delivery result draw now s.db = .ok db)
    (hy : life { s with db := db, results := s.results ++ [((id', n), result)] } id = some y) :
    Follows settings s (.record id' n result draw now) id y := by
  obtain ⟨_, hcid, _⟩ := claim?_eq_some hc
  obtain ⟨entry, hspec⟩ := recordResult_success hs hrec
  obtain ⟨ms, text, hms, _, rfl⟩ := hspec.entry_eq
  obtain ⟨x, hx, hsame, hother⟩ := life_record hnone
    (fun d hd => if_neg (by simp [undelivered, hcid, hd]))
    (key_attemptEntry hc) hspec.deliveries hspec.journal hy
  refine Or.inr ⟨x, hx, ?_⟩
  by_cases hid : id' = id
  · obtain ⟨hclock, _, hrow_id, hclaims, hresults, _⟩ := parts_of_life hx
    subst hid
    refine Or.inr ⟨.record n result draw now, if_pos rfl, ?_⟩
    have hrow : (if undelivered c.delivery.deliveryId x.row then deliveredRow result now x.row
        else x.row) = Life.successRow result now x.row := by
      unfold Life.successRow
      by_cases hdel : x.row.status = .delivered <;> simp [undelivered, hcid, hrow_id, hdel]
    rw [hsame rfl, hrow]
    exact .success (hclock ▸ hnow) (hresults ▸ hnone) (hclaims ▸ hc) hs hms
  · exact Or.inl ⟨if_neg hid, hother hid⟩

theorem follows_failure (hnow : now ≤ s.clock) (hnone : s.result? id' n = none)
    (hc : s.claim? id' n = some c) (hs : result.succeeded = false)
    (hrec : recordResult settings c.workerId c.delivery result draw now s.db = .ok db)
    (hy : life { s with db := db, results := s.results ++ [((id', n), result)] } id = some y) :
    Follows settings s (.record id' n result draw now) id y := by
  obtain ⟨_, hcid, _⟩ := claim?_eq_some hc
  obtain ⟨entry, delay, lastError, hspec⟩ := recordResult_failure hs hrec
  obtain ⟨ms, scheduled, hms, rfl⟩ := hspec.entry_eq
  obtain ⟨seconds, hseconds, hdelay⟩ := hspec.delay_eq
  obtain ⟨x, hx, hsame, hother⟩ := life_record hnone
    (fun d hd => if_neg (by simp [heldBy, hcid, hd]))
    (key_attemptEntry hc) hspec.deliveries hspec.journal hy
  refine Or.inr ⟨x, hx, ?_⟩
  by_cases hid : id' = id
  · obtain ⟨hclock, _, hrow_id, hclaims, hresults, _⟩ := parts_of_life hx
    subst hid
    refine Or.inr ⟨.record n result draw now, if_pos rfl, ?_⟩
    have hrow : (if heldBy c.delivery.deliveryId c.workerId x.row then
          failedRow result lastError (isExhausted c.delivery.budgetAttempt settings) delay now x.row
        else x.row) = Life.failureRow settings c result lastError delay now x.row := by
      simp only [heldBy_iff, hcid, hrow_id, true_and, Life.failureRow]
    rw [hsame rfl, hrow]
    exact .failure (hclock ▸ hnow) (hresults ▸ hnone) (hclaims ▸ hc) hs hseconds hdelay hms
  · exact Or.inl ⟨if_neg hid, hother hid⟩

theorem follows_record (hnow : now ≤ s.clock) (hnone : s.result? id' n = none)
    (hc : s.claim? id' n = some c)
    (hrec : recordResult settings c.workerId c.delivery result draw now s.db = .ok db)
    (hy : life { s with db := db, results := s.results ++ [((id', n), result)] } id = some y) :
    Follows settings s (.record id' n result draw now) id y := by
  cases hs : result.succeeded with
  | true => exact follows_success hnow hnone hc hs hrec hy
  | false => exact follows_failure hnow hnone hc hs hrec hy

end Record

theorem follows_requeue {settings : Settings} {s : Service} {e : Event} {call : RequeueScan}
    {where_ : Delivery → Bool} {includeDelivered : Bool} {limit : Option ℕ} {id : DeliveryId}
    {y : Life} (hnow : call.now ≤ s.clock)
    (hacts : s.acts id e = if id ∈ (requeue call where_ includeDelivered limit s.db).2.requeuedIds
      then some (.requeue call.now) else none)
    (hy : life { s with db := (requeue call where_ includeDelivered limit s.db).1 } id = some y) :
    Follows settings s e id y := by
  obtain ⟨row', hrow', rfl⟩ := life_eq_some_iff.mp hy
  rw [get?_requeue] at hrow'
  obtain ⟨row, hrow, rfl⟩ := Option.map_eq_some_iff.mp hrow'
  refine Or.inr ⟨_, life_eq_some_iff.mpr ⟨row, hrow, rfl⟩, ?_⟩
  have hid : row.id = id := Table.key_of_get? hrow
  by_cases hmem : id ∈ (requeue call where_ includeDelivered limit s.db).2.requeuedIds
  · obtain ⟨d, hget, _, _, hclass⟩ := mem_requeuedIds hmem
    obtain rfl : d = row := Option.some.inj (hget.symm.trans hrow)
    refine Or.inr ⟨.requeue call.now, by rw [hacts, if_pos hmem], ?_⟩
    rw [if_pos (hid ▸ hmem)]
    exact .requeue hnow hclass
  · refine Or.inl ⟨by rw [hacts, if_neg hmem], ?_⟩
    rw [if_neg (hid ▸ hmem)]
    rfl

theorem life_step {settings : Settings} {s t : Service} {e : Event} {id : DeliveryId} {y : Life}
    (htidy : s.Tidy) (h : step settings s e = some t) (hy : t.life id = some y) :
    Follows settings s e id y := by
  cases e with
  | advance time =>
      obtain ⟨htime, rfl⟩ := step_advance.mp h
      exact follows_advance htime hy
  | accept gen req =>
      obtain ⟨hnow, db, hext, rfl⟩ := step_intake (Or.inl ⟨req, rfl⟩) h
      exact follows_intake htidy rfl hnow hext hy
  | attach gen requestId recipients =>
      obtain ⟨hnow, db, hext, rfl⟩ := step_intake (Or.inr ⟨requestId, recipients, rfl⟩) h
      exact follows_intake htidy rfl hnow hext hy
  | claim call =>
      obtain ⟨hnow, hvalid, db, claimed, hclaim, rfl⟩ := step_claim.mp h
      obtain ⟨lost, hspec⟩ := claimBatch_spec hclaim
      exact follows_claim hnow hvalid hspec hy
  | record id' n result draw now =>
      obtain ⟨hnow, hnone, c, db, hc, hrec, rfl⟩ := step_record.mp h
      exact follows_record hnow hnone hc hrec hy
  | requeueRequest call requestId recipients includeDelivered =>
      obtain ⟨hnow, where_, optIn, limit, hids, rfl⟩ :=
        step_requeue (Or.inl ⟨requestId, recipients, includeDelivered, rfl⟩) h
      exact follows_requeue hnow (by rw [← hids]; rfl) hy
  | requeueBulk call filter limit =>
      obtain ⟨hnow, where_, optIn, cap, hids, rfl⟩ :=
        step_requeue (Or.inr ⟨filter, limit, rfl⟩) h
      exact follows_requeue hnow (by rw [← hids]; rfl) hy

/-! ## Nothing is known of a delivery that does not exist -/

theorem notMem_claimedRows {call : ClaimCall} {db : Database} {id : DeliveryId}
    (h : db.deliveries.get? id = none) :
    id ∉ (claimedRows call db).map fun row => row.prev.id := by
  intro hmem
  obtain ⟨row, hrow, rfl⟩ := List.mem_map.mp hmem
  rw [(mem_picked (mem_claimedRows.mp hrow).1).1] at h
  cases h

/-- The three facts for one delivery, when they are the same after a step. -/
theorem Tidy.of_same {s t : Service} (htidy : s.Tidy)
    (hsame : ∀ id, t.db.deliveries.get? id = none → s.db.deliveries.get? id = none ∧
      ∀ n, t.claim? id n = s.claim? id n ∧ t.result? id n = s.result? id n ∧
        t.db.deliveryAttempts.get? (id, n) = s.db.deliveryAttempts.get? (id, n)) : t.Tidy := by
  intro id hid n
  obtain ⟨hnone, hparts⟩ := hsame id hid
  obtain ⟨hclaim, hresult, hjournal⟩ := hparts n
  rw [hclaim, hresult, hjournal]
  exact htidy id hnone n

theorem tidy_intake {s : Service} {now : Instant} {db : Database} (htidy : s.Tidy)
    (hext : Extends now s.db db) : Tidy { s with db := db } := by
  refine htidy.of_same fun id hid => ⟨?_, fun n => ⟨rfl, rfl, ?_⟩⟩
  · rcases hext.deliveries id with hsame | ⟨hnone, _⟩
    · exact hsame.symm.trans hid
    · exact hnone
  · exact congrArg (fun t => t.get? (id, n)) hext.journal

theorem tidy_claim {settings : Settings} {s : Service} {call : ClaimCall} {db : Database}
    {cds : List ClaimedDelivery} {lost : List Attempt} (htidy : s.Tidy)
    (hclaimed : Claimed settings call s.db db cds lost) :
    Tidy { s with db := db, claims := s.claims ++ newClaims settings call cds } := by
  obtain rfl := hclaimed.returned
  apply htidy.of_same
  intro id hid
  have hnone : s.db.deliveries.get? id = none :=
    Option.map_eq_none_iff.mp ((hclaimed.deliveries id).symm.trans hid)
  have hmem := @notMem_claimedRows call s.db id hnone
  refine ⟨hnone, fun n => ⟨?_, rfl, ?_⟩⟩
  · refine (claim?_append s db _ id n).trans ?_
    rw [find?_newClaims_of_notMem hmem, Option.or_none]
  · apply (hclaimed.journal (id, n)).trans
    rw [find?_lost_of_notMem hmem hclaimed.lost_entries, Option.or_none]

theorem tidy_record {settings : Settings} {s : Service} {id' : DeliveryId} {n : ℕ}
    {result : AttemptResult} {draw : Draw} {now : Instant} {c : Claim} {db : Database}
    (htidy : s.Tidy) (hc : s.claim? id' n = some c)
    (hrec : recordResult settings c.workerId c.delivery result draw now s.db = .ok db) :
    Tidy { s with db := db, results := s.results ++ [((id', n), result)] } := by
  obtain ⟨_, hcid, hcn⟩ := claim?_eq_some hc
  obtain ⟨f, entry, hkey, _, _, hrow, hjournal⟩ := recordResult_frame hrec
  apply htidy.of_same
  intro id hid
  have hnone : s.db.deliveries.get? id = none :=
    Option.map_eq_none_iff.mp ((hrow id).symm.trans hid)
  -- the recorded claim is of a delivery that exists
  have hne : id' ≠ id := by
    rintro rfl
    have hfree := (htidy id' hnone n).1
    rw [hc] at hfree
    cases hfree
  refine ⟨hnone, fun k => ⟨rfl, ?_, ?_⟩⟩
  · refine (result?_append s db _ result id k).trans ?_
    simp [hne]
  · refine (hjournal (id, k)).trans (if_neg fun h => hne ?_)
    exact hcid.symm.trans (congrArg Prod.fst (h.trans hkey)).symm

theorem tidy_requeue {s : Service} {call : RequeueScan} {where_ : Delivery → Bool}
    {includeDelivered : Bool} {limit : Option ℕ} (htidy : s.Tidy) :
    Tidy { s with db := (requeue call where_ includeDelivered limit s.db).1 } := by
  refine htidy.of_same fun id hid => ⟨?_, fun _ => ⟨rfl, rfl, rfl⟩⟩
  exact Option.map_eq_none_iff.mp
    ((get?_requeue call where_ includeDelivered limit s.db id).symm.trans hid)

theorem tidy_step {settings : Settings} {s t : Service} {e : Event} (htidy : s.Tidy)
    (h : step settings s e = some t) : t.Tidy := by
  cases e with
  | advance time =>
      obtain ⟨_, rfl⟩ := step_advance.mp h
      exact htidy
  | accept gen req =>
      obtain ⟨_, db, hext, rfl⟩ := step_intake (Or.inl ⟨req, rfl⟩) h
      exact tidy_intake htidy hext
  | attach gen requestId recipients =>
      obtain ⟨_, db, hext, rfl⟩ := step_intake (Or.inr ⟨requestId, recipients, rfl⟩) h
      exact tidy_intake htidy hext
  | claim call =>
      obtain ⟨_, _, db, claimed, hclaim, rfl⟩ := step_claim.mp h
      obtain ⟨lost, hspec⟩ := claimBatch_spec hclaim
      exact tidy_claim htidy hspec
  | record id n result draw now =>
      obtain ⟨_, _, c, db, hc, hrec, rfl⟩ := step_record.mp h
      exact tidy_record htidy hc hrec
  | requeueRequest call requestId recipients includeDelivered =>
      obtain ⟨_, where_, optIn, limit, _, rfl⟩ :=
        step_requeue (Or.inl ⟨requestId, recipients, includeDelivered, rfl⟩) h
      exact tidy_requeue htidy
  | requeueBulk call filter limit =>
      obtain ⟨_, where_, optIn, cap, _, rfl⟩ := step_requeue (Or.inr ⟨filter, limit, rfl⟩) h
      exact tidy_requeue htidy

theorem tidy_of_reachable {settings : Settings} {ok : Service → Event → Prop} {s : Service}
    (h : (service settings).ReachableBy ok s) : s.Tidy := by
  induction h with
  | init h0 =>
      obtain ⟨clock, rfl⟩ := h0
      exact fun _ _ _ => ⟨rfl, rfl, rfl⟩
  | step _ _ hstep htidy => exact tidy_step htidy hstep

end Service

/-! ## The projection -/

namespace Service

/-- The claim a delivery is in flight under. -/
def current? (s : Service) (id : DeliveryId) : Option Claim := (s.life id).bind Life.current?

/-- A condition on the operations of single deliveries, asked of every delivery
an event acts on. -/
def Everywhere (ok : Life → Life.Event → Prop) (s : Service) (e : Event) : Prop :=
  ∀ id, ∀ x ∈ s.life id, ∀ d ∈ s.acts id e, ok x d

theorem everywhere_iff {ok : Life → Life.Event → Prop} {s : Service} {e : Event} :
    Everywhere ok s e ↔
      ∀ row ∈ s.db.deliveries.rows, ∀ x ∈ s.life row.id, ∀ d ∈ s.acts row.id e, ok x d := by
  refine ⟨fun h row _ => h row.id, fun h id x hx => ?_⟩
  obtain ⟨_, hget, hid, _⟩ := parts_of_life hx
  exact hid ▸ h x.row (Table.mem_of_get? hget) x (hid.symm ▸ hx)

instance {ok : Life → Life.Event → Prop} [∀ x d, Decidable (ok x d)] (s : Service) (e : Event) :
    Decidable (Everywhere ok s e) := decidable_of_iff _ everywhere_iff.symm

end Service

/-- Follow one delivery through a run of the service. -/
def lifeProjection (settings : Settings) (ok : Life → Life.Event → Prop) (id : DeliveryId) :
    Machine.Projection (service settings) (life settings) (Service.Everywhere ok) ok where
  view s := s.life id
  init := by
    rintro s x ⟨clock, rfl⟩ hx
    cases hx
  step := by
    intro s e t y hs hok hstep hy
    rcases Service.life_step (Service.tidy_of_reachable hs) hstep hy with
      ⟨hnone, hstarts⟩ | ⟨x, hx, ⟨_, rfl⟩ | ⟨d, hd, hlife⟩⟩
    · exact Or.inr (Or.inl ⟨hnone, hstarts⟩)
    · exact Or.inl hx
    · exact Or.inr (Or.inr ⟨x, d, hx, hok id x hx d hd, hlife⟩)

/-- In a reachable state every delivery has led a life of the small machine. -/
theorem life_reachable {settings : Settings} {ok : Life → Life.Event → Prop} {s : Service}
    (h : (service settings).ReachableBy (Service.Everywhere ok) s) {id : DeliveryId} {x : Life}
    (hx : s.life id = some x) : (life settings).ReachableBy ok x :=
  (lifeProjection settings ok id).reachable h x hx

/-- In the unrestricted runs every operation is allowed on every delivery. -/
theorem Service.everywhere_of_reachable {settings : Settings} {ok : Service → Event → Prop}
    {s : Service} (h : (service settings).ReachableBy ok s) :
    (service settings).ReachableBy (Service.Everywhere fun _ _ => True) s :=
  h.mono fun _ _ _ _ _ _ _ _ => trivial

theorem Service.everywhere_of_later {settings : Settings} {s t : Service}
    (h : (service settings).Later s t) :
    (service settings).LaterBy (Service.Everywhere fun _ _ => True) s t :=
  h.mono fun _ _ _ _ _ _ _ _ => trivial

theorem life_of_reachable {settings : Settings} {s : Service} (h : (service settings).Reachable s)
    {id : DeliveryId} {x : Life} (hx : s.life id = some x) : (life settings).Reachable x :=
  life_reachable (Service.everywhere_of_reachable h) hx

/-- A delivery is never removed. -/
theorem Service.step_life_isSome {settings : Settings} {s t : Service} {e : Event}
    (h : Service.step settings s e = some t) {id : DeliveryId} {x : Life}
    (hx : s.life id = some x) : ∃ y, t.life id = some y := by
  obtain ⟨_, hrow, _⟩ := Service.parts_of_life hx
  rcases Service.step_rows h id with ⟨f, _, hmap⟩ | ⟨row, hnew, _⟩
  · rw [hrow] at hmap
    exact ⟨_, Service.life_eq_some_iff.mpr ⟨_, hmap, rfl⟩⟩
  · exact ⟨_, Service.life_eq_some_iff.mpr ⟨row, hnew, rfl⟩⟩

/-- An event that acts on a delivery is the step it makes of it. -/
theorem Service.exists_life_step {settings : Settings} {s t : Service} {e : Event}
    (hs : (service settings).Reachable s) (h : Service.step settings s e = some t)
    {id : DeliveryId} {x : Life} {d : Life.Event} (hx : s.life id = some x)
    (hd : s.acts id e = some d) : ∃ y, t.life id = some y ∧ Life.Step settings x d y := by
  obtain ⟨y, hy⟩ := Service.step_life_isSome h hx
  refine ⟨y, hy, ?_⟩
  rcases Service.life_step (Service.tidy_of_reachable hs) h hy with
    ⟨hnone, _⟩ | ⟨w, hw, ⟨hacts, _⟩ | ⟨d', hd', hlife⟩⟩
  · rw [hx] at hnone
    cases hnone
  · rw [hd] at hacts
    cases hacts
  · obtain rfl : x = w := Option.some.inj (hx.symm.trans hw)
    obtain rfl : d = d' := Option.some.inj (hd.symm.trans hd')
    exact hlife

/-- What a run does to a delivery after a state that already has it. -/
theorem life_later {settings : Settings} {ok : Life → Life.Event → Prop} {s t : Service}
    (hs : (service settings).Reachable s)
    (h : (service settings).LaterBy (Service.Everywhere ok) s t) {id : DeliveryId} {x : Life}
    (hx : s.life id = some x) : ∃ y, t.life id = some y ∧ (life settings).LaterBy ok x y := by
  induction h with
  | refl => exact ⟨x, hx, .refl⟩
  | @step t u e hlater hok hstep ih =>
      obtain ⟨y, hy, hxy⟩ := ih
      obtain ⟨z, hz⟩ := Service.step_life_isSome hstep hy
      have htidy := Service.tidy_of_reachable (hlater.reachable hs)
      refine ⟨z, hz, ?_⟩
      rcases Service.life_step htidy hstep hz with
        ⟨hnone, _⟩ | ⟨w, hw, ⟨_, rfl⟩ | ⟨d, hd, hlife⟩⟩
      · rw [hy] at hnone
        cases hnone
      · obtain rfl : y = z := Option.some.inj (hy.symm.trans hw)
        exact hxy
      · obtain rfl : y = w := Option.some.inj (hy.symm.trans hw)
        exact .step hxy (hok id y hy d hd) hlife

end LeadQueue
