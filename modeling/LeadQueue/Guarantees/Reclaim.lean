import LeadQueue.Life.Invariant

/-!
# Reclaiming after a long downtime

The age of a lost attempt is cast to a 32-bit number of milliseconds inside the
claim transaction. The cast fails from about 24.9 days on, and with it the
whole batch.
-/

namespace LeadQueue

open Relational Transition

/-- The first age, in microseconds, that rounds to 2^31 milliseconds. -/
def maxLostAge : Duration := 2147483647500

theorem numericToInt4_isOk_iff {q : ℚ} (h : 0 ≤ q) :
    (∃ i, numericToInt4 q = .ok i) ↔ q < 2147483647 + 1 / 2 := by
  rw [numericToInt4, int4_isOk_iff, roundNumeric, if_pos h]
  have hnonneg : (0 : ℤ) ≤ ⌊q + 1 / 2⌋ := Int.floor_nonneg.mpr (by linarith)
  rw [and_iff_right (by omega), ← Int.lt_add_one_iff, Int.floor_lt]
  norm_num
  constructor <;> intro hlt <;> linarith

theorem lostAgeMs_fits_iff {now startedAt : Instant} :
    (∃ i, numericToInt4 (lostAgeMs now startedAt) = .ok i) ↔ now - startedAt < maxLostAge := by
  unfold lostAgeMs
  rw [numericToInt4_isOk_iff (le_max_left _ _), max_lt_iff, maxLostAge]
  have hcast : (((now - startedAt : ℤ) : ℚ) / 1000000 * 1000 < 2147483647 + 1 / 2) ↔
      ((now - startedAt : ℤ) : ℚ) < ((2147483647500 : ℤ) : ℚ) := by
    push_cast
    constructor <;> intro h <;> linarith
  rw [hcast, Int.cast_lt, and_iff_right (by norm_num)]

theorem lostAttempt_fits_iff {workerId : WorkerId} {now : Instant} {d : Delivery} :
    (∃ a, lostAttempt workerId now d = .ok a) ↔ now - d.lastAttemptAt.getD now < maxLostAge := by
  rw [← lostAgeMs_fits_iff]
  simp only [lostAttempt, Fallible.bind_eq_ok_iff, Fallible.pure_eq_ok_iff]
  exact ⟨fun ⟨_, i, hi, _⟩ => ⟨i, hi⟩, fun ⟨i, hi⟩ => ⟨_, i, hi, rfl⟩⟩

theorem lostAttempt_isOk_iff {workerId : WorkerId} {now : Instant} {d : Delivery}
    {startedAt : Instant} (h : d.lastAttemptAt = some startedAt) :
    (∃ a, lostAttempt workerId now d = .ok a) ↔ now - startedAt < maxLostAge := by
  rw [lostAttempt_fits_iff, h]
  rfl

/-! ## The lease itself is in range once a claim has been made -/

theorem timedelta_of_claimBatch {settings : Settings} {call : ClaimCall} {db db' : Database}
    {claimed : List ClaimedDelivery} (h : claimBatch settings call db = .ok (db', claimed))
    (hne : claimed ≠ []) : ∃ lease, timedelta settings.leaseSeconds = .ok lease := by
  unfold claimBatch at h
  split at h
  · cases h
    exact absurd rfl hne
  · obtain ⟨lease, hlease, _⟩ := Fallible.bind_eq_ok_iff.mp h
    exact ⟨lease, hlease⟩

theorem timedelta_of_reachable {settings : Settings} {s : Service}
    (h : (service settings).Reachable s) (hne : s.claims ≠ []) :
    ∃ lease, timedelta settings.leaseSeconds = .ok lease := by
  induction h with
  | init h0 =>
      obtain ⟨clock, rfl⟩ := h0
      exact absurd rfl hne
  | step _ _ hstep ih =>
      rcases Service.step_claims hstep with hsame | ⟨call, db, claimed, _, _, hclaim, happend⟩
      · exact ih (hsame ▸ hne)
      · by_cases hclaimed : claimed = []
        · exact ih (by simpa [happend, hclaimed, newClaims] using hne)
        · exact timedelta_of_claimBatch hclaim hclaimed

/-! ## When a batch with lost attempts commits -/

/-- A row in flight was claimed once: its attempt has a start, the lease a length. -/
theorem inFlight_claimed {settings : Settings} {s : Service} (h : (service settings).Reachable s)
    {row : Delivery} (hrow : s.db.deliveries.get? row.id = some row)
    (hst : row.status = .inFlight) :
    reclaimed row = true ∧ (∃ startedAt, row.lastAttemptAt = some startedAt) ∧
      ∃ lease, timedelta settings.leaseSeconds = .ok lease := by
  have hinv := inv_of_reachable h (Service.life_eq_some_iff.mpr ⟨row, hrow, rfl⟩)
  obtain ⟨c, hc, hholds, _⟩ := hinv.held hst
  have htotal := ((hinv.claims_iff _).mp (Option.isSome_iff_exists.mpr ⟨c, hc⟩)).1
  refine ⟨?_, ⟨_, hholds.startedAt⟩, timedelta_of_reachable h ?_⟩
  · simpa [reclaimed, hst] using Nat.lt_of_lt_of_le Nat.zero_lt_one htotal
  · exact List.ne_nil_of_mem (Service.claim?_eq_some hc).1

/-- The claim transaction commits when the lease and every lost entry fit. -/
theorem claimBatch_of_lost {settings : Settings} {call : ClaimCall} {db : Database}
    {lease : Duration} (hlease : timedelta settings.leaseSeconds = .ok lease)
    (hlost : ∀ row ∈ claimedRows call db, reclaimed row.prev = true →
      ∃ a, lostAttempt call.workerId call.now row.prev = .ok a) :
    ∃ db', claimBatch settings call db = .ok (db', (claimedRows call db).map toClaimed) := by
  have hall : ∃ lost, (((claimedRows call db).map ClaimedRow.prev).filter reclaimed).mapM
      (lostAttempt call.workerId call.now) = .ok lost := by
    apply Fallible.mapM_isOk_iff.mpr
    intro d hd
    obtain ⟨hmem, hrec⟩ := List.mem_filter.mp hd
    obtain ⟨row, hrow, rfl⟩ := List.mem_map.mp hmem
    exact hlost row hrow hrec
  obtain ⟨lost, hlost⟩ := hall
  unfold claimBatch
  split
  · rename_i hlimit
    have hnil : claimedRows call db = [] := by simp [claimedRows, picked, Table.lockRows, hlimit]
    exact ⟨db, by rw [hnil]; rfl⟩
  · simp only [hlease, hlost, bind, Except.bind]
    split
    · rename_i hempty
      exact ⟨db, by rw [List.isEmpty_iff.mp hempty]; rfl⟩
    · exact ⟨_, rfl⟩

/-- For each in-flight row of a batch the lost entry is in range and the claim
commits, handing out the whole batch, exactly when every such row's attempt
started less than `maxLostAge` ago. -/
theorem reclaim_commits_iff {settings : Settings} {s : Service}
    (h : (service settings).Reachable s) (call : ClaimCall) :
    (∀ row ∈ claimedRows call s.db, row.prev.status = .inFlight →
      (∃ a, lostAttempt call.workerId call.now row.prev = .ok a) ∧
      ∃ db', claimBatch settings call s.db =
        .ok (db', (claimedRows call s.db).map toClaimed)) ↔
    ∀ row ∈ claimedRows call s.db, row.prev.status = .inFlight →
      ∀ startedAt ∈ row.prev.lastAttemptAt, call.now - startedAt < maxLostAge := by
  have hget : ∀ row ∈ claimedRows call s.db,
      s.db.deliveries.get? row.prev.id = some row.prev :=
    fun row hrow => (mem_picked (mem_claimedRows.mp hrow).1).1
  constructor
  · intro hall row hrow hst startedAt hstart
    exact (lostAttempt_isOk_iff hstart).mp (hall row hrow hst).1
  · intro hage
    have hlost : ∀ row ∈ claimedRows call s.db, row.prev.status = .inFlight →
        ∃ a, lostAttempt call.workerId call.now row.prev = .ok a := by
      intro row hrow hst
      obtain ⟨_, ⟨startedAt, hstart⟩, _⟩ := inFlight_claimed h (hget row hrow) hst
      exact (lostAttempt_isOk_iff hstart).mpr (hage row hrow hst startedAt hstart)
    intro row hrow hst
    obtain ⟨_, _, lease, hlease⟩ := inFlight_claimed h (hget row hrow) hst
    refine ⟨hlost row hrow hst, claimBatch_of_lost hlease fun row' hrow' hrec => ?_⟩
    simp only [reclaimed, Bool.and_eq_true, beq_iff_eq] at hrec
    exact hlost row' hrow' hrec.1

namespace Reclaim

/-- A worker claims and dies; the next claim comes `downtime` later. -/
def dies (downtime : Duration) : List (Service → Event) :=
  [Move.accept 0 Move.lead, Move.claim .default Move.workerA 1, Move.advance downtime]

/-- 25 days. -/
def longDowntime : Duration := 25 * microsPerDay

/-- The claim that follows. -/
def nextCall (s : Service) : ClaimCall :=
  .unlocked .default Move.workerB 1 s.clock s.db.deliveries

end Reclaim

/-- After a day the lost attempt is journalled and the delivery handed out. -/
theorem reclaim_commits_afterDay :
    ∃ s, (service .default).Reachable s ∧
      ∃ row ∈ claimedRows (Reclaim.nextCall s) s.db, row.prev.status = .inFlight ∧
        ∃ db', claimBatch .default (Reclaim.nextCall s) s.db =
          .ok (db', (claimedRows (Reclaim.nextCall s) s.db).map toClaimed) := by
  obtain ⟨s, hs, hp⟩ := exists_reachable_of_moves .default (Reclaim.dies microsPerDay)
    (fun s => (claimedRows (Reclaim.nextCall s) s.db).any
        (fun row => decide (row.prev.status = .inFlight)) &&
      (claimedRows (Reclaim.nextCall s) s.db).all fun row =>
        row.prev.lastAttemptAt.all fun startedAt : Instant =>
          decide (s.clock - startedAt < maxLostAge))
    (by decide +kernel)
  simp only [Bool.and_eq_true, List.any_eq_true, List.all_eq_true, Option.all_eq_true,
    decide_eq_true_eq] at hp
  obtain ⟨⟨row, hrow, hst⟩, hage⟩ := hp
  have hcommits := (reclaim_commits_iff hs (Reclaim.nextCall s)).mpr
    fun row hrow _ startedAt hstart => hage row hrow startedAt hstart
  exact ⟨s, hs, row, hrow, hst, (hcommits row hrow hst).2⟩

/-- After 25 days the age does not fit and every claim that meets the row fails. -/
theorem reclaim_overflows :
    ¬ ∀ settings : Settings, settings.Validated → ∀ s call, (service settings).Reachable s →
      call.now ≤ s.clock → call.Valid settings →
      ∀ row ∈ claimedRows call s.db, row.prev.status = .inFlight →
        (∃ a, lostAttempt call.workerId call.now row.prev = .ok a) ∧
        ∃ db', claimBatch settings call s.db =
          .ok (db', (claimedRows call s.db).map toClaimed) := by
  intro h
  obtain ⟨s, hs, hp⟩ := exists_reachable_of_moves .default (Reclaim.dies Reclaim.longDowntime)
    (fun s => (claimedRows (Reclaim.nextCall s) s.db).any fun row =>
      decide (row.prev.status = .inFlight) &&
        row.prev.lastAttemptAt.any fun startedAt : Instant =>
          decide (maxLostAge ≤ s.clock - startedAt))
    (by decide +kernel)
  simp only [Bool.and_eq_true, List.any_eq_true, Option.any_eq_true, decide_eq_true_eq] at hp
  obtain ⟨row, hrow, hst, startedAt, hstart, hage⟩ := hp
  obtain ⟨hentry, _⟩ := h .default Settings.default_validated s (Reclaim.nextCall s) hs le_rfl
    (ClaimCall.unlocked_valid _ _ _ _ _) row hrow hst
  exact absurd ((lostAttempt_isOk_iff hstart).mp hentry) (not_lt.mpr hage)

end LeadQueue
