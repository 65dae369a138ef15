import LeadQueue.Life.Invariant

/-!
# Every attempt is in the journal

An attempt is journalled by its own record or by the claim that takes its row
over. An operation that takes the row out of flight in another way, with no
record of the attempt, leaves a number without an entry.
-/

namespace LeadQueue

open Relational Transition

namespace Life

/-- The row leaves `in_flight` only through a result of the claim in force or
through the next claim. -/
def LeavesEntry (l : Life) : Event → Prop
  | .record n result _ _ => ∀ c ∈ l.claims n, ∀ c' ∈ l.current?, c'.attemptNumber ≠ n →
      result.succeeded = false ∧ c'.workerId ≠ c.workerId
  | .requeue _ => l.row.status ≠ .inFlight
  | _ => True

instance (l : Life) (d : Event) : Decidable (l.LeavesEntry d) :=
  match d with
  | .record _ _ _ _ | .requeue _ => by unfold LeavesEntry; infer_instance
  | .advance _ | .claim _ _ => .isTrue trivial

/-- Every attempt has an entry, the one in flight excepted. -/
def Covered (l : Life) : Prop :=
  ∀ n, 1 ≤ n → n ≤ l.row.totalAttempts →
    (l.journal n).isSome ∨ (l.row.status = .inFlight ∧ n = l.row.totalAttempts)

/-- An attempt without an entry is the one of the claim in force. -/
theorem Covered.current {settings : Settings} {l : Life} (h : l.Covered) (hinv : l.Inv settings)
    {n : ℕ} (hn : 1 ≤ n) (hle : n ≤ l.row.totalAttempts) :
    (l.journal n).isSome ∨ ∃ c, l.current? = some c ∧ c.attemptNumber = n := by
  rcases h n hn hle with hentry | ⟨hflight, rfl⟩
  · exact Or.inl hentry
  · obtain ⟨c, hc⟩ := hinv.current_of_inFlight hflight
    exact Or.inr ⟨c, hc, (hinv.current hc).2.2.1⟩

theorem Covered.claimed {settings : Settings} {l : Life} {workerId : WorkerId} {now : Instant}
    {request : Request} {lost : Option Attempt} (h : l.Covered)
    (hlost : lostEntry workerId now l.row = .ok lost) :
    Covered (l.claimed settings workerId now request lost) := by
  intro n hn hle
  have hle : n ≤ l.row.totalAttempts + 1 := hle
  rcases Nat.lt_or_ge l.row.totalAttempts n with hgt | hle'
  · exact Or.inr ⟨rfl, le_antisymm hle hgt⟩
  · refine Or.inl ((isSome_addNew _ _ _ _).mpr ?_)
    rcases h n hn hle' with hentry | ⟨hflight, rfl⟩
    · exact Or.inl hentry
    · -- the attempt taken over is journalled by this claim
      refine Or.inr ⟨rfl, ?_⟩
      have hrec : reclaimed l.row = true := by simp [reclaimed, hflight]; omega
      simp only [lostEntry, hrec, if_true] at hlost
      obtain ⟨a, _, rfl⟩ := Fallible.map_eq_ok_iff.mp hlost
      rfl

/-- A record writes its own entry and keeps the others. -/
theorem isSome_recorded {l : Life} {n k : ℕ} {result : AttemptResult} {row : Delivery}
    {entry : Attempt} (h : k = n ∨ (l.journal k).isSome) :
    ((l.recorded n result row entry).journal k).isSome := by
  by_cases hk : k = n
  · subst hk
    rw [journal_recorded_self]
    rfl
  · rw [journal_recorded_of_ne hk]
    exact h.resolve_left hk

theorem Covered.succeeded {settings : Settings} {l : Life} {n : ℕ} {c : Claim}
    {result : AttemptResult} {draw : Draw} {now : Instant} {entry : Attempt} (h : l.Covered)
    (hinv : l.Inv settings) (hok : l.LeavesEntry (.record n result draw now))
    (hc : l.claims n = some c) (hs : result.succeeded = true) :
    Covered (l.recorded n result (successRow result now l.row) entry) := by
  intro k hk hle
  have hle : k ≤ l.row.totalAttempts :=
    hle.trans_eq (successRow_totalAttempts result now l.row)
  refine Or.inl (isSome_recorded ?_)
  rcases h.current hinv hk hle with hentry | ⟨c', hc', hnumber⟩
  · exact Or.inr hentry
  · by_contra hother
    have hfail := (hok c hc c' hc' fun hn => hother (Or.inl (hnumber.symm.trans hn))).1
    rw [hs] at hfail
    cases hfail

theorem Covered.failed {settings : Settings} {l : Life} {n : ℕ} {c : Claim}
    {result : AttemptResult} {draw : Draw} {now : Instant} {lastError : Option PgText}
    {delay : Duration} {entry : Attempt} (h : l.Covered) (hinv : l.Inv settings)
    (hok : l.LeavesEntry (.record n result draw now)) (hc : l.claims n = some c) :
    Covered
      (l.recorded n result (failureRow settings c result lastError delay now l.row) entry) := by
  intro k hk hle
  have hle : k ≤ l.row.totalAttempts := hle.trans_eq failureRow_totalAttempts
  by_cases hentry : k = n ∨ (l.journal k).isSome
  · exact Or.inl (isSome_recorded hentry)
  · rcases h.current hinv hk hle with hsome | ⟨c', hc', hnumber⟩
    · exact absurd (Or.inr hsome) hentry
    · obtain ⟨hflight, _, hcur, _⟩ := hinv.current hc'
      have hworker := (hok c hc c' hc' fun hn => hentry (Or.inl (hnumber.symm.trans hn))).2
      rw [hinv.failureRow_eq_self hc' hworker]
      exact Or.inr ⟨hflight, hnumber.symm.trans hcur⟩

theorem Covered.step {settings : Settings} {l l' : Life} {d : Event} (h : l.Covered)
    (hinv : l.Inv settings) (hok : l.LeavesEntry d) (hstep : Step settings l d l') :
    l'.Covered := by
  cases hstep with
  | advance _ => exact h
  | claim _ _ hlost => exact h.claimed hlost
  | success _ _ hc hs _ => exact h.succeeded hinv hok hc hs
  | failure _ _ hc _ _ _ _ => exact h.failed hinv hok hc
  | requeue _ _ =>
      intro n hn hle
      rcases h n hn hle with hentry | ⟨hflight, _⟩
      · exact Or.inl hentry
      · exact absurd hflight hok

end Life

theorem covered_of_reachable {settings : Settings} {l : Life}
    (h : (life settings).ReachableBy Life.LeavesEntry l) : l.Covered := by
  induction h with
  | init h0 =>
      obtain ⟨_, _, _, _, _, hrow, _⟩ := h0
      intro n hn hle
      have hzero : n ≤ 0 := by simpa [hrow, newDelivery, deliveriesSyncClaimable] using hle
      omega
  | step hs hok hst ih => exact ih.step (life_inv hs) hok hst

/-- No entry is numbered above the attempts made. -/
theorem Life.Inv.entry_le {settings : Settings} {l : Life} (h : l.Inv settings) {n : ℕ}
    {a : Attempt} (ha : l.journal n = some a) : 1 ≤ n ∧ n ≤ l.row.totalAttempts := by
  by_cases hout : a.outcome = .unknown
  · have := h.unknown_lt n a ha hout
    omega
  · exact (h.claims_iff n).mp (h.results_claimed n ((h.known_iff n).mpr ⟨a, ha, hout⟩))

/-- The journal has one entry for attempt `n`, or the attempt's lease has not
expired, or it is the one in flight. -/
def Service.Accounted (s : Service) (row : Delivery) (n : ℕ) : Prop :=
  (∃! a, a ∈ s.db.deliveryAttempts.rows ∧ a.key = (row.id, n)) ∨
  (∃ c, s.claim? row.id n = some c ∧ s.clock < c.leaseExpiresAt) ∨
  (row.status = .inFlight ∧ n = row.totalAttempts)

/-- A journal key identifies its entry. -/
theorem existsUnique_entry {s : Service} {id : DeliveryId} {n : ℕ}
    (h : (s.db.deliveryAttempts.get? (id, n)).isSome) :
    ∃! a, a ∈ s.db.deliveryAttempts.rows ∧ a.key = (id, n) := by
  obtain ⟨a, ha⟩ := Option.isSome_iff_exists.mp h
  refine ⟨a, Table.get?_eq_some_iff.mp ha, fun b hb => ?_⟩
  exact Option.some.inj ((Table.get?_eq_some_iff.mpr hb).symm.trans ha)

/-- In a run in which rows leave `in_flight` only through the claim in force or
the next claim, the journal accounts for every attempt, and for nothing else. -/
theorem journal_accounts {settings : Settings} {s : Service}
    (h : (service settings).ReachableBy (Service.Everywhere Life.LeavesEntry) s) {row : Delivery}
    (hrow : row ∈ s.db.deliveries.rows) :
    (∀ n, 1 ≤ n → n ≤ row.totalAttempts → s.Accounted row n) ∧
      ∀ a ∈ s.db.deliveryAttempts.rows, a.deliveryId = row.id →
        1 ≤ a.attemptNumber ∧ a.attemptNumber ≤ row.totalAttempts := by
  have hx := Service.life_eq_some_iff.mpr ⟨row, Table.get?_of_mem hrow, rfl⟩
  constructor
  · intro n hn hle
    rcases covered_of_reachable (life_reachable h hx) n hn hle with hentry | hflight
    · exact Or.inl (existsUnique_entry hentry)
    · exact Or.inr (Or.inr hflight)
  · intro a ha hid
    have hentry : s.db.deliveryAttempts.get? (row.id, a.attemptNumber) = some a :=
      Table.get?_eq_some_iff.mpr ⟨ha, Prod.ext hid rfl⟩
    exact (inv_of_reachable h hx).entry_le hentry

namespace JournalCoverage

/-- A worker claims and dies; its lease runs out. -/
def dies : List (Service → Event) :=
  [Move.accept 0 Move.lead, Move.claim .default Move.workerA 1, Move.advance 100000000]

end JournalCoverage

/-- After a reclaim and a late answer the journal has both attempts. -/
theorem journal_accounts_reclaimed :
    ∃ s row, (service .default).ReachableBy (Service.Everywhere Life.LeavesEntry) s ∧
      row ∈ s.db.deliveries.rows ∧ row.totalAttempts = 2 ∧
      s.Accounted row 1 ∧ s.Accounted row 2 := by
  obtain ⟨s, hs, hp⟩ := exists_reachableBy_of_moves .default
    (Service.Everywhere Life.LeavesEntry)
    (JournalCoverage.dies ++ [Move.claim .default Move.workerB 1,
      Move.record Move.first 2 Move.confirmed])
    (fun s => s.db.deliveries.rows.any fun d => decide (d.totalAttempts = 2)) (by decide +kernel)
  obtain ⟨row, hrow, htwo⟩ := List.any_eq_true.mp hp
  have htwo := of_decide_eq_true htwo
  have hall := (journal_accounts hs hrow).1
  exact ⟨s, row, hs, hrow, htwo, hall 1 le_rfl (by omega), hall 2 (by omega) (by omega)⟩

/-- A manual retry of a delivery whose worker died loses the attempt. -/
theorem requeue_loses_attempt :
    ¬ ∀ settings : Settings, settings.Validated → ∀ s, (service settings).Reachable s →
      ∀ row ∈ s.db.deliveries.rows, ∀ n, 1 ≤ n → n ≤ row.totalAttempts → s.Accounted row n := by
  intro h
  obtain ⟨s, hs, hp⟩ := exists_reachable_of_moves .default
    (JournalCoverage.dies ++ [Move.requeue 0 false])
    (fun s => s.db.deliveryAttempts.rows.isEmpty && s.db.deliveries.rows.any fun d =>
      decide (d.totalAttempts = 1 ∧ d.status = .pending) &&
        (s.claim? d.id 1).all (fun c : Claim => decide (c.leaseExpiresAt ≤ s.clock)))
    (by decide +kernel)
  simp only [Bool.and_eq_true, List.isEmpty_iff, List.any_eq_true, decide_eq_true_eq,
    Option.all_eq_true] at hp
  obtain ⟨hempty, row, hrow, ⟨hone, hpending⟩, hover⟩ := hp
  rcases h .default Settings.default_validated s hs row hrow 1 le_rfl hone.ge with
    ⟨a, ⟨ha, _⟩, _⟩ | ⟨c, hc, hlive⟩ | ⟨hflight, _⟩
  · simp [hempty] at ha
  · exact absurd hlive (not_lt.mpr (hover c hc))
  · rw [hpending] at hflight
    cases hflight

end LeadQueue
