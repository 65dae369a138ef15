import LeadQueue.Reporting.Report

/-!
# Counters for a period

Leads and deliveries are counted by when the lead was accepted, attempts by when
they were started. A period contains its start and not its end.
-/

namespace LeadQueue

open Relational

/-- `t >= $1 AND t < $2`. -/
def inPeriod (periodFrom periodTo t : Instant) : Bool :=
  decide (periodFrom ≤ t) && decide (t < periodTo)

@[simp] theorem inPeriod_iff {periodFrom periodTo t : Instant} :
    inPeriod periodFrom periodTo t = true ↔ periodFrom ≤ t ∧ t < periodTo := by
  rw [inPeriod, Bool.and_eq_true, decide_eq_true_iff, decide_eq_true_iff]

structure StatsResponse where
  periodFrom : Instant
  periodTo : Instant
  requestsAccepted : ℕ
  requestsWithoutRecipients : ℕ
  deliveriesTotal : ℕ
  deliveriesDelivered : ℕ
  deliveriesQueued : ℕ
  deliveriesFailed : ℕ
  attemptsTotal : ℕ
  attemptsFailed : ℕ
deriving DecidableEq, Repr

/-- The rows `sent` counts. -/
def sent (db : Database) (periodFrom periodTo : Instant) : List (Delivery × Request) :=
  db.joined.filter fun p => inPeriod periodFrom periodTo p.2.receivedAt

/-- The rows `attempted` counts. -/
def attempted (db : Database) (periodFrom periodTo : Instant) : List Attempt :=
  db.deliveryAttempts.rows.filter fun a => inPeriod periodFrom periodTo a.startedAt

/-- `get_stats`: one row of `_STATS`, read from one state of the database. -/
def getStats (db : Database) (periodFrom periodTo : Instant) : StatsResponse where
  periodFrom := periodFrom
  periodTo := periodTo
  requestsAccepted :=
    db.requests.rows.countP fun r => inPeriod periodFrom periodTo r.receivedAt
  requestsWithoutRecipients :=
    db.requests.rows.countP fun r => inPeriod periodFrom periodTo r.receivedAt &&
      !db.deliveries.rows.any fun d => d.requestId == r.id
  deliveriesTotal := (sent db periodFrom periodTo).length
  deliveriesDelivered := (sent db periodFrom periodTo).countP fun p => p.1.status == .delivered
  deliveriesQueued := (sent db periodFrom periodTo).countP fun p =>
    p.1.status == .pending || p.1.status == .inFlight
  deliveriesFailed := (sent db periodFrom periodTo).countP fun p => p.1.status == .failed
  attemptsTotal := (attempted db periodFrom periodTo).length
  attemptsFailed := (attempted db periodFrom periodTo).countP fun a => a.outcome != .success

/-! ## Periods that meet -/

/-- Before the instant in which two periods meet only the first one counts. -/
theorem inPeriod_of_lt {a b c t : Instant} (hbc : b ≤ c) (ht : t < b) :
    inPeriod a c t = inPeriod a b t ∧ inPeriod b c t = false := by
  unfold inPeriod
  rw [decide_eq_true (ht.trans_le hbc), decide_eq_true ht, decide_eq_false (not_le.mpr ht)]
  exact ⟨rfl, rfl⟩

theorem inPeriod_of_ge {a b c t : Instant} (hab : a ≤ b) (ht : b ≤ t) :
    inPeriod a c t = inPeriod b c t ∧ inPeriod a b t = false := by
  unfold inPeriod
  rw [decide_eq_true (hab.trans ht), decide_eq_true ht, decide_eq_false (not_lt.mpr ht)]
  exact ⟨rfl, rfl⟩

/-- A count over a period, split at an instant of the period. -/
theorem countP_inPeriod {α : Type} (time : α → Instant) (p : α → Bool) (rows : List α)
    {a b c : Instant} (hab : a ≤ b) (hbc : b ≤ c) :
    rows.countP (fun x => inPeriod a c (time x) && p x) =
      rows.countP (fun x => inPeriod a b (time x) && p x) +
        rows.countP (fun x => inPeriod b c (time x) && p x) := by
  induction rows with
  | nil => rfl
  | cons x rest ih =>
      rw [List.countP_cons, List.countP_cons, List.countP_cons, ih]
      rcases lt_or_ge (time x) b with ht | ht
      · obtain ⟨hsame, hnone⟩ := inPeriod_of_lt (a := a) hbc ht
        rw [hsame, hnone]
        simp only [Bool.false_and, Bool.false_eq_true, if_false]
        omega
      · obtain ⟨hsame, hnone⟩ := inPeriod_of_ge (c := c) hab ht
        rw [hsame, hnone]
        simp only [Bool.false_and, Bool.false_eq_true, if_false]
        omega

/-- The rows of a period that satisfy `p`, split at an instant of the period. -/
theorem countP_filter_inPeriod {α : Type} (time : α → Instant) (p : α → Bool) (rows : List α)
    {a b c : Instant} (hab : a ≤ b) (hbc : b ≤ c) :
    (rows.filter fun x => inPeriod a c (time x)).countP p =
      (rows.filter fun x => inPeriod a b (time x)).countP p +
        (rows.filter fun x => inPeriod b c (time x)).countP p := by
  have hfilter : ∀ a c, (rows.filter fun x => inPeriod a c (time x)).countP p =
      rows.countP fun x => inPeriod a c (time x) && p x := by
    intro a c
    rw [List.countP_filter]
    apply List.countP_congr
    intro x _
    rw [Bool.and_comm]
  rw [hfilter, hfilter, hfilter, countP_inPeriod time p rows hab hbc]

theorem length_filter_inPeriod {α : Type} (time : α → Instant) (rows : List α) {a b c : Instant}
    (hab : a ≤ b) (hbc : b ≤ c) :
    (rows.filter fun x => inPeriod a c (time x)).length =
      (rows.filter fun x => inPeriod a b (time x)).length +
        (rows.filter fun x => inPeriod b c (time x)).length := by
  rw [← List.countP_true]
  exact countP_filter_inPeriod time (fun _ => true) rows hab hbc

end LeadQueue
