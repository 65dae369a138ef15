import LeadQueue.Guarantees.Budget
import LeadQueue.Guarantees.ProblemReport
import LeadQueue.Reporting.Stats

/-!
# The counters add up

The counters of a period are the sums of those of its parts. Within one period
the deliveries are split by their status and the leads by whether they have a
delivery. Over a period with every lead in it the counters are those of the
problem report, which counts the same rows without a join.
-/

namespace LeadQueue

open Relational Transition

/-- Every counter is the sum of the counters of two periods. -/
structure StatsResponse.SumOf (stats first second : StatsResponse) : Prop where
  requestsAccepted : stats.requestsAccepted = first.requestsAccepted + second.requestsAccepted
  requestsWithoutRecipients : stats.requestsWithoutRecipients =
    first.requestsWithoutRecipients + second.requestsWithoutRecipients
  deliveriesTotal : stats.deliveriesTotal = first.deliveriesTotal + second.deliveriesTotal
  deliveriesDelivered : stats.deliveriesDelivered =
    first.deliveriesDelivered + second.deliveriesDelivered
  deliveriesQueued : stats.deliveriesQueued = first.deliveriesQueued + second.deliveriesQueued
  deliveriesFailed : stats.deliveriesFailed = first.deliveriesFailed + second.deliveriesFailed
  attemptsTotal : stats.attemptsTotal = first.attemptsTotal + second.attemptsTotal
  attemptsFailed : stats.attemptsFailed = first.attemptsFailed + second.attemptsFailed

/-- The leads of the period that own a counted delivery, each once. -/
def leadsSent (db : Database) (periodFrom periodTo : Instant) : Finset RequestId :=
  ((sent db periodFrom periodTo).map fun p => p.2.id).toFinset

/-- The counters describe one cohort of leads and all of its deliveries. -/
structure StatsResponse.Splits (stats : StatsResponse) (leads : Finset RequestId) : Prop where
  deliveries : stats.deliveriesTotal =
    stats.deliveriesDelivered + stats.deliveriesQueued + stats.deliveriesFailed
  requests : stats.requestsAccepted = stats.requestsWithoutRecipients + leads.card

/-- Every lead was accepted in the period. -/
def Database.AllWithin (db : Database) (periodFrom periodTo : Instant) : Prop :=
  ∀ r ∈ db.requests.rows, periodFrom ≤ r.receivedAt ∧ r.receivedAt < periodTo

instance (db : Database) (periodFrom periodTo : Instant) :
    Decidable (db.AllWithin periodFrom periodTo) :=
  inferInstanceAs (Decidable (∀ r ∈ db.requests.rows,
    periodFrom ≤ r.receivedAt ∧ r.receivedAt < periodTo))

section Counters

variable {db : Database} {periodFrom periodTo : Instant}

theorem getStats_sumOf (db : Database) {a b c : Instant} (hab : a ≤ b) (hbc : b ≤ c) :
    (getStats db a c).SumOf (getStats db a b) (getStats db b c) where
  requestsAccepted := by
    show List.countP _ _ = List.countP _ _ + List.countP _ _
    rw [List.countP_eq_length_filter, List.countP_eq_length_filter, List.countP_eq_length_filter]
    exact length_filter_inPeriod Request.receivedAt _ hab hbc
  requestsWithoutRecipients := countP_inPeriod Request.receivedAt _ _ hab hbc
  deliveriesTotal := length_filter_inPeriod _ _ hab hbc
  deliveriesDelivered := countP_filter_inPeriod _ _ _ hab hbc
  deliveriesQueued := countP_filter_inPeriod _ _ _ hab hbc
  deliveriesFailed := countP_filter_inPeriod _ _ _ hab hbc
  attemptsTotal := length_filter_inPeriod _ _ hab hbc
  attemptsFailed := countP_filter_inPeriod _ _ _ hab hbc

/-- The leads of the period that have any delivery at all: a delivery is joined
with its own lead. -/
theorem mem_leadsSent {requestId : RequestId} :
    requestId ∈ leadsSent db periodFrom periodTo ↔
      ∃ r ∈ db.requests.rows, inPeriod periodFrom periodTo r.receivedAt = true ∧
        (db.deliveries.rows.any fun d => d.requestId == r.id) = true ∧ r.id = requestId := by
  rw [leadsSent, List.mem_toFinset, List.mem_map]
  constructor
  · rintro ⟨p, hp, rfl⟩
    obtain ⟨hjoined, hin⟩ := List.mem_filter.mp hp
    obtain ⟨hd, hr⟩ := mem_joined.mp hjoined
    refine ⟨p.2, Table.mem_of_get? hr, hin, List.any_eq_true.mpr ⟨p.1, hd, ?_⟩, rfl⟩
    exact beq_iff_eq.mpr (Table.key_of_get? hr).symm
  · rintro ⟨r, hr, hin, hany, rfl⟩
    obtain ⟨d, hd, hof⟩ := List.any_eq_true.mp hany
    have hlead : db.requests.get? d.requestId = some r := by
      rw [eq_of_beq hof]
      exact Table.get?_of_mem hr
    exact ⟨(d, r), List.mem_filter.mpr ⟨mem_joined.mpr ⟨hd, hlead⟩, hin⟩, rfl⟩

theorem card_leadsSent (db : Database) (periodFrom periodTo : Instant) :
    (leadsSent db periodFrom periodTo).card =
      db.requests.rows.countP fun r => inPeriod periodFrom periodTo r.receivedAt &&
        db.deliveries.rows.any fun d => d.requestId == r.id := by
  have hleads : leadsSent db periodFrom periodTo =
      ((db.requests.rows.filter fun r => inPeriod periodFrom periodTo r.receivedAt &&
        db.deliveries.rows.any fun d => d.requestId == r.id).map Request.id).toFinset := by
    ext requestId
    rw [mem_leadsSent, List.mem_toFinset, List.mem_map]
    simp only [List.mem_filter, Bool.and_eq_true, and_assoc]
  -- a lead is stored once
  have hnodup := db.requests.nodup.sublist (List.filter_sublist
    (p := fun r => inPeriod periodFrom periodTo r.receivedAt &&
      db.deliveries.rows.any fun d => d.requestId == r.id).map Request.id)
  rw [hleads, List.toFinset_card_of_nodup hnodup, List.length_map, List.countP_eq_length_filter]

theorem getStats_splits (db : Database) (periodFrom periodTo : Instant) :
    (getStats db periodFrom periodTo).Splits (leadsSent db periodFrom periodTo) where
  deliveries := by
    apply length_eq_of_one_of_three
    intro p
    -- `deliveries.status` has no value outside the three filters
    cases p.1.status <;> rfl
  requests := by
    rw [card_leadsSent, add_comm]
    show db.requests.rows.countP _ = _
    rw [List.countP_eq_countP_filter_add _ _ fun r => db.deliveries.rows.any fun d =>
      d.requestId == r.id, List.countP_filter, List.countP_filter]
    rfl

/-! ## Beside the problem report -/

/-- A period with every lead in it leaves nothing of the join out. -/
theorem sent_of_allWithin (h : db.AllWithin periodFrom periodTo) :
    sent db periodFrom periodTo = db.joined := by
  apply List.filter_eq_self.mpr
  intro p hp
  exact inPeriod_iff.mpr (h p.2 (Table.mem_of_get? (mem_joined.mp hp).2))

theorem deliveriesFailed_of_allWithin (hdb : db.Referenced) (h : db.AllWithin periodFrom periodTo)
    (now : Instant) (stale : Duration) :
    (getStats db periodFrom periodTo).deliveriesFailed =
      (problemsCounts now stale db).get .failed := by
  show (sent db periodFrom periodTo).countP _ = db.deliveries.rows.countP _
  rw [sent_of_allWithin h, List.countP_eq_length_filter]
  exact length_filter_joined hdb fun d => d.status == .failed

theorem requestsWithoutRecipients_of_allWithin (h : db.AllWithin periodFrom periodTo)
    (now : Instant) (stale : Duration) :
    (getStats db periodFrom periodTo).requestsWithoutRecipients =
      (problemsCounts now stale db).get .noRecipients := by
  apply List.countP_congr
  intro r hr
  rw [inPeriod_iff.mpr (h r hr), Bool.true_and]

theorem counts_of_getProblems {call : ProblemsCall} {staleMinutes : ℕ}
    {reason : Option ProblemReason} {limit offset : ℕ} {report : ProblemsResponse}
    (h : getProblems call staleMinutes reason limit offset = .ok report) :
    ∃ stale, report.counts = problemsCounts call.now stale call.counted := by
  cases hstale : timedelta (staleMinutes * 60) with
  | ok stale => exact ⟨stale, by rw [(getProblems_eq_ok_iff hstale).mp h]⟩
  | error e =>
      rw [getProblems, hstale] at h
      cases h

end Counters

/-- Counters of periods that meet add up, the counters of one period describe
one cohort, and over all leads they agree with any problem report on the same
state. -/
theorem stats_agree {settings : Settings} {s : Service} (hs : (service settings).Reachable s) :
    (∀ a b c, a ≤ b → b ≤ c →
      (getStats s.db a c).SumOf (getStats s.db a b) (getStats s.db b c)) ∧
    (∀ periodFrom periodTo,
      (getStats s.db periodFrom periodTo).Splits (leadsSent s.db periodFrom periodTo)) ∧
    ∀ periodFrom periodTo, s.db.AllWithin periodFrom periodTo →
      ∀ (call : ProblemsCall) (staleMinutes : ℕ) (reason : Option ProblemReason)
        (limit offset : ℕ) (report : ProblemsResponse), call.counted = s.db →
        getProblems call staleMinutes reason limit offset = .ok report →
        (getStats s.db periodFrom periodTo).deliveriesFailed = report.counts.get .failed ∧
        (getStats s.db periodFrom periodTo).requestsWithoutRecipients =
          report.counts.get .noRecipients := by
  refine ⟨fun a b c hab hbc => getStats_sumOf s.db hab hbc, getStats_splits s.db, ?_⟩
  intro periodFrom periodTo hall call staleMinutes reason limit offset report hcounted hreport
  obtain ⟨stale, hcounts⟩ := counts_of_getProblems hreport
  rw [hcounts, hcounted]
  exact ⟨deliveriesFailed_of_allWithin (referenced_of_reachable hs) hall _ _,
    requestsWithoutRecipients_of_allWithin hall _ _⟩

namespace StatsAgree

/-- Another lead, which nobody receives. -/
def homeless : IntakeRequest :=
  { Move.lead with idempotencyKey := .ofString "8", recipients := [] }

/-- One lead is given up; ten seconds later the other one arrives. -/
def twoLeads : List (Service → Event) :=
  [Move.accept 0 Move.lead, Move.claim Budget.oneAttempt Move.workerA 1,
    Move.record Move.first 1 Move.timedOut, Move.advance 10000000, Move.accept 16 homeless]

/-- What is counted up to the last of them. -/
def counted : StatsResponse := ⟨0, 10000001, 2, 1, 1, 0, 0, 1, 1, 1⟩

end StatsAgree

open ProblemReport StatsAgree in
/-- A lead in each part of the period, and a report on the same state. -/
theorem stats_agree_twoLeads :
    ∃ (s : Service) (report : ProblemsResponse), getStats s.db 0 10000001 = counted ∧
      counted.SumOf (getStats s.db 0 5000000) (getStats s.db 5000000 10000001) ∧
      counted.Splits (leadsSent s.db 0 10000001) ∧
      getProblems (.inOrder s.clock quarterHour none s.db s.db) 15 none 100 0 = .ok report ∧
      report.counts.get .failed = 1 ∧ report.counts.get .noRecipients = 1 := by
  obtain ⟨s, hs, hp⟩ := exists_reachable_of_moves Budget.oneAttempt twoLeads
    (fun s => decide (getStats s.db 0 10000001 = counted) &&
      decide (s.db.AllWithin 0 10000001)) (by decide +kernel)
  obtain ⟨hstats, hall⟩ := Bool.and_eq_true_iff.mp hp
  have hstats := of_decide_eq_true hstats
  obtain ⟨hsum, hsplits, hagree⟩ := stats_agree hs
  have hsum := hsum 0 5000000 10000001 (by decide) (by decide)
  have hsplits := hsplits 0 10000001
  obtain ⟨hfailed, hnone⟩ := hagree 0 10000001 (of_decide_eq_true hall)
    (.inOrder s.clock quarterHour none s.db s.db) 15 none 100 0 _ rfl
    ((getProblems_eq_ok_iff quarterHour_eq).mpr rfl)
  rw [hstats] at hsum hsplits hfailed hnone
  exact ⟨s, _, hstats, hsum, hsplits, (getProblems_eq_ok_iff quarterHour_eq).mpr rfl, hfailed.symm,
    hnone.symm⟩

end LeadQueue
