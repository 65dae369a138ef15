import LeadQueue.Reporting.Report
import LeadQueue.Service

/-!
# Counts and list of one report

On one state of the database the counts are the numbers of the list. The two
statements of `getProblems` may see different states, and then the report
agrees with itself only when the numbers happen to be the same on both.
-/

namespace LeadQueue

open Relational Transition

/-- The problems with this reason. -/
def problemCount (now : Instant) (stale : Duration) (db : Database) (reason : ProblemReason) : ℕ :=
  (problems now stale db).countP fun row => row.reason == reason

def ProblemsResponse.itemsWith (report : ProblemsResponse) (reason : ProblemReason) : ℕ :=
  report.items.countP fun item => item.reason == reason

/-- For every reason that `selected` admits there are as many items as counted,
and there are as many items in all as the total says. -/
structure ProblemsResponse.ConsistentFor (selected : ProblemReason → Prop)
    (report : ProblemsResponse) : Prop where
  counts : ∀ reason, selected reason → report.itemsWith reason = report.counts.get reason
  total : report.total = report.items.length

/-! ## One report -/

section Report

variable {call : ProblemsCall} {staleMinutes : ℕ} {stale : Duration}
  {filter : Option ProblemReason} {limit : ℕ} {report : ProblemsResponse}

theorem itemsWith_of_listed (hstale : timedelta (staleMinutes * 60) = .ok stale)
    (hlisted : call.listed.Referenced) (hvalid : call.Valid stale filter)
    (hlimit : call.scan.length ≤ limit)
    (hreport : getProblems call staleMinutes filter limit 0 = .ok report)
    (reason : ProblemReason) :
    report.itemsWith reason =
      if reason.listed filter then problemCount call.now stale call.listed reason else 0 := by
  obtain rfl := (getProblems_eq_ok_iff hstale).mp hreport
  have hpage : Paging.page limit 0 call.scan = call.scan := by
    unfold Paging.page
    rw [List.drop_zero, List.take_of_length_le hlimit]
  unfold ProblemsResponse.itemsWith problemCount
  rw [hpage, List.countP_map, countP_reason_problems hlisted,
    ← countP_reason_problemList hlisted, ← hvalid.perm.countP_eq]
  rfl

theorem counts_of_counted (hstale : timedelta (staleMinutes * 60) = .ok stale)
    (hcounted : call.counted.Referenced)
    (hreport : getProblems call staleMinutes filter limit 0 = .ok report)
    (reason : ProblemReason) :
    report.counts.get reason = problemCount call.now stale call.counted reason := by
  obtain rfl := (getProblems_eq_ok_iff hstale).mp hreport
  exact (countP_reason_problems hcounted _ _ _).symm

/-- The total is the sum of the counts the filter selects. -/
theorem total_eq (hstale : timedelta (staleMinutes * 60) = .ok stale)
    (hreport : getProblems call staleMinutes filter limit 0 = .ok report) :
    report.total =
      (if ProblemReason.noRecipients.listed filter then report.counts.get .noRecipients else 0) +
      (if ProblemReason.failed.listed filter then report.counts.get .failed else 0) +
      (if ProblemReason.stalled.listed filter then report.counts.get .stalled else 0) := by
  obtain rfl := (getProblems_eq_ok_iff hstale).mp hreport
  cases filter with
  | none => rfl
  | some wanted =>
      cases wanted <;> simp [ProblemReason.listed]

theorem length_items (report : ProblemsResponse) :
    report.items.length = report.itemsWith .noRecipients + report.itemsWith .failed +
      report.itemsWith .stalled := by
  apply length_eq_of_one_of_three
  intro item
  cases item.reason <;> rfl

/-- Of the reasons it lists: as many problems when the list is read as when they
were counted. -/
theorem consistentFor_listed_iff (hstale : timedelta (staleMinutes * 60) = .ok stale)
    (hcounted : call.counted.Referenced) (hlisted : call.listed.Referenced)
    (hvalid : call.Valid stale filter) (hlimit : call.scan.length ≤ limit)
    (hreport : getProblems call staleMinutes filter limit 0 = .ok report) :
    report.ConsistentFor (fun reason => reason.listed filter = true) ↔
      ∀ reason, reason.listed filter = true →
        problemCount call.now stale call.counted reason =
          problemCount call.now stale call.listed reason := by
  have hitems := itemsWith_of_listed hstale hlisted hvalid hlimit hreport
  have hcounts := counts_of_counted hstale hcounted hreport
  constructor
  · rintro ⟨hsame, _⟩ reason hin
    rw [← hcounts, ← hsame reason hin, hitems, if_pos hin]
  · intro hsame
    have hagree : ∀ reason, report.itemsWith reason =
        if reason.listed filter then report.counts.get reason else 0 := by
      intro reason
      rw [hitems]
      split
      · rename_i hin
        rw [hcounts, hsame reason hin]
      · rfl
    refine ⟨fun reason hin => (hagree reason).trans (if_pos hin), ?_⟩
    rw [total_eq hstale hreport, length_items, hagree, hagree, hagree]

/-- Of all three: none of the reasons that are counted but not listed. -/
theorem consistentFor_all_iff (hstale : timedelta (staleMinutes * 60) = .ok stale)
    (hcounted : call.counted.Referenced) (hlisted : call.listed.Referenced)
    (hvalid : call.Valid stale filter) (hlimit : call.scan.length ≤ limit)
    (hreport : getProblems call staleMinutes filter limit 0 = .ok report) :
    report.ConsistentFor (fun _ => True) ↔
      ∀ reason, problemCount call.now stale call.counted reason =
        if reason.listed filter then problemCount call.now stale call.listed reason else 0 := by
  have hitems := itemsWith_of_listed hstale hlisted hvalid hlimit hreport
  have hcounts := counts_of_counted hstale hcounted hreport
  constructor
  · rintro ⟨hsame, _⟩ reason
    rw [← hcounts, ← hsame reason trivial, hitems]
  · intro hsame
    have hagree : ∀ reason, report.itemsWith reason = report.counts.get reason := by
      intro reason
      rw [hitems, hcounts, hsame]
    have hzero : ∀ reason : ProblemReason,
        (if reason.listed filter then report.counts.get reason else 0) =
          report.counts.get reason := by
      intro reason
      rw [hcounts, hsame reason]
      split <;> rfl
    refine ⟨fun reason _ => hagree reason, ?_⟩
    rw [total_eq hstale hreport, length_items, hagree, hagree, hagree, hzero, hzero, hzero]

/-- The report agrees with itself, for the reasons it lists, exactly when there
are as many problems with each of them when the list is read as when they were
counted. Of the other reasons, which are counted but not listed, there must be
none for the counts to agree with the items. -/
theorem report_consistent_iff (hstale : timedelta (staleMinutes * 60) = .ok stale)
    (hcounted : call.counted.Referenced) (hlisted : call.listed.Referenced)
    (hvalid : call.Valid stale filter) (hlimit : call.scan.length ≤ limit)
    (hreport : getProblems call staleMinutes filter limit 0 = .ok report) :
    (report.ConsistentFor (fun reason => reason.listed filter = true) ↔
      ∀ reason, reason.listed filter = true →
        problemCount call.now stale call.counted reason =
          problemCount call.now stale call.listed reason) ∧
    (report.ConsistentFor (fun _ => True) ↔
      ∀ reason, problemCount call.now stale call.counted reason =
        if reason.listed filter then problemCount call.now stale call.listed reason else 0) :=
  ⟨consistentFor_listed_iff hstale hcounted hlisted hvalid hlimit hreport,
    consistentFor_all_iff hstale hcounted hlisted hvalid hlimit hreport⟩

end Report

/-! ## Runs -/

/-- A step after which there are as many problems with each reason as before. -/
def Service.KeepsProblems (settings : Settings) (now : Instant) (stale : Duration) (s : Service)
    (e : Event) : Prop :=
  ∀ t, Service.step settings s e = some t → ∀ reason,
    problemCount now stale t.db reason = problemCount now stale s.db reason

theorem problemCount_of_run {settings : Settings} {now : Instant} {stale : Duration} {s t : Service}
    (h : (service settings).LaterBy (Service.KeepsProblems settings now stale) s t)
    (reason : ProblemReason) :
    problemCount now stale t.db reason = problemCount now stale s.db reason := by
  induction h with
  | refl => rfl
  | step _ hkeeps hstep ih => exact (hkeeps _ hstep reason).trans ih

/-- Transactions that commit between the two statements do no harm as long as
each of them keeps the numbers. -/
theorem report_consistent_of_run {settings : Settings} {s t : Service} {call : ProblemsCall}
    {staleMinutes : ℕ} {stale : Duration} {filter : Option ProblemReason} {limit : ℕ}
    {report : ProblemsResponse} (hs : (service settings).Reachable s)
    (hst : (service settings).LaterBy (Service.KeepsProblems settings call.now stale) s t)
    (hcounted : call.counted = s.db) (hlisted : call.listed = t.db)
    (hstale : timedelta (staleMinutes * 60) = .ok stale) (hvalid : call.Valid stale filter)
    (hlimit : call.scan.length ≤ limit)
    (hreport : getProblems call staleMinutes filter limit 0 = .ok report) :
    report.ConsistentFor fun reason => reason.listed filter = true := by
  have hfk : call.counted.Referenced := by
    rw [hcounted]
    exact referenced_of_reachable hs
  have hfk' : call.listed.Referenced := by
    rw [hlisted]
    exact referenced_of_reachable (hst.reachable hs)
  apply (consistentFor_listed_iff hstale hfk hfk' hvalid hlimit hreport).mpr
  intro reason _
  rw [hcounted, hlisted, problemCount_of_run hst]

namespace ProblemReport

/-- A lead that nobody receives. -/
def homeless : IntakeRequest := { Move.lead with recipients := [] }

def quarterHour : Duration := 900000000

theorem quarterHour_eq : timedelta ((15 : ℕ) * 60) = .ok quarterHour := by decide +kernel

/-- The whole report of one call, read from two states. -/
def reportOf (now : Instant) (counted listed : Database) : Except Raised ProblemsResponse :=
  getProblems (.inOrder now quarterHour none counted listed) 15 none 100 0

end ProblemReport

open ProblemReport in
/-- A lead without recipients, and nothing committed in between. -/
theorem report_consistent_iff_quiet :
    ∃ (s : Service) (report : ProblemsResponse), reportOf s.clock s.db s.db = .ok report ∧
      report.itemsWith .noRecipients = 1 ∧ report.ConsistentFor fun _ => True := by
  obtain ⟨s, hs, hp⟩ := exists_reachable_of_moves .default [Move.accept 0 homeless]
    (fun s =>
      decide ((ProblemsCall.inOrder s.clock quarterHour none s.db s.db).scan.length ≤ 100) &&
      (reportOf s.clock s.db s.db).toOption.any fun report : ProblemsResponse =>
        decide (report.itemsWith .noRecipients = 1)) (by decide +kernel)
  obtain ⟨hlimit, hp⟩ := Bool.and_eq_true_iff.mp hp
  obtain ⟨report, hok, hone⟩ := Fallible.exists_ok_of_any hp
  have hfk := referenced_of_reachable hs
  have hboth := report_consistent_iff quarterHour_eq hfk hfk
    (ProblemsCall.inOrder_valid _ _ _ _ _) (of_decide_eq_true hlimit) hok
  exact ⟨s, report, hok, of_decide_eq_true hone, hboth.2.mpr fun _ => rfl⟩

open ProblemReport in
/-- The lead is committed between the two statements: nothing was counted, and
one problem is listed. -/
theorem report_contradicts_itself :
    ¬ ∀ (settings : Settings) (s t : Service) (call : ProblemsCall) (staleMinutes : ℕ)
      (stale : Duration) (filter : Option ProblemReason) (limit : ℕ) (report : ProblemsResponse),
      settings.Validated → (service settings).Reachable s → (service settings).Later s t →
      call.now ≤ s.clock → call.counted = s.db → call.listed = t.db →
      timedelta (staleMinutes * 60) = .ok stale → call.Valid stale filter →
      call.scan.length ≤ limit → getProblems call staleMinutes filter limit 0 = .ok report →
      report.ConsistentFor fun reason => reason.listed filter = true := by
  intro h
  obtain ⟨s, t, hs, hst, hp⟩ := exists_later_of_moves .default (fun _ _ => True) []
    [Move.accept 0 homeless]
    (fun s t =>
      decide ((ProblemsCall.inOrder s.clock quarterHour none s.db t.db).scan.length ≤ 100) &&
      (reportOf s.clock s.db t.db).toOption.any fun report : ProblemsResponse =>
        decide (report.itemsWith .noRecipients ≠ report.counts.get .noRecipients))
    (by decide +kernel)
  obtain ⟨hlimit, hp⟩ := Bool.and_eq_true_iff.mp hp
  obtain ⟨report, hok, hne⟩ := Fallible.exists_ok_of_any hp
  have hsame := h .default s t _ 15 quarterHour none 100 report Settings.default_validated hs hst
    le_rfl rfl rfl quarterHour_eq (ProblemsCall.inOrder_valid _ _ _ _ _)
    (of_decide_eq_true hlimit) hok
  exact of_decide_eq_true hne (hsame.counts .noRecipients rfl)

end LeadQueue
