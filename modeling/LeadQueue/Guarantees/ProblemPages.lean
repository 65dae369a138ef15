import LeadQueue.Reporting.Report
import LeadQueue.Service

/-!
# Paging through the problems

The deliveries of one lead are created by one statement, so stalled ones share
both columns of the `ORDER BY`, and every page query may leave them in another
order. A page border between two of them is where a problem is shown twice and
another one not at all.
-/

namespace LeadQueue

open Relational Transition

def ProblemItem.problem (item : ProblemItem) : RequestId × Option DeliveryId :=
  (item.requestId, item.deliveryId)

/-- One of several calls that find the same list: the pages are read from `db`,
in any order the query permits. -/
structure ProblemsCall.FindsSame (call : ProblemsCall) (now : Instant) (stale : Duration)
    (filter : Option ProblemReason) (db : Database) : Prop where
  listed : call.listed = db
  same : problemList call.now stale filter db = problemList now stale filter db
  valid : call.Valid stale filter

theorem ProblemsCall.FindsSame.ordered {call : ProblemsCall} {now : Instant} {stale : Duration}
    {filter : Option ProblemReason} {db : Database} (h : call.FindsSame now stale filter db) :
    Paging.Ordered ProblemRow.sortKey (problemList now stale filter db) call.scan := by
  have hvalid := h.valid
  unfold ProblemsCall.Valid at hvalid
  rwa [h.listed, h.same] at hvalid

/-- What the pages show together. -/
def shown (n : ℕ) (reports : ℕ → ProblemsResponse) : List (RequestId × Option DeliveryId) :=
  (List.range n).flatMap fun i => (reports i).items.map ProblemItem.problem

theorem shown_eq {calls : ℕ → ProblemsCall} {reports : ℕ → ProblemsResponse} {staleMinutes : ℕ}
    {stale : Duration} {filter : Option ProblemReason} {limit : ℕ}
    (hstale : timedelta (staleMinutes * 60) = .ok stale)
    (hreports : ∀ i,
      getProblems (calls i) staleMinutes filter limit (i * limit) = .ok (reports i)) (n : ℕ) :
    shown n reports =
      (Paging.pages limit n fun i => (calls i).scan).map ProblemRow.problem := by
  unfold shown Paging.pages
  rw [List.map_flatMap]
  congr 1
  ext1 i
  rw [(getProblems_eq_ok_iff hstale).mp (hreports i), List.map_map]
  rfl

/-- Pages of `limit` problems show every problem of an unchanging list exactly
once, whatever orders the queries leave ties in, exactly when no two problems
with the same date and lead lie on both sides of the border of a page. -/
theorem pages_show_each_problem_iff {now : Instant} {staleMinutes : ℕ} {stale : Duration}
    {filter : Option ProblemReason} {db : Database} {limit n : ℕ}
    (hstale : timedelta (staleMinutes * 60) = .ok stale) (hlimit : 0 < limit)
    (hn : (problemList now stale filter db).length ≤ n * limit) :
    (∀ (calls : ℕ → ProblemsCall) (reports : ℕ → ProblemsResponse),
      (∀ i, (calls i).FindsSame now stale filter db) →
      (∀ i, getProblems (calls i) staleMinutes filter limit (i * limit) = .ok (reports i)) →
      (shown n reports).Perm ((problemList now stale filter db).map ProblemRow.problem)) ↔
    Paging.TiesWithinPages ProblemRow.sortKey limit (problemList now stale filter db) := by
  rw [← Paging.pages_perm_iff (problemList_nodup now stale filter db) hlimit hn]
  constructor
  · intro h scans hscans
    -- the calls that find the rows in these orders
    have hcalls : ∀ i, (ProblemsCall.mk now db db (scans i)).FindsSame now stale filter db :=
      fun i => ⟨rfl, rfl, hscans i⟩
    have hperm := h _ _ hcalls fun i => (getProblems_eq_ok_iff hstale).mpr rfl
    rwa [shown_eq hstale (fun i => (getProblems_eq_ok_iff hstale).mpr rfl) n] at hperm
  · intro h calls reports hcalls hreports
    rw [shown_eq hstale hreports n]
    exact h _ fun i => (hcalls i).ordered

namespace ProblemPages

/-- A lead with two recipients. -/
def twoRecipients : IntakeRequest :=
  { Move.lead with recipients :=
      [⟨.ofString "https://a.example/hook", none, .ofString "https://a.example"⟩,
        ⟨.ofString "https://b.example/hook", none, .ofString "https://b.example"⟩] }

def oneMinute : Duration := 60000000

theorem oneMinute_eq : timedelta ((1 : ℕ) * 60) = .ok oneMinute := by decide +kernel

end ProblemPages

open ProblemPages in
/-- Both deliveries fit on one page. -/
theorem pages_show_each_problem_iff_onePage :
    ∃ s : Service, (problemList s.clock oneMinute none s.db).length = 2 ∧
      ∀ (calls : ℕ → ProblemsCall) (reports : ℕ → ProblemsResponse),
        (∀ i, (calls i).FindsSame s.clock oneMinute none s.db) →
        (∀ i, getProblems (calls i) 1 none 2 (i * 2) = .ok (reports i)) →
        (shown 1 reports).Perm
          ((problemList s.clock oneMinute none s.db).map ProblemRow.problem) := by
  obtain ⟨s, _, hp⟩ := exists_reachable_of_moves .default
    [Move.accept 0 twoRecipients, Move.advance 120000000]
    (fun s => decide ((problemList s.clock oneMinute none s.db).length = 2))
    (by decide +kernel)
  have htwo := of_decide_eq_true hp
  refine ⟨s, htwo, (pages_show_each_problem_iff oneMinute_eq (by decide) (by omega)).mpr ?_⟩
  rintro a _ i ⟨hlow, hhigh⟩
  have hle : i * 2 < 2 := hhigh.trans_le (List.countP_le_length.trans_eq htwo)
  omega

open ProblemPages in
/-- Two stalled deliveries of one lead, one on a page: the second query may find
them the other way round. -/
theorem pages_show_problem_twice :
    ¬ ∀ (settings : Settings) (s : Service) (staleMinutes : ℕ) (stale : Duration)
      (filter : Option ProblemReason) (limit n : ℕ), settings.Validated →
      (service settings).Reachable s → timedelta (staleMinutes * 60) = .ok stale → 0 < limit →
      (problemList s.clock stale filter s.db).length ≤ n * limit →
      ∀ (calls : ℕ → ProblemsCall) (reports : ℕ → ProblemsResponse),
        (∀ i, (calls i).FindsSame s.clock stale filter s.db) →
        (∀ i, getProblems (calls i) staleMinutes filter limit (i * limit) = .ok (reports i)) →
        (shown n reports).Perm
          ((problemList s.clock stale filter s.db).map ProblemRow.problem) := by
  intro h
  obtain ⟨s, hs, hp⟩ := exists_reachable_of_moves .default
    [Move.accept 0 twoRecipients, Move.advance 120000000]
    (fun s =>
      let rows := problemList s.clock oneMinute none s.db
      decide (rows.length ≤ 2 * 1) &&
      (decide (Paging.Ordered ProblemRow.sortKey rows rows) &&
      (decide (Paging.Ordered ProblemRow.sortKey rows rows.reverse) &&
      !decide (((Paging.pages 1 2 fun i => if i = 0 then rows else rows.reverse).map
        ProblemRow.problem).Perm (rows.map ProblemRow.problem)))))
    (by decide +kernel)
  obtain ⟨hlength, hp⟩ := Bool.and_eq_true_iff.mp hp
  obtain ⟨hfirst, hp⟩ := Bool.and_eq_true_iff.mp hp
  obtain ⟨hsecond, hp⟩ := Bool.and_eq_true_iff.mp hp
  let rows := problemList s.clock oneMinute none s.db
  let calls : ℕ → ProblemsCall :=
    fun i => ⟨s.clock, s.db, s.db, if i = 0 then rows else rows.reverse⟩
  have hcalls : ∀ i, (calls i).FindsSame s.clock oneMinute none s.db := by
    intro i
    refine ⟨rfl, rfl, ?_⟩
    show Paging.Ordered ProblemRow.sortKey rows (if i = 0 then rows else rows.reverse)
    split
    · exact of_decide_eq_true hfirst
    · exact of_decide_eq_true hsecond
  have hperm := h .default s 1 oneMinute none 1 2 Settings.default_validated hs oneMinute_eq
    Nat.one_pos (of_decide_eq_true hlength) calls _ hcalls
    fun i => (getProblems_eq_ok_iff oneMinute_eq).mpr rfl
  rw [shown_eq oneMinute_eq (fun i => (getProblems_eq_ok_iff oneMinute_eq).mpr rfl) 2] at hperm
  rw [Bool.not_eq_true'] at hp
  exact of_decide_eq_false hp hperm

end LeadQueue
