import LeadQueue.Library.Paging
import LeadQueue.Reporting
import Mathlib.Data.Prod.Lex

/-!
# The problem report

`getProblems` counts the problems in one statement and reads a page of the list
in a second one. Both run in one READ COMMITTED transaction: they share `now()`,
and each of them sees what is committed when it starts.
-/

namespace LeadQueue

open Relational

/-! ## The counts -/

structure ProblemCounts where
  noRecipients : ℕ
  failed : ℕ
  stalled : ℕ
deriving DecidableEq, Repr

def ProblemCounts.get (counts : ProblemCounts) : ProblemReason → ℕ
  | .noRecipients => counts.noRecipients
  | .failed => counts.failed
  | .stalled => counts.stalled

/-- `sum(counts.values())`. -/
def ProblemCounts.sum (counts : ProblemCounts) : ℕ :=
  counts.noRecipients + counts.failed + counts.stalled

/-- `_PROBLEMS_COUNTS`. -/
def problemsCounts (now : Instant) (stale : Duration) (db : Database) : ProblemCounts where
  noRecipients :=
    db.requests.rows.countP fun r => !db.deliveries.rows.any fun d => d.requestId == r.id
  failed := db.deliveries.rows.countP fun d => d.status == .failed
  stalled := db.deliveries.rows.countP fun d => d.stalled now stale

/-! ## A page of the list -/

/-- `$2 IS NULL OR reason = $2`. -/
def ProblemReason.listed (filter : Option ProblemReason) (reason : ProblemReason) : Bool :=
  filter.all fun wanted => reason == wanted

/-- The rows `_PROBLEMS_PAGE` orders. -/
def problemList (now : Instant) (stale : Duration) (filter : Option ProblemReason)
    (db : Database) : List ProblemRow :=
  (problems now stale db).filter fun row => row.reason.listed filter

/-- `ORDER BY trouble_since ASC, request_id`. -/
def ProblemRow.sortKey (row : ProblemRow) : Instant ×ₗ ℕ :=
  toLex (row.troubleSince, row.requestId.toNat)

structure ProblemItem where
  reason : ProblemReason
  requestId : RequestId
  sourceId : PgText
  receivedAt : Instant
  ageSeconds : ℚ
  deliveryId : Option DeliveryId
  recipientName : Option PgText
  recipientUrl : Option PgText
  status : Option DeliveryStatus
  attempts : Option ℕ
  nextAttemptAt : Option Instant
  lastErrorKind : Option ErrorKind
  lastStatusCode : Option ℕ
  lastError : Option PgText

/-- A row as it is shown: its age in place of the date. -/
def ProblemRow.item (now : Instant) (row : ProblemRow) : ProblemItem where
  reason := row.reason
  requestId := row.requestId
  sourceId := row.sourceId
  receivedAt := row.receivedAt
  ageSeconds := float (((now - row.troubleSince : ℤ) : ℚ) / 1000000)
  deliveryId := row.deliveryId
  recipientName := row.recipientName
  recipientUrl := row.recipientUrl
  status := row.status
  attempts := row.attempts
  nextAttemptAt := row.nextAttemptAt
  lastErrorKind := row.lastErrorKind
  lastStatusCode := row.lastStatusCode
  lastError := row.lastError

/-- What the database decides on its own for one call: the clock, what each of
the two statements sees, and the order in which the second one finds the rows. -/
structure ProblemsCall where
  now : Instant
  counted : Database
  listed : Database
  scan : List ProblemRow

/-- The scan is the list in an order the `ORDER BY` permits. -/
def ProblemsCall.Valid (call : ProblemsCall) (stale : Duration) (filter : Option ProblemReason) :
    Prop :=
  Paging.Ordered ProblemRow.sortKey (problemList call.now stale filter call.listed) call.scan

/-- A call that leaves ties in table order. -/
def ProblemsCall.inOrder (now : Instant) (stale : Duration) (filter : Option ProblemReason)
    (counted listed : Database) : ProblemsCall where
  now := now
  counted := counted
  listed := listed
  scan := (problemList now stale filter listed).insertionSort fun a b => a.sortKey ≤ b.sortKey

theorem ProblemsCall.inOrder_valid (now : Instant) (stale : Duration)
    (filter : Option ProblemReason) (counted listed : Database) :
    (ProblemsCall.inOrder now stale filter counted listed).Valid stale filter :=
  Paging.exists_ordered _ _

structure ProblemsResponse where
  generatedAt : Instant
  staleAfterSeconds : ℕ
  counts : ProblemCounts
  total : ℕ
  limit : ℕ
  offset : ℕ
  items : List ProblemItem

/-- `get_problems`. -/
def getProblems (call : ProblemsCall) (staleMinutes : ℕ) (reason : Option ProblemReason)
    (limit offset : ℕ) : Except Raised ProblemsResponse := do
  let stale ← timedelta (staleMinutes * 60)
  let counts := problemsCounts call.now stale call.counted
  let pageRows := Paging.page limit offset call.scan
  return {
    generatedAt := call.now
    staleAfterSeconds := staleMinutes * 60
    counts := counts
    -- of the counts, not of the page: a page past the end still tells
    total := (reason.map counts.get).getD counts.sum
    limit := limit
    offset := offset
    items := pageRows.map (ProblemRow.item call.now) }

theorem getProblems_eq_ok_iff {call : ProblemsCall} {staleMinutes : ℕ}
    {reason : Option ProblemReason} {limit offset : ℕ} {stale : Duration}
    {report : ProblemsResponse} (hstale : timedelta (staleMinutes * 60) = .ok stale) :
    getProblems call staleMinutes reason limit offset = .ok report ↔
      report =
        { generatedAt := call.now
          staleAfterSeconds := staleMinutes * 60
          counts := problemsCounts call.now stale call.counted
          total := (reason.map (problemsCounts call.now stale call.counted).get).getD
            (problemsCounts call.now stale call.counted).sum
          limit := limit
          offset := offset
          items := (Paging.page limit offset call.scan).map (ProblemRow.item call.now) } := by
  unfold getProblems
  rw [hstale]
  show Except.ok _ = Except.ok report ↔ _
  rw [Except.ok.injEq, eq_comm]

/-! ## Both statements count alike -/

theorem joined_fst {db : Database} (h : db.Referenced) :
    db.joined.map Prod.fst = db.deliveries.rows := by
  unfold Database.joined
  have hall : ∀ rows : List Delivery,
      (∀ d ∈ rows, ∃ lead, db.requests.get? d.requestId = some lead) →
      (rows.filterMap fun d => (db.requests.get? d.requestId).map fun r => (d, r)).map Prod.fst =
        rows := by
    intro rows hrows
    induction rows with
    | nil => rfl
    | cons d rest ih =>
        obtain ⟨lead, hlead⟩ := hrows d List.mem_cons_self
        rw [List.filterMap_cons, hlead]
        show d :: _ = d :: rest
        rw [ih fun d' hd' => hrows d' (List.mem_cons_of_mem _ hd')]
  exact hall _ h

/-- Counting deliveries needs no join. -/
theorem length_filter_joined {db : Database} (h : db.Referenced) (p : Delivery → Bool) :
    (db.joined.filter fun q => p q.1).length = db.deliveries.rows.countP p := by
  rw [← joined_fst h, List.countP_map, List.countP_eq_length_filter]
  rfl

theorem countP_map_reason {γ : Type} (f : γ → ProblemRow) (rows : List γ)
    (reason reason' : ProblemReason) (hf : ∀ x, (f x).reason = reason') :
    (rows.map f).countP (fun row => row.reason == reason) =
      if reason' = reason then rows.length else 0 := by
  rw [List.countP_map]
  split
  · rename_i heq
    exact List.countP_eq_length.mpr fun x _ => beq_iff_eq.mpr ((hf x).trans heq)
  · rename_i hne
    exact List.countP_eq_zero.mpr fun x _ heq => hne ((hf x).symm.trans (eq_of_beq heq))

/-- The direct counts agree with the list. -/
theorem countP_reason_problems {db : Database} (h : db.Referenced) (now : Instant)
    (stale : Duration) (reason : ProblemReason) :
    (problems now stale db).countP (fun row => row.reason == reason) =
      (problemsCounts now stale db).get reason := by
  rw [problems, List.countP_append, List.countP_append,
    countP_map_reason ProblemRow.ofLead _ _ .noRecipients fun _ => rfl,
    countP_map_reason (fun p : Delivery × Request => ProblemRow.ofFailed p.1 p.2) _ _ .failed
      fun _ => rfl,
    countP_map_reason (fun p : Delivery × Request => ProblemRow.ofStalled p.1 p.2) _ _ .stalled
      fun _ => rfl,
    ← List.countP_eq_length_filter, length_filter_joined h fun d => d.status == .failed,
    length_filter_joined h (Delivery.stalled now stale)]
  cases reason <;> simp [problemsCounts, ProblemCounts.get]

theorem countP_reason_problemList {db : Database} (h : db.Referenced) (now : Instant)
    (stale : Duration) (filter : Option ProblemReason) (reason : ProblemReason) :
    (problemList now stale filter db).countP (fun row => row.reason == reason) =
      if reason.listed filter then (problemsCounts now stale db).get reason else 0 := by
  rw [problemList, List.countP_filter, ← countP_reason_problems h]
  split
  · rename_i hlisted
    apply List.countP_congr
    intro row _
    simp only [Bool.and_eq_true, beq_iff_eq]
    exact and_iff_left_of_imp fun heq => heq ▸ hlisted
  · rename_i hnot
    apply List.countP_eq_zero.mpr
    intro row _
    simp only [Bool.and_eq_true, beq_iff_eq, not_and]
    rintro rfl
    exact hnot

/-- Of three filters every row passes one: the parts are the whole. -/
theorem length_eq_of_one_of_three {α : Type} {p q r : α → Bool}
    (h : ∀ x, (p x).toNat + (q x).toNat + (r x).toNat = 1) (rows : List α) :
    rows.length = rows.countP p + rows.countP q + rows.countP r := by
  have hbit : ∀ b : Bool, (if b = true then 1 else 0) = b.toNat := by decide
  induction rows with
  | nil => rfl
  | cons x rest ih =>
      have hx := h x
      rw [List.length_cons, ih, List.countP_cons, List.countP_cons, List.countP_cons, hbit, hbit,
        hbit]
      omega

/-! ## The rows are distinct -/

/-- Rows are distinct when those with a value of `f` differ by it, and the
others by `g`. -/
theorem nodup_map_pair {α β γ : Type} {f : α → Option β} {g : α → γ} {xs : List α}
    (hsome : (xs.filterMap f).Nodup) (hnone : ((xs.filter fun x => (f x).isNone).map g).Nodup) :
    (xs.map fun x => (g x, f x)).Nodup := by
  induction xs with
  | nil => exact List.nodup_nil
  | cons x rest ih =>
      rw [List.map_cons, List.nodup_cons]
      cases hfx : f x with
      | none =>
          rw [List.filterMap_cons_none hfx] at hsome
          rw [List.filter_cons_of_pos (by rw [hfx]; rfl), List.map_cons, List.nodup_cons] at hnone
          refine ⟨fun hmem => hnone.1 ?_, ih hsome hnone.2⟩
          obtain ⟨y, hy, heq⟩ := List.mem_map.mp hmem
          obtain ⟨hg, hf⟩ := Prod.mk.inj heq
          exact List.mem_map.mpr ⟨y, List.mem_filter.mpr ⟨hy, by rw [hf]; rfl⟩, hg⟩
      | some b =>
          rw [List.filterMap_cons_some hfx, List.nodup_cons] at hsome
          rw [List.filter_cons_of_neg (by rw [hfx]; simp)] at hnone
          refine ⟨fun hmem => hsome.1 ?_, ih hsome.2 hnone⟩
          obtain ⟨y, hy, heq⟩ := List.mem_map.mp hmem
          exact List.mem_filterMap.mpr ⟨y, hy, (Prod.mk.inj heq).2⟩

/-- What tells one listed problem from another. -/
def ProblemRow.problem (row : ProblemRow) : RequestId × Option DeliveryId :=
  (row.requestId, row.deliveryId)

theorem problems_nodup (now : Instant) (stale : Duration) (db : Database) :
    ((problems now stale db).map ProblemRow.problem).Nodup := by
  apply nodup_map_pair problems_deliveryId_nodup
  -- without a delivery: the leads, by their ids
  have hlead : ∀ leads : List Request, ((leads.map ProblemRow.ofLead).filter
      fun row => row.deliveryId.isNone).map ProblemRow.requestId = leads.map Request.id := by
    intro leads
    rw [List.filter_eq_self.mpr, List.map_map]
    · rfl
    · intro row hrow
      obtain ⟨r, _, rfl⟩ := List.mem_map.mp hrow
      rfl
  have hdelivery : ∀ (f : Delivery × Request → ProblemRow) (rows : List (Delivery × Request)),
      (∀ p, (f p).deliveryId.isNone = false) →
      (rows.map f).filter (fun row => row.deliveryId.isNone) = [] := by
    intro f rows hf
    apply List.filter_eq_nil_iff.mpr
    intro row hrow
    obtain ⟨p, _, rfl⟩ := List.mem_map.mp hrow
    rw [hf p]
    exact Bool.false_ne_true
  rw [problems, List.filter_append, List.filter_append, hdelivery _ _ fun _ => rfl,
    hdelivery _ _ fun _ => rfl, List.append_nil, List.append_nil, hlead]
  exact db.requests.nodup.sublist (List.filter_sublist.map _)

theorem problemList_nodup (now : Instant) (stale : Duration) (filter : Option ProblemReason)
    (db : Database) : ((problemList now stale filter db).map ProblemRow.problem).Nodup :=
  (problems_nodup now stale db).sublist (List.filter_sublist.map _)

end LeadQueue
