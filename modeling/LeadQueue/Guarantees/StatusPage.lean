import LeadQueue.Guarantees.DeliveredFinal
import LeadQueue.Guarantees.JournalAttribution
import LeadQueue.Guarantees.JournalCoverage
import LeadQueue.Reporting.Status

/-!
# The status page does not contradict itself

The page puts the columns of a delivery beside its journal. Read in one
snapshot, the two agree: the last outcome is that of a line of the log, no line
is numbered above the attempts made, the attempt under way has no line yet, and
no line of the lead's journal is missing.
-/

namespace LeadQueue

open Relational Transition

/-! ## The outcome columns -/

/-- The outcome columns of the row are those of the entry. -/
structure Attempt.QuotedBy (a : Attempt) (d : Delivery) : Prop where
  known : a.outcome ≠ .unknown
  outcome : d.lastOutcome = some a.outcome
  statusCode : d.lastStatusCode = a.statusCode
  failure : a.outcome = .failure → d.lastErrorKind = a.errorKind ∧ d.lastError = a.responseExcerpt
  success : a.outcome = .success → d.lastErrorKind = none ∧ d.lastError = none

namespace Life

/-- The last outcome, if there is one, is that of an entry. -/
def Quotes (l : Life) : Prop :=
  l.row.lastOutcome.isSome → ∃ n a, l.journal n = some a ∧ a.QuotedBy l.row

/-- The entry a record leaves, over nothing or over a placeholder. -/
theorem journalAfter_eq {entry : Attempt} {old : Option Attempt}
    (hold : ∀ a, old = some a → a.outcome = .unknown) :
    (journalAfter entry old).outcome = entry.outcome ∧
      (journalAfter entry old).statusCode = entry.statusCode ∧
      (journalAfter entry old).errorKind = entry.errorKind ∧
      (journalAfter entry old).responseExcerpt = entry.responseExcerpt := by
  cases old with
  | none => exact ⟨rfl, rfl, rfl, rfl⟩
  | some a =>
      simp only [journalAfter, Option.map_some, Option.getD_some, replaceUnknown,
        if_pos (hold a rfl), and_self]

/-- A step that leaves the row's outcome columns alone keeps the quotation. -/
theorem Quotes.of_same {settings : Settings} {l l' : Life} {d : Event} (h : l.Quotes)
    (hinv : l.Inv settings) (hstep : Step settings l d l')
    (houtcome : l'.row.lastOutcome = l.row.lastOutcome)
    (hstatus : l'.row.lastStatusCode = l.row.lastStatusCode)
    (hkind : l'.row.lastErrorKind = l.row.lastErrorKind)
    (herror : l'.row.lastError = l.row.lastError) : l'.Quotes := by
  intro hsome
  obtain ⟨n, a, ha, hquoted⟩ := h (houtcome ▸ hsome)
  -- a known entry is not touched any more
  refine ⟨n, a, (Step.journal hinv hstep ha).resolve_right fun hun => hquoted.known hun.1, ?_⟩
  exact ⟨hquoted.known, houtcome.trans hquoted.outcome, hstatus.trans hquoted.statusCode,
    by rw [hkind, herror]; exact hquoted.failure, by rw [hkind, herror]; exact hquoted.success⟩

theorem Quotes.step {settings : Settings} {l l' : Life} {d : Event} (h : l.Quotes)
    (hinv : l.Inv settings) (hstep : Step settings l d l') : l'.Quotes := by
  have hsame := h.of_same hinv hstep
  cases hstep with
  | advance _ => exact h
  | claim _ _ _ => exact hsame rfl rfl rfl rfl
  | requeue _ _ => exact hsame rfl rfl rfl rfl
  | @success n c result _ now ms text _ hnone hc hs _ =>
      have hrow : (l.recorded n result (successRow result now l.row)
          (attemptEntry c.workerId c.delivery result ms text none)).row =
            if l.row.status = .delivered then l.row else deliveredRow result now l.row := rfl
      by_cases hdelivered : l.row.status = .delivered
      · rw [if_pos hdelivered] at hrow
        exact hsame (by rw [hrow]) (by rw [hrow]) (by rw [hrow]) (by rw [hrow])
      · rw [if_neg hdelivered] at hrow
        intro _
        refine ⟨n, _, journal_recorded_self, ?_⟩
        obtain ⟨houtcome, hstatus, _, _⟩ := @journalAfter_eq
          (attemptEntry c.workerId c.delivery result ms text none) _
          fun a ha => hinv.unrecorded hnone ha
        have hsuccess : (attemptEntry c.workerId c.delivery result ms text none).outcome =
            .success := if_pos hs
        rw [hrow]
        exact ⟨by simp [houtcome, hsuccess], by rw [houtcome, hsuccess]; rfl, by rw [hstatus]; rfl,
          by simp [houtcome, hsuccess], fun _ => ⟨rfl, rfl⟩⟩
  | @failure n c result _ now ms lastError scheduled _ delay _ hnone hc hs _ _ _ =>
      have hrow : (l.recorded n result
          (failureRow settings c result lastError delay now l.row)
          (attemptEntry c.workerId c.delivery result ms lastError scheduled)).row =
            failureRow settings c result lastError delay now l.row := rfl
      rcases @failureRow_cases settings c result lastError delay now l.row with
        ⟨_, _, heq⟩ | ⟨_, heq⟩
      · replace hrow := hrow.trans heq
        intro _
        refine ⟨n, _, journal_recorded_self, ?_⟩
        obtain ⟨houtcome, hstatus, hkind, hexcerpt⟩ := @journalAfter_eq
          (attemptEntry c.workerId c.delivery result ms lastError scheduled) _
          fun a ha => hinv.unrecorded hnone ha
        have hfailure : (attemptEntry c.workerId c.delivery result ms lastError scheduled).outcome =
            .failure := if_neg (by simp [hs])
        rw [hrow]
        exact ⟨by simp [houtcome, hfailure], by rw [houtcome, hfailure]; rfl, by rw [hstatus]; rfl,
          fun _ => ⟨by rw [hkind]; rfl, by rw [hexcerpt]; rfl⟩, by simp [houtcome, hfailure]⟩
      · replace hrow := hrow.trans heq
        exact hsame (by rw [hrow]) (by rw [hrow]) (by rw [hrow]) (by rw [hrow])

end Life

theorem quotes_of_reachable {settings : Settings} {l : Life} (h : (life settings).Reachable l) :
    l.Quotes := by
  refine h.invariant (fun l hstarts => ?_)
    fun _ _ _ hs hquotes _ hstep => hquotes.step (life_inv hs) hstep
  obtain ⟨_, _, _, _, _, hrow, _⟩ := hstarts
  intro hsome
  rw [hrow] at hsome
  cases hsome

/-! ## The page -/

/-- The log of a recipient is the journal of its delivery, and agrees with the row. -/
structure DeliveryOut.Consistent (out : DeliveryOut) (db : Database) : Prop where
  log : out.attemptLog.Perm
    ((db.deliveryAttempts.rows.filter fun a => a.deliveryId == out.deliveryId).map Attempt.out)
  ordered : (out.attemptLog.map AttemptOut.attemptNumber).Pairwise (· < ·)
  numbered : ∀ line ∈ out.attemptLog,
    1 ≤ line.attemptNumber ∧ line.attemptNumber ≤ out.totalAttempts
  /-- The attempt under way has no line yet. -/
  underWay : out.status = .inFlight → ∀ line ∈ out.attemptLog,
    line.attemptNumber < out.totalAttempts
  quoted : ∀ outcome, out.lastOutcome = some outcome → ∃ line ∈ out.attemptLog,
    line.outcome = outcome ∧ line.statusCode = out.lastStatusCode ∧
      (outcome = .failure → line.errorKind = out.lastErrorKind ∧
        line.responseExcerpt = out.lastError)
  delivered : out.status = .delivered → ∃ line ∈ out.attemptLog, line.outcome = .success
  failed : out.status = .failed → ∃ line ∈ out.attemptLog, line.outcome = .failure
  deliveredAt : out.deliveredAt.isSome ↔ out.status = .delivered
  failedAt : out.failedAt.isSome ↔ out.status = .failed
  nextAttempt : out.nextAttemptAt.isSome ↔ out.status = .pending ∨ out.status = .inFlight

/-- What a reader of the page may rely on: each delivery of the lead once, the
lead's journal without a gap, each entry in the log of its own delivery, and rows
that agree with their logs. -/
structure RequestStatus.Consistent (page : RequestStatus) (db : Database) : Prop where
  recipients : (page.recipients.map DeliveryOut.deliveryId).Perm
    ((db.deliveriesOf page.requestId).map Delivery.id)
  state : page.state = db.leadState page.requestId
  journal : (page.recipients.flatMap DeliveryOut.attemptLog).Perm
    ((db.deliveryAttempts.rows.filter fun a => a.requestId == page.requestId).map Attempt.out)
  agree : ∀ out ∈ page.recipients, out.Consistent db

/-- The delivery and the lead of a journal entry. -/
theorem delivery_of_entry {settings : Settings} {s : Service} (hs : (service settings).Reachable s)
    {a : Attempt} (ha : a ∈ s.db.deliveryAttempts.rows) :
    ∃ d ∈ s.db.deliveries.rows, d.id = a.deliveryId ∧ d.requestId = a.requestId := by
  obtain ⟨x, hx, hxa, _⟩ := life_of_entry hs ha
  obtain ⟨_, hrow, hid, _⟩ := Service.parts_of_life hx
  obtain ⟨c, hc, habout, _⟩ := traced_of_reachable (life_of_reachable hs hx) _ _ hxa
  have hfits := (inv_of_reachable hs hx).fits _ _ hc
  exact ⟨x.row, Table.mem_of_get? hrow, hid, hfits.requestId.symm.trans habout.requestId.symm⟩

section Page

variable {settings : Settings} {s : Service} {requestId : RequestId} {scan : StatusScan}
  {d : Delivery}

/-- The part of the second query's answer that becomes the log of a delivery. -/
def StatusScan.logOf (scan : StatusScan) (id : DeliveryId) : List Attempt :=
  scan.attempts.filter fun a => a.deliveryId = id

/-- An entry of a delivery of the lead is a line of its log. -/
theorem mem_logOf (hs : (service settings).Reachable s) (h : scan.Valid requestId s.db)
    (hd : d ∈ s.db.deliveriesOf requestId) {n : ℕ} {a : Attempt}
    (ha : s.db.deliveryAttempts.get? (d.id, n) = some a) : a ∈ scan.logOf d.id := by
  obtain ⟨hmem, hkey⟩ := Table.get?_eq_some_iff.mp ha
  obtain ⟨hd, hof⟩ := mem_deliveriesOf.mp hd
  have hid : a.deliveryId = d.id := congrArg Prod.fst hkey
  obtain ⟨d', hd', hid', hof'⟩ := delivery_of_entry hs hmem
  obtain rfl : d' = d := Table.eq_of_key_eq hd' hd (hid'.trans hid)
  exact List.mem_filter.mpr
    ⟨(mem_scan_attempts h).mpr ⟨hmem, hof'.symm.trans hof⟩, decide_eq_true hid⟩

/-- A line of a log is an entry of its delivery. -/
theorem entry_of_mem_logOf (h : scan.Valid requestId s.db) {id : DeliveryId} {a : Attempt}
    (ha : a ∈ scan.logOf id) : s.db.deliveryAttempts.get? (id, a.attemptNumber) = some a := by
  obtain ⟨hmem, hid⟩ := List.mem_filter.mp ha
  exact Table.get?_eq_some_iff.mpr
    ⟨((mem_scan_attempts h).mp hmem).1, Prod.ext (of_decide_eq_true hid) rfl⟩

/-- The log of a delivery of the lead is its part of the journal. -/
theorem logOf_perm (hs : (service settings).Reachable s) (h : scan.Valid requestId s.db)
    (hd : d ∈ s.db.deliveriesOf requestId) :
    (scan.logOf d.id).Perm (s.db.deliveryAttempts.rows.filter fun a => a.deliveryId == d.id) := by
  obtain ⟨hd, hof⟩ := mem_deliveriesOf.mp hd
  refine (h.attempts_perm.filter _).trans (.of_eq ?_)
  rw [List.filter_filter]
  apply List.filter_congr
  intro a ha
  by_cases hid : a.deliveryId = d.id
  · -- the entry names the lead of its delivery
    obtain ⟨d', hd', hid', hof'⟩ := delivery_of_entry hs ha
    obtain rfl : d' = d := Table.eq_of_key_eq hd' hd (hid'.trans hid)
    simp [hid, hof'.symm.trans hof]
  · simp [hid]

/-- The last outcome is that of a line of the log. -/
theorem exists_quoted_line (hs : (service settings).Reachable s) (h : scan.Valid requestId s.db)
    (hd : d ∈ s.db.deliveriesOf requestId) (hsome : d.lastOutcome.isSome) :
    ∃ a ∈ scan.logOf d.id, a.QuotedBy d := by
  have hx := Service.life_eq_some_iff.mpr
    ⟨d, Table.get?_of_mem (mem_deliveriesOf.mp hd).1, rfl⟩
  obtain ⟨n, a, ha, hquoted⟩ := quotes_of_reachable (life_of_reachable hs hx) hsome
  exact ⟨a, mem_logOf hs h hd ha, hquoted⟩

theorem out_consistent (hs : (service settings).Reachable s) (h : scan.Valid requestId s.db)
    (hd : d ∈ s.db.deliveriesOf requestId) :
    (d.out settings ((scan.logOf d.id).map Attempt.out)).Consistent s.db := by
  have hx := Service.life_eq_some_iff.mpr
    ⟨d, Table.get?_of_mem (mem_deliveriesOf.mp hd).1, rfl⟩
  have hinv := inv_of_reachable hs hx
  -- a line of the log that has the outcome the row's status says
  have hline : ∀ outcome, d.lastOutcome = some outcome →
      ∃ a ∈ scan.logOf d.id, a.QuotedBy d ∧ a.outcome = outcome := by
    intro outcome houtcome
    obtain ⟨a, ha, hquoted⟩ := exists_quoted_line hs h hd (by rw [houtcome]; rfl)
    exact ⟨a, ha, hquoted, Option.some.inj (hquoted.outcome.symm.trans houtcome)⟩
  constructor
  · exact (logOf_perm hs h hd).map _
  · simpa [Delivery.out, Function.comp_def, Attempt.out, StatusScan.logOf] using log_sorted h d.id
  · intro line hline
    obtain ⟨a, ha, rfl⟩ := List.mem_map.mp hline
    exact hinv.entry_le (entry_of_mem_logOf h ha)
  · intro hflight line hline
    obtain ⟨a, ha, rfl⟩ := List.mem_map.mp hline
    have hentry := entry_of_mem_logOf h ha
    refine lt_of_le_of_ne (hinv.entry_le hentry).2 fun hn => ?_
    have hn : a.attemptNumber = d.totalAttempts := hn
    obtain ⟨_, _, _, hnone⟩ := hinv.held hflight
    have hunknown : a.outcome = .unknown := hinv.unrecorded hnone (hn ▸ hentry)
    have hlt : a.attemptNumber < d.totalAttempts := (hinv.unknown_lt _ a hentry hunknown).2
    exact lt_irrefl _ (hn ▸ hlt)
  · intro outcome houtcome
    obtain ⟨a, ha, hquoted, rfl⟩ := hline outcome houtcome
    refine ⟨a.out, List.mem_map_of_mem ha, rfl, hquoted.statusCode.symm, fun hfailure => ?_⟩
    obtain ⟨hkind, herror⟩ := hquoted.failure hfailure
    exact ⟨hkind.symm, herror.symm⟩
  · intro hdelivered
    obtain ⟨a, ha, _, houtcome⟩ := hline _ (hinv.shape.delivered_outcome hdelivered)
    exact ⟨a.out, List.mem_map_of_mem ha, houtcome⟩
  · intro hfailed
    obtain ⟨a, ha, _, houtcome⟩ := hline _ (hinv.shape.failed_outcome hfailed)
    exact ⟨a.out, List.mem_map_of_mem ha, houtcome⟩
  · exact hinv.shape.deliveredAt_iff
  · exact hinv.shape.failedAt_iff
  · simp only [Delivery.out, Delivery.unresolved, Bool.or_eq_true, beq_iff_eq]
    split <;> simp_all

end Page

/-- Whatever happened to a lead, its page, read in one snapshot, shows each of
its deliveries once and its whole journal, each entry in the log of its delivery,
and every row agrees with its log. -/
theorem status_page_consistent {settings : Settings} {s : Service}
    (hs : (service settings).Reachable s) {requestId : RequestId} {scan : StatusScan}
    (h : scan.Valid requestId s.db) {request : Request}
    (hlead : s.db.requests.get? requestId = some request) :
    ∃ page, getRequestStatus settings requestId scan s.db = some page ∧
      page.requestId = requestId ∧ page.payload = request.payload ∧ page.Consistent s.db := by
  have hid : request.id = requestId := Table.key_of_get? hlead
  subst hid
  refine ⟨requestStatus settings request scan, by rw [getRequestStatus, hlead]; rfl, rfl, rfl,
    recipients_ids h, state_requestStatus h, logs_perm h fun a ha => ?_, fun out hout => ?_⟩
  · obtain ⟨hmem, hof⟩ := (mem_scan_attempts h).mp ha
    obtain ⟨d, hd, hid, hlead⟩ := delivery_of_entry hs hmem
    exact List.mem_map.mpr
      ⟨d, h.deliveries_perm.mem_iff.mpr (mem_deliveriesOf.mpr ⟨hd, hlead.trans hof⟩), hid⟩
  · obtain ⟨d, hd, rfl⟩ := mem_recipients.mp hout
    exact out_consistent hs h (h.deliveries_perm.mem_iff.mp hd)

/-- The page of a lead whose delivery failed, was tried again and arrived. -/
theorem status_page_consistent_secondAttempt :
    ∃ s page, (service .default).Reachable s ∧
      getRequestStatus .default 0 (.inOrder 0 s.db) s.db = some page ∧
      (page.recipients.flatMap DeliveryOut.attemptLog).length = 2 ∧ page.Consistent s.db := by
  obtain ⟨s, hs, hp⟩ := exists_reachable_of_moves .default
    [Move.accept 0 Move.lead, Move.claim .default Move.workerA 1,
      Move.record Move.first 1 Move.timedOut, Move.advance 100000000,
      Move.claim .default Move.workerA 1, Move.record Move.first 2 Move.confirmed]
    (fun s => (s.db.requests.get? 0).isSome &&
      decide ((s.db.deliveryAttempts.rows.filter fun a => a.requestId == 0).length = 2))
    (by decide +kernel)
  obtain ⟨hlead, hlength⟩ := Bool.and_eq_true_iff.mp hp
  obtain ⟨request, hlead⟩ := Option.isSome_iff_exists.mp hlead
  obtain ⟨page, hpage, hid, _, hconsistent⟩ :=
    status_page_consistent hs (StatusScan.inOrder_valid 0 s.db) hlead
  refine ⟨s, page, hs, hpage, ?_, hconsistent⟩
  rw [hconsistent.journal.length_eq, List.length_map, hid]
  exact of_decide_eq_true hlength

/-- Read in two snapshots the page may have a line for an attempt that its row
does not know of: the journal was read after a record, the row before it. -/
theorem torn_page_inconsistent :
    ∃ s t request, (service .default).Reachable s ∧ (service .default).Later s t ∧
      s.db.requests.get? 0 = some request ∧
      ∃ out ∈ (requestStatus .default request ⟨(StatusScan.inOrder 0 s.db).deliveries,
        (StatusScan.inOrder 0 t.db).attempts⟩).recipients, ¬ out.Consistent t.db := by
  obtain ⟨s, t, hs, hlater, hp⟩ := exists_later_of_moves .default (fun _ _ => True)
    [Move.accept 0 Move.lead]
    [Move.claim .default Move.workerA 1, Move.record Move.first 1 Move.confirmed]
    (fun s t => (s.db.requests.get? 0).any fun request =>
      (requestStatus .default request ⟨(StatusScan.inOrder 0 s.db).deliveries,
        (StatusScan.inOrder 0 t.db).attempts⟩).recipients.any fun out =>
          out.attemptLog.any fun line => decide (out.totalAttempts < line.attemptNumber))
    (by decide +kernel)
  obtain ⟨request, hlead, hp⟩ := (Option.any_eq_true _ _).mp hp
  obtain ⟨out, hout, hp⟩ := List.any_eq_true.mp hp
  obtain ⟨line, hline, hlt⟩ := List.any_eq_true.mp hp
  refine ⟨s, t, request, hs, hlater, hlead, out, hout, fun hconsistent => ?_⟩
  exact absurd (hconsistent.numbered line hline).2 (not_le.mpr (of_decide_eq_true hlt))

end LeadQueue
