import LeadQueue.Library.Ranking
import LeadQueue.Queue.Claim

/-!
# Which rows a claim selects

The ranking reads the due rows, the window cuts them off, the cap thins them
out; the rows that are left and not locked are taken in the order of
`claimable_at` up to the limit. Said here for a call whose snapshot is the
latest state, with ties in any order.
-/

namespace LeadQueue

open Relational

/-! ## Candidates -/

/-- The rows a call can take, in its order: not locked, and still due. -/
def candidates (call : ClaimCall) (db : Database) : List Delivery :=
  db.deliveries.lockRows call.locked (Delivery.due call.now) none (call.order.map RankedRow.id)

theorem picked_eq_take (call : ClaimCall) (db : Database) :
    picked call db = (candidates call db).take call.limit := rfl

/-- The rows that the window and the cap leave. -/
def eligible (settings : Settings) (call : ClaimCall) : List Delivery :=
  (call.scan.take (call.window settings)).filter fun d =>
    decide (rowNumber call.scan d ≤ settings.maxClaimsPerOrigin)

/-- The row of the `ranked` CTE that a delivery becomes. -/
def toRanked (scan : List Delivery) (d : Delivery) : RankedRow :=
  ⟨d.id, d.claimableAt, rowNumber scan d⟩

section Latest

variable {settings : Settings} {call : ClaimCall} {db : Database}

theorem order_perm_eligible (h : call.Valid settings) :
    call.order.Perm ((eligible settings call).map (toRanked call.scan)) := by
  have hmap : (ranked call.scan (call.window settings)).filter
      (fun r => decide (r.rn ≤ settings.maxClaimsPerOrigin)) =
        (eligible settings call).map (toRanked call.scan) := by
    unfold ranked eligible
    rw [List.filter_map]
    rfl
  exact hmap ▸ h.order_perm

theorem mem_scan (h : call.Valid settings) (hlatest : call.snapshot = db.deliveries)
    {d : Delivery} : d ∈ call.scan ↔ d ∈ db.deliveries.rows ∧ d.due call.now = true := by
  rw [h.scan_perm.mem_iff, List.mem_filter, hlatest]

theorem mem_eligible {d : Delivery} :
    d ∈ eligible settings call ↔ d ∈ call.scan.take (call.window settings) ∧
      rowNumber call.scan d ≤ settings.maxClaimsPerOrigin := by
  rw [eligible, List.mem_filter, decide_eq_true_eq]

/-- What the statement finds at an eligible row's id. -/
theorem found_eligible (h : call.Valid settings) (hlatest : call.snapshot = db.deliveries)
    {d : Delivery} (hd : d ∈ eligible settings call) :
    (if call.locked d.id then none
      else (db.deliveries.get? d.id).filter (Delivery.due call.now)) =
      if call.locked d.id then none else some d := by
  obtain ⟨hrow, hdue⟩ := (mem_scan h hlatest).mp (List.mem_of_mem_take (mem_eligible.mp hd).1)
  rw [Table.get?_of_mem hrow, Option.filter_some, if_pos hdue]

/-- The candidates are the eligible rows that are not locked. -/
theorem candidates_perm (h : call.Valid settings) (hlatest : call.snapshot = db.deliveries) :
    (candidates call db).Perm
      ((eligible settings call).filter fun d => !call.locked d.id) := by
  unfold candidates Table.lockRows
  refine (((order_perm_eligible h).map RankedRow.id).filterMap _).trans (List.Perm.of_eq ?_)
  rw [List.map_map, List.filterMap_map, ← List.filterMap_eq_filter]
  apply List.filterMap_congr
  intro d hd
  refine (found_eligible h hlatest hd).trans ?_
  show _ = if !call.locked d.id then some d else none
  cases call.locked d.id <;> rfl

/-- They come in the order of `claimable_at`. -/
theorem candidates_sorted (h : call.Valid settings) (hlatest : call.snapshot = db.deliveries) :
    (candidates call db).Pairwise fun d e => d.claimableAt ≤ e.claimableAt := by
  -- a candidate has the due time of the ranked row it is found by
  have htime : ∀ r ∈ call.order, ∀ d, (if call.locked r.id then none
      else (db.deliveries.get? r.id).filter (Delivery.due call.now)) = some d →
      d.claimableAt = r.claimableAt := by
    intro r hr d hd
    obtain ⟨e, he, rfl⟩ := List.mem_map.mp ((order_perm_eligible h).mem_iff.mp hr)
    have hfound := (found_eligible h hlatest he).symm.trans hd
    split at hfound
    · cases hfound
    · obtain rfl := Option.some.inj hfound
      rfl
  unfold candidates Table.lockRows
  rw [List.pairwise_filterMap, List.pairwise_map]
  refine h.order_sorted.imp_of_mem fun hr hr' hle d hd e he => ?_
  rw [htime _ hr d hd, htime _ hr' e he]
  exact hle

/-- Their ids are those of the order, the locked ones left out. -/
theorem map_id_candidates (h : call.Valid settings) (hlatest : call.snapshot = db.deliveries) :
    (candidates call db).map Delivery.id =
      (call.order.map RankedRow.id).filter fun id => !call.locked id := by
  unfold candidates Table.lockRows
  rw [List.map_filterMap, ← List.filterMap_eq_filter]
  apply List.filterMap_congr
  intro id hid
  obtain ⟨r, hr, rfl⟩ := List.mem_map.mp hid
  obtain ⟨d, hd, rfl⟩ := List.mem_map.mp ((order_perm_eligible h).mem_iff.mp hr)
  apply (congrArg (Option.map Delivery.id) (found_eligible h hlatest hd)).trans
  show _ = if !call.locked d.id then some d.id else none
  cases call.locked d.id <;> rfl

theorem mem_candidates (h : call.Valid settings) (hlatest : call.snapshot = db.deliveries)
    {d : Delivery} :
    d ∈ candidates call db ↔ d ∈ eligible settings call ∧ call.locked d.id = false := by
  rw [(candidates_perm h hlatest).mem_iff, List.mem_filter, Bool.not_eq_true']

end Latest

end LeadQueue
