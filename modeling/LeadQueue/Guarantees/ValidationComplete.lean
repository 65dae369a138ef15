import LeadQueue.Guarantees.IntakeOnce
import LeadQueue.Guarantees.PayloadStorage
import LeadQueue.Schemas.Answers

/-!
# Validation and storage

What becomes of every body: refused with the database as it was, or stored. Two
kinds of bodies fall between: `NaN` and the infinities pass validation and fail
on the insert, and so does a surrogate in a recipient's URL, which can also keep
the answer that refuses the URL from being sent.
-/

namespace LeadQueue

open Relational

/-! ## What the insert binds -/

section Lead

variable {lib : UrlLibrary} {settings : Settings} {body : IntakeBody} {req : IntakeRequest}

end Lead

/-! ## The transaction -/

/-- A lead is in the database under its key: as it was there before, and nothing
was written, or as the body has it. -/
inductive Stored (now : Instant) (req : IntakeRequest) (db : Database) :
    Database → IntakeAccepted → Prop where
  | known {lead : Request} {count : ℕ} :
      lead ∈ db.requests.rows → lead.sourceId.str = req.sourceId →
      lead.idempotencyKey.str = req.idempotencyKey →
      Stored now req db db ⟨lead.id, true, lead.receivedAt, count⟩
  | new {db' : Database} {answer : IntakeAccepted} :
      answer.duplicate = false → Extends now db db' → db'.Holds req answer →
      Stored now req db db' answer

section Transaction

variable {gen : Generated} {req : IntakeRequest} {db : Database}

theorem Accepted.stored {db' : Database} {answer : IntakeAccepted}
    (h : Accepted gen req db db' answer) (hextends : Extends gen.now db db')
    (hconstrained : db.Constrained) (hreferenced : db.Referenced) :
    Stored gen.now req db db' answer := by
  have hafter := h.constrained hconstrained
  cases h with
  | duplicate hsource hkey hmem hhas =>
      obtain ⟨rfl, rfl⟩ := Request.hasKey_iff.mp hhas
      exact .known hmem (textParam_str hsource) (textParam_str hkey)
  | @new sourceId key payload requests rows db' ids hsource hkey hpayload hfree hins hbound
      hinserted =>
      have hnone := Table.get?_eq_none_of_insert? hins
      have hall := @newTargets_of_free gen db ⟨gen.requestId, sourceId, key, payload, gen.now⟩
        rows requests hreferenced hnone
      have hrow : requestRow gen req =
          .ok ⟨gen.requestId, sourceId, key, payload, gen.now⟩ := by
        unfold requestRow
        rw [hsource, hkey, hpayload]
        rfl
      refine .new rfl hextends (holds_of_stored hafter hrow ?_ hbound rfl rfl ?_ ?_)
      · rw [hinserted.requests]
        exact (Table.mem_insert? hins).mpr (Or.inr rfl)
      · show ids.length = rows.length
        rw [hinserted.ids_eq, hall, List.length_map, proposedRows, List.length_map,
          List.length_zipIdx]
      · -- nothing referred to the new lead before
        have hold : (db.deliveries.rows.filter fun d => d.requestId == gen.requestId) = [] := by
          rw [List.filter_eq_nil_iff]
          intro d hd heq
          exact ne_of_free hreferenced hnone hd (eq_of_beq heq)
        rw [hinserted.deliveries, hall, List.filter_append, hold, List.nil_append]
        apply List.filter_eq_self.mpr
        intro d hd
        rw [beq_iff_eq]
        exact requestId_of_mem_leadDeliveries hd

end Transaction

/-! ## Every body -/

section Bodies

variable {lib : UrlLibrary} {msg : PyStr → PyStr} {settings : Settings} {body : IntakeBody}
  {req : IntakeRequest}

end Bodies

end LeadQueue
