import LeadQueue.Python

/-!
# Intake fields

The checks a lead's `source_id` and `idempotency_key` pass before anything
reads them: the length bounds of the field, on the text as sent, then
`_strip_required`.
-/

namespace LeadQueue

/-- Why a required text field is refused. -/
inductive FieldProblem where
  | tooShort | tooLong | blank | nullByte
deriving DecidableEq, Repr

/-- The texts of `_strip_required`. -/
def FieldProblem.message : FieldProblem → Option String
  | .tooShort | .tooLong => none
  | .blank => some "must not be blank"
  | .nullByte => some "must not contain a null byte"

/-- `_strip_required`. -/
def stripRequired (value : PyStr) : Except FieldProblem PyStr :=
  let stripped := PyStr.strip value
  if stripped = [] then .error .blank
  else if (0 : CodePoint) ∈ stripped then .error .nullByte
  else .ok stripped

/-- `Field(min_length=1, max_length=200)` and the validator after it. -/
def requiredText (value : PyStr) : Except FieldProblem PyStr :=
  if value.length < 1 then .error .tooShort
  else if 200 < value.length then .error .tooLong
  else stripRequired value

/-- What an accepted field is. -/
theorem requiredText_eq_ok_iff {value text : PyStr} :
    requiredText value = .ok text ↔
      1 ≤ value.length ∧ value.length ≤ 200 ∧ text = PyStr.strip value ∧ text ≠ [] ∧
        (0 : CodePoint) ∉ text := by
  unfold requiredText stripRequired
  split
  · rename_i h
    simp only [reduceCtorEq, false_iff]
    omega
  · split
    · rename_i h
      simp only [reduceCtorEq, false_iff]
      omega
    · rename_i hmin hmax
      rw [and_iff_right (not_lt.mp hmin), and_iff_right (not_lt.mp hmax)]
      dsimp only
      split
      · rename_i hblank
        simp only [reduceCtorEq, false_iff]
        rintro ⟨rfl, hne, _⟩
        exact hne hblank
      · split
        · rename_i hnull
          simp only [reduceCtorEq, false_iff]
          rintro ⟨rfl, _, hfree⟩
          exact hfree hnull
        · rename_i hne hfree
          simp only [Except.ok.injEq]
          constructor
          · rintro rfl
            exact ⟨rfl, hne, hfree⟩
          · rintro ⟨rfl, _⟩
            rfl

end LeadQueue
