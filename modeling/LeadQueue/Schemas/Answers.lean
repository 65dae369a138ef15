import LeadQueue.Schemas.Body

/-!
# Answers to a refused body

An answer is written as UTF-8, so a surrogate in a message keeps it from being
sent. All messages but those about a URL are texts of the service.
-/

namespace LeadQueue

/-! ## Texts without surrogates -/

/-- What pydantic prints of a text has a surrogate only if the text has one. -/
def PrintsText (msg : PyStr → PyStr) : Prop :=
  ∀ text : PyStr, text.encodable = true → (msg text).encodable = true

/-! ## The answer to a refused body -/

/-- The problem quotes nothing of the sender. -/
def Problem.Plain (problem : Problem) : Prop := problem.reason.encodable id = true

theorem Problem.Plain.encodable {problem : Problem} (h : problem.Plain) {msg : PyStr → PyStr}
    (hmsg : PrintsText msg) : problem.reason.encodable msg = true := by
  obtain ⟨field, reason⟩ := problem
  cases reason with
  | constraint => rfl
  | valueError text => exact hmsg text h
  | unicodeEncodeError => rfl

section Answer

variable {lib : UrlLibrary} {msg : PyStr → PyStr} {settings : Settings} {body : IntakeBody}

end Answer

end LeadQueue
