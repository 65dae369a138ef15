import LeadQueue.JsonText.Storable
import LeadQueue.Schemas.Body

/-!
# What validation lets through

The null byte scan and the encoding of the size check between them refuse every
string that `jsonb` cannot hold, at any depth. Neither looks at numbers: `NaN`
and the infinities pass, and the insert fails on them.
-/

namespace LeadQueue

namespace Json

mutual

/-- No `NaN` and no infinity, at any depth. -/
def finite : Json → Bool
  | nan | infinity _ => false
  | null | bool _ | int _ | float _ | str _ => true
  | arr items => finiteItems items
  | obj fields => finiteFields fields

def finiteItems : List Json → Bool
  | [] => true
  | j :: js => finite j && finiteItems js

def finiteFields : List (PyStr × Json) → Bool
  | [] => true
  | (_, j) :: rest => finite j && finiteFields rest

end

/-! ## Strings -/

/-- Without `ensure_ascii` a surrogate is written as it is. -/
theorem mem_quote_of_surrogate {s : PyStr} {c : CodePoint} (hc : c ∈ s)
    (hsurrogate : isSurrogate c = true) : c ∈ quote false s := by
  simp only [isSurrogate, Bool.and_eq_true, decide_eq_true_eq] at hsurrogate
  have hself : c ∈ escapeChar false c := by
    unfold escapeChar
    split
    · rename_i letter hletter
      obtain ⟨_, _, hsplit, _⟩ := List.lookup_eq_some_iff.mp hletter
      have hsmall : c.val < 0x80 :=
        (@Jsonb.mem_shortEscapes (c, letter) (by rw [hsplit]; simp)).2.2
      omega
    · rw [if_neg (by omega), if_neg (by simp)]
      exact List.mem_singleton_self c
  unfold quote
  exact List.mem_cons_of_mem _ (List.mem_append_left _ (List.mem_flatMap.mpr ⟨c, hc, hself⟩))

theorem hasUnpairedSurrogate_eq_false {s : PyStr} (h : ∀ c ∈ s, isSurrogate c = false) :
    hasUnpairedSurrogate s = false := by
  have hneither : ∀ c ∈ s, isHighSurrogate c = false ∧ isLowSurrogate c = false := by
    intro c hc
    have hno := h c hc
    simp only [isSurrogate, isHighSurrogate, isLowSurrogate, Bool.and_eq_false_iff,
      decide_eq_false_iff_not] at hno ⊢
    omega
  clear h
  induction s using hasUnpairedSurrogate.induct with
  | case1 => rfl
  | case2 c =>
      obtain ⟨hhigh, hlow⟩ := hneither c List.mem_cons_self
      rw [hasUnpairedSurrogate, hhigh, hlow]
      rfl
  | case3 c d s hhigh =>
      rw [(hneither c List.mem_cons_self).1] at hhigh
      cases hhigh
  | case4 c d s hhigh =>
      rw [(hneither c List.mem_cons_self).1] at hhigh
      cases hhigh
  | case5 c d s hhigh ih =>
      rw [hasUnpairedSurrogate, if_neg hhigh, (hneither c List.mem_cons_self).2,
        ih fun x hx => hneither x (List.mem_cons_of_mem _ hx)]
      rfl

theorem storableStr_of_quote {s : PyStr} (hnul : s.contains 0 = false)
    (htext : ∀ c ∈ quote false s, isSurrogate c = false) : storableStr s = true := by
  have hfree : ∀ c ∈ s, isSurrogate c = false := by
    intro c hc
    rw [← Bool.not_eq_true]
    intro hsurrogate
    have hno := htext c (mem_quote_of_surrogate hc hsurrogate)
    rw [hsurrogate] at hno
    cases hno
  rw [storableStr, hnul, hasUnpairedSurrogate_eq_false hfree]
  rfl

/-! ## Values -/

mutual

/-- Past both checks, only numbers can make a value unstorable. -/
theorem storable_eq_finite (j : Json) (hnul : j.containsNullByte = false)
    (htext : ∀ c ∈ j.dumps false, isSurrogate c = false) : j.storable = j.finite := by
  cases j with
  | null => rfl
  | bool b => rfl
  | int n => rfl
  | float q => rfl
  | nan => rfl
  | infinity b => rfl
  | str s => exact storableStr_of_quote hnul htext
  | arr items =>
      exact storableItems_eq_finite true items hnul fun c hc =>
        htext c (List.mem_cons_of_mem _ hc)
  | obj fields =>
      exact storableFields_eq_finite true fields hnul fun c hc =>
        htext c (List.mem_cons_of_mem _ hc)

theorem storableItems_eq_finite (first : Bool) (items : List Json)
    (hnul : containsNullByteItems items = false)
    (htext : ∀ c ∈ dumpsItems false first items, isSurrogate c = false) :
    storableItems items = finiteItems items := by
  cases items with
  | nil => rfl
  | cons j js =>
      obtain ⟨hj, hjs⟩ := Bool.or_eq_false_iff.mp hnul
      have hmem : ∀ c, c ∈ j.dumps false ∨ c ∈ dumpsItems false false js →
          c ∈ dumpsItems false first (j :: js) := fun c hc =>
        List.mem_append_right _ (List.mem_append.mpr hc)
      rw [storableItems, finiteItems,
        storable_eq_finite j hj fun c hc => htext c (hmem c (Or.inl hc)),
        storableItems_eq_finite false js hjs fun c hc => htext c (hmem c (Or.inr hc))]

theorem storableFields_eq_finite (first : Bool) (fields : List (PyStr × Json))
    (hnul : containsNullByteFields fields = false)
    (htext : ∀ c ∈ dumpsFields false first fields, isSurrogate c = false) :
    storableFields fields = finiteFields fields := by
  match fields with
  | [] => rfl
  | (k, j) :: rest =>
      obtain ⟨hfirst, hrest⟩ := Bool.or_eq_false_iff.mp hnul
      obtain ⟨hk, hj⟩ := Bool.or_eq_false_iff.mp hfirst
      have hmem : ∀ c, c ∈ quote false k ∨ c ∈ j.dumps false ∨ c ∈ dumpsFields false false rest →
          c ∈ dumpsFields false first ((k, j) :: rest) := by
        intro c hc
        apply List.mem_append_right
        rcases hc with hc | hc
        · exact List.mem_append_left _ hc
        · exact List.mem_append_right _ (List.mem_append_right _ (List.mem_append.mpr hc))
      rw [storableFields, finiteFields,
        storableStr_of_quote hk fun c hc => htext c (hmem c (Or.inl hc)),
        storable_eq_finite j hj fun c hc => htext c (hmem c (Or.inr (Or.inl hc))),
        storableFields_eq_finite false rest hrest fun c hc => htext c (hmem c (Or.inr (Or.inr hc)))]
      rfl

end

end Json

/-! ## The validated lead -/

theorem payloadField_eq_ok {j payload : Json} (h : payloadField j = .ok payload) :
    payload = j ∧ payload.containsNullByte = false ∧ ∃ fields ≠ [], payload = .obj fields := by
  unfold payloadField at h
  split at h
  · rename_i fields
    split at h
    · cases h
    · rename_i hne
      split at h
      · cases h
      · rename_i hnul
        cases h
        exact ⟨rfl, Bool.not_eq_true _ ▸ hnul, fields, by simpa using hne, rfl⟩
  · cases h

theorem checkLimits_eq_ok {settings : Settings} {req req' : IntakeRequest}
    (h : checkLimits settings req = .ok req') :
    req' = req ∧ (∃ size ≤ settings.maxPayloadBytes,
      encodedLength (req.payload.dumps false) = some size) ∧
      req.recipients.length ≤ settings.maxRecipientsPerRequest := by
  unfold checkLimits at h
  split at h
  · cases h
  · rename_i size hsize
    split at h
    · cases h
    · rename_i hle
      split at h
      · cases h
      · rename_i hcount
        cases h
        exact ⟨rfl, ⟨size, not_lt.mp hle, hsize⟩, not_lt.mp hcount⟩

/-- What an accepted lead is. -/
structure Validated (lib : UrlLibrary) (settings : Settings) (body : IntakeBody)
    (req : IntakeRequest) : Prop where
  sourceId : requiredField "source_id" body.sourceId = .ok req.sourceId
  idempotencyKey : requiredField "idempotency_key" body.idempotencyKey = .ok req.idempotencyKey
  payload : payloadField body.payload = .ok req.payload
  recipients : Fallible.collect (recipientIn lib) 0 body.recipients = .ok req.recipients
  limits : checkLimits settings req = .ok req

theorem validateIntake_eq_ok_iff {lib : UrlLibrary} {settings : Settings} {body : IntakeBody}
    {req : IntakeRequest} :
    validateIntake lib settings body = .ok req ↔ Validated lib settings body req := by
  unfold validateIntake
  constructor
  · intro h
    split at h
    · cases h
    · rename_i sourceId key payload recipients hboth
      obtain ⟨hsource, hboth⟩ := Fallible.both_eq_ok_iff.mp hboth
      obtain ⟨hkey, hboth⟩ := Fallible.both_eq_ok_iff.mp hboth
      obtain ⟨hpayload, hrecipients⟩ := Fallible.both_eq_ok_iff.mp hboth
      obtain ⟨rfl, _⟩ := checkLimits_eq_ok h
      exact ⟨hsource, hkey, hpayload, hrecipients, h⟩
  · rintro ⟨hsource, hkey, hpayload, hrecipients, hlimits⟩
    rw [hsource, hkey, hpayload, hrecipients]
    exact hlimits

theorem Validated.storable {lib : UrlLibrary} {settings : Settings} {body : IntakeBody}
    {req : IntakeRequest} (h : Validated lib settings body req) :
    req.payload.storable = req.payload.finite := by
  obtain ⟨_, hnul, _⟩ := payloadField_eq_ok h.payload
  obtain ⟨_, ⟨size, _, hsize⟩, _⟩ := checkLimits_eq_ok h.limits
  apply Json.storable_eq_finite _ hnul
  exact encodedLength_isSome_iff.mp (by rw [hsize]; rfl)

/-- ASCII names only, and no host in brackets. -/
def asciiLibrary : UrlLibrary := ⟨List.map asciiLower, fun _ => none⟩

/-- A form with one field. -/
def formBody (value : Json) : IntakeBody where
  sourceId := .ofString "site"
  idempotencyKey := .ofString "k1"
  payload := .obj [(.ofString "phone", .str (.ofString "+7")), (.ofString "score", value)]
  recipients := [⟨.ofString "https://crm.example.com/leads", none⟩]

end LeadQueue
