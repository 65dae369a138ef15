import LeadQueue.JsonText.Numbers
import LeadQueue.JsonText.Strings

/-!
# `jsonb` reads what `json.dumps` writes

Except for a string with U+0000 or an unpaired surrogate and for a float that is
not finite, anywhere in the value: `accepts_dumps`.
-/

namespace LeadQueue

namespace Jsonb

theorem value_of_head {c : CodePoint} {t : PyStr} (h : isDigit c = true ∨ c = 0x2d) (fuel : ℕ) :
    value (fuel + 1) (c :: t) = number (c :: t) := by
  have hother : ∀ d : CodePoint, isDigit d = false ∧ d ≠ 0x2d → c ≠ d := by
    rintro d ⟨hdigit, hminus⟩ rfl
    rcases h with h | h
    · rw [hdigit] at h
      cases h
    · exact hminus h
  have hspace : isWhitespace c = false := by
    simp [isWhitespace, hother 0x20 (by decide), hother 0x09 (by decide),
      hother 0x0a (by decide), hother 0x0d (by decide)]
  rw [value, skipWs, List.dropWhile_cons_of_neg (by simp [hspace])]
  show (if c = 0x7b then _ else _) = _
  rw [if_neg (hother _ (by decide)), if_neg (hother _ (by decide)),
    if_neg (hother _ (by decide)), if_neg (hother _ (by decide)),
    if_neg (hother _ (by decide)), if_neg (hother _ (by decide))]

theorem NumberText.value {s rest : PyStr} (h : NumberText s) (hrest : Stops rest) {fuel : ℕ}
    (hfuel : s.length ≤ fuel) : value fuel (s ++ rest) = some rest := by
  obtain ⟨c, t, rfl, hc⟩ := h.head
  obtain ⟨fuel, rfl⟩ : ∃ k, fuel = k + 1 := ⟨fuel - 1, by simp at hfuel; omega⟩
  exact (value_of_head hc fuel).trans (h.number hrest)

/-- A quoted text, after its opening quote. -/
theorem stringBody_quoted (s rest : PyStr) :
    stringBody false (s.flatMap (Json.escapeChar true) ++ [0x22] ++ rest) =
      if Json.storableStr s then some rest else none := by
  rw [← allAfter_eq_storableStr, List.append_assoc]
  exact stringBody_escaped false s rest

/-- Where a value, an element or a member begins. -/
def Begins (text : PyStr) : Prop :=
  ∃ c t, text = c :: t ∧ isWhitespace c = false ∧ c ≠ 0x5d ∧ c ≠ 0x7d

theorem begins_dumps (j : Json) : Begins (j.dumps true) := by
  have hnumber : ∀ {s}, NumberText s → Begins s := by
    intro s h
    obtain ⟨c, t, rfl, hc⟩ := h.head
    refine ⟨c, t, rfl, ?_⟩
    rcases hc with hc | rfl
    · have hval : 0x30 ≤ c.val ∧ c.val ≤ 0x39 := by simpa [isDigit] using hc
      refine ⟨?_, ?_, ?_⟩
      · simp only [isWhitespace, Bool.or_eq_false_iff, beq_eq_false_iff_ne]
        refine ⟨⟨⟨?_, ?_⟩, ?_⟩, ?_⟩ <;> rintro rfl <;> revert hval <;> decide
      · rintro rfl
        revert hval
        decide
      · rintro rfl
        revert hval
        decide
    · decide
  cases j with
  | null => exact ⟨_, _, rfl, by decide⟩
  | bool b => cases b <;> exact ⟨_, _, rfl, by decide⟩
  | int n => exact hnumber (numberText_ofInt n)
  | float q => exact hnumber (numberText_floatRepr q)
  | nan => exact ⟨_, _, rfl, by decide⟩
  | infinity b => cases b <;> exact ⟨_, _, rfl, by decide⟩
  | str s => exact ⟨_, _, rfl, by decide⟩
  | arr items => exact ⟨_, _, rfl, by decide⟩
  | obj fields => exact ⟨_, _, rfl, by decide⟩

theorem skipWs_begins {text : PyStr} (h : Begins text) (rest : PyStr) :
    skipWs (text ++ rest) = text ++ rest := by
  obtain ⟨c, t, rfl, hspace, _⟩ := h
  exact List.dropWhile_cons_of_neg (by simp [hspace])

theorem expect_begins {text : PyStr} (h : Begins text) (rest : PyStr) {d : CodePoint}
    (hd : d = 0x5d ∨ d = 0x7d) : expect d (text ++ rest) = none := by
  unfold expect
  rw [skipWs_begins h]
  obtain ⟨c, t, rfl, _, hbracket, hbrace⟩ := h
  apply if_neg
  rcases hd with rfl | rfl
  · exact hbracket
  · exact hbrace

theorem begins_items (j : Json) (js : List Json) :
    Begins (Json.dumpsItems true true (j :: js)) := by
  obtain ⟨c, t, heq, h⟩ := begins_dumps j
  refine ⟨c, t ++ Json.dumpsItems true false js, ?_, h⟩
  show j.dumps true ++ Json.dumpsItems true false js = _
  rw [heq]
  rfl

/-- The blank after a comma or a colon is skipped. -/
theorem value_blank (fuel : ℕ) (s : PyStr) : value fuel (0x20 :: s) = value fuel s := by
  cases fuel <;> rfl

theorem elements_blank (fuel : ℕ) (s : PyStr) : elements fuel (0x20 :: s) = elements fuel s := by
  match fuel with
  | 0 => rfl
  | 1 => rfl
  | _ + 2 => rfl

theorem members_blank (fuel : ℕ) (s : PyStr) : members fuel (0x20 :: s) = members fuel s := by
  cases fuel <;> rfl

theorem stops_items (js : List Json) (rest : PyStr) :
    Stops (Json.dumpsItems true false js ++ rest) := by
  intro c hc
  cases js with
  | nil => exact Or.inr (Or.inl (Option.some.inj hc).symm)
  | cons j js => exact Or.inl (Option.some.inj hc).symm

theorem stops_fields (fields : List (PyStr × Json)) (rest : PyStr) :
    Stops (Json.dumpsFields true false fields ++ rest) := by
  intro c hc
  match fields with
  | [] => exact Or.inr (Or.inr (Option.some.inj hc).symm)
  | (k, j) :: fields => exact Or.inl (Option.some.inj hc).symm

/-- A key and its colon are read before the value. -/
theorem members_key (fuel : ℕ) (k t : PyStr) :
    members (fuel + 1) (Json.quote true k ++ (0x3a :: 0x20 :: t)) =
      if Json.storableStr k then
        (value fuel t).bind fun u =>
          match expect 0x2c u with
          | some v => members fuel v
          | none => expect 0x7d u
      else none := by
  have hquoted := stringBody_quoted k (0x3a :: 0x20 :: t)
  show (stringBody false (k.flatMap (Json.escapeChar true) ++ [0x22] ++ _)).bind _ = _
  rw [hquoted]
  split
  · exact congrArg (fun u : Option PyStr => u.bind _) (value_blank fuel t)
  · rfl

mutual

/-- A value is read back whole, or refused. -/
theorem value_dumps (j : Json) (fuel : ℕ) (rest : PyStr) (hfuel : (j.dumps true).length ≤ fuel)
    (hrest : Stops rest) :
    value fuel (j.dumps true ++ rest) = if j.storable then some rest else none := by
  obtain ⟨c, t, heq, _⟩ := begins_dumps j
  obtain ⟨fuel, rfl⟩ : ∃ k, fuel = k + 1 := ⟨fuel - 1, by simp [heq] at hfuel; omega⟩
  clear heq
  cases j with
  | null => rfl
  | bool b => cases b <;> rfl
  | int n => exact (numberText_ofInt n).value hrest hfuel
  | float q => exact (numberText_floatRepr q).value hrest hfuel
  | nan => rfl
  | infinity b => cases b <;> rfl
  | str s => exact stringBody_quoted s rest
  | arr items =>
      show (expect 0x5d (Json.dumpsItems true true items ++ rest)).or
        (elements fuel (Json.dumpsItems true true items ++ rest)) = _
      cases items with
      | nil => rfl
      | cons i is =>
          rw [expect_begins (begins_items i is) rest (Or.inl rfl), Option.none_or]
          exact elements_dumps (i :: is) fuel rest (Nat.le_of_succ_le_succ hfuel) (by simp)
  | obj fields =>
      show (expect 0x7d (Json.dumpsFields true true fields ++ rest)).or
        (members fuel (Json.dumpsFields true true fields ++ rest)) = _
      cases fields with
      | nil => rfl
      | cons f fs =>
          have hclose : expect 0x7d (Json.dumpsFields true true (f :: fs) ++ rest) = none := rfl
          rw [hclose, Option.none_or]
          exact members_dumps (f :: fs) fuel rest (Nat.le_of_succ_le_succ hfuel) (by simp)

theorem elements_dumps (items : List Json) (fuel : ℕ) (rest : PyStr)
    (hfuel : (Json.dumpsItems true true items).length ≤ fuel) (hne : items ≠ []) :
    elements fuel (Json.dumpsItems true true items ++ rest) =
      if Json.storableItems items then some rest else none := by
  cases items with
  | nil => exact absurd rfl hne
  | cons j js =>
      have htext : Json.dumpsItems true true (j :: js) =
        j.dumps true ++ Json.dumpsItems true false js := rfl
      have hlen : (Json.dumpsItems true false js).length ≠ 0 := by
        cases js <;> exact Nat.succ_ne_zero _
      rw [htext, List.length_append] at hfuel
      obtain ⟨fuel, rfl⟩ : ∃ k, fuel = k + 1 := ⟨fuel - 1, by omega⟩
      have hread := value_dumps j fuel (Json.dumpsItems true false js ++ rest) (by omega)
        (stops_items js rest)
      rw [htext, List.append_assoc, elements, hread]
      cases hj : j.storable with
      | false => simp [Json.storableItems, hj]
      | true =>
          simp only [Json.storableItems, hj, Bool.true_and]
          cases js with
          | nil => rfl
          | cons j' js =>
              have hcomma : Json.dumpsItems true false (j' :: js) =
                0x2c :: 0x20 :: Json.dumpsItems true true (j' :: js) := rfl
              have hmore := elements_dumps (j' :: js) fuel rest
                (by rw [hcomma] at hfuel; simp only [List.length_cons] at hfuel; omega) (by simp)
              exact (elements_blank fuel _).trans hmore

theorem members_dumps (fields : List (PyStr × Json)) (fuel : ℕ) (rest : PyStr)
    (hfuel : (Json.dumpsFields true true fields).length ≤ fuel) (hne : fields ≠ []) :
    members fuel (Json.dumpsFields true true fields ++ rest) =
      if Json.storableFields fields then some rest else none := by
  cases fields with
  | nil => exact absurd rfl hne
  | cons f fs =>
      obtain ⟨k, j⟩ := f
      have htext : Json.dumpsFields true true ((k, j) :: fs) =
        Json.quote true k ++
          (0x3a :: 0x20 :: (j.dumps true ++ Json.dumpsFields true false fs)) := rfl
      have hlen : (Json.dumpsFields true false fs).length ≠ 0 := by
        cases fs <;> exact Nat.succ_ne_zero _
      simp only [htext, List.length_append, List.length_cons] at hfuel
      obtain ⟨fuel, rfl⟩ : ∃ k, fuel = k + 1 := ⟨fuel - 1, by omega⟩
      have hread := value_dumps j fuel (Json.dumpsFields true false fs ++ rest) (by omega)
        (stops_fields fs rest)
      rw [htext, List.append_assoc, List.cons_append, List.cons_append, List.append_assoc,
        members_key, hread]
      cases hk : Json.storableStr k with
      | false => simp [Json.storableFields, hk]
      | true =>
          cases hj : j.storable with
          | false => simp [Json.storableFields, hj]
          | true =>
              simp only [Json.storableFields, hk, hj, Bool.true_and]
              cases fs with
              | nil => rfl
              | cons f' fs =>
                  have hcomma : Json.dumpsFields true false (f' :: fs) =
                    0x2c :: 0x20 :: Json.dumpsFields true true (f' :: fs) := rfl
                  have hmore := members_dumps (f' :: fs) fuel rest
                    (by rw [hcomma] at hfuel; simp only [List.length_cons] at hfuel; omega)
                    (by simp)
                  exact (members_blank fuel _).trans hmore

end

end Jsonb

end LeadQueue
