import LeadQueue.JsonText.Accepts

/-!
# The strings Python writes

`ensure_ascii` writes a character as itself, as a short escape, as `\uXXXX` or as a
surrogate pair; the reader follows each. It refuses a string exactly where it
holds U+0000 or an unpaired surrogate (`allAfter_eq_storableStr`).
-/

namespace LeadQueue

namespace Jsonb

theorem hexValue_digit {d : ℕ} (h : d < 16) : hexValue (PyStr.digit d) = some d := by
  have hall : ∀ d : Fin 16, hexValue (PyStr.digit d) = some d.val := by decide
  exact hall ⟨d, h⟩

theorem codeUnit_digits {n : ℕ} (hn : n < 0x10000) :
    codeUnit (PyStr.digit (n / 4096 % 16)) (PyStr.digit (n / 256 % 16))
      (PyStr.digit (n / 16 % 16)) (PyStr.digit (n % 16)) = some n := by
  unfold codeUnit
  rw [hexValue_digit (Nat.mod_lt _ (by omega)), hexValue_digit (Nat.mod_lt _ (by omega)),
    hexValue_digit (Nat.mod_lt _ (by omega)), hexValue_digit (Nat.mod_lt _ (by omega))]
  show some (n / 4096 % 16 * 4096 + n / 256 % 16 * 256 + n / 16 % 16 * 16 + n % 16) = some n
  congr 1
  omega

theorem stringBody_unicodeEscape (pending : Bool) {n : ℕ} (hn : n < 0x10000) (t : PyStr) :
    stringBody pending (Json.unicodeEscape n ++ t) =
      (after pending n).bind fun pending => stringBody pending t := by
  show stringBody pending (0x5c :: 0x75 :: _ :: _ :: _ :: _ :: t) = _
  rw [stringBody, if_neg (by decide), if_pos rfl, if_pos rfl, codeUnit_digits hn]
  rw [Option.bind_some]
  cases after pending n <;> rfl

theorem stringBody_quote (pending : Bool) (t : PyStr) :
    stringBody pending (0x22 :: t) = if pending then none else some t := by
  rw [stringBody.eq_def]
  exact if_pos rfl

theorem stringBody_shortEscape (pending : Bool) {e : CodePoint} (he : isShortEscape e = true)
    (t : PyStr) :
    stringBody pending (0x5c :: e :: t) = if pending then none else stringBody false t := by
  have hne : e ≠ 0x75 := by
    rintro rfl
    cases he
  rw [stringBody.eq_def]
  simp only [if_neg hne, he]
  cases pending <;> rfl

theorem stringBody_plain (pending : Bool) {c : CodePoint} (hquote : c ≠ 0x22) (hslash : c ≠ 0x5c)
    (hcontrol : ¬ c.val < 0x20) (hsurrogate : Json.isSurrogate c = false) (t : PyStr) :
    stringBody pending (c :: t) = if pending then none else stringBody false t := by
  rw [stringBody.eq_def]
  simp only [if_neg hquote, if_neg hslash, hcontrol, hsurrogate]
  cases pending <;> rfl

theorem after_plain (pending : Bool) {n : ℕ} (hne : n ≠ 0) (hlt : n < 0xd800 ∨ 0xe000 ≤ n) :
    after pending n = if pending then none else some false := by
  unfold after
  rw [if_neg hne, if_neg (by omega), if_neg (by omega)]

theorem stringBody_pair (pending : Bool) {n : ℕ} (hn : n < 0x100000) (t : PyStr) :
    stringBody pending (Json.unicodeEscape (0xd800 + n / 0x400) ++
      Json.unicodeEscape (0xdc00 + n % 0x400) ++ t) =
      if pending then none else stringBody false t := by
  have hhigh : after pending (0xd800 + n / 0x400) = if pending then none else some true := by
    unfold after
    rw [if_neg (by omega), if_pos (by omega)]
  have hlow : after true (0xdc00 + n % 0x400) = some false := by
    unfold after
    rw [if_neg (by omega), if_neg (by omega), if_pos (by omega)]
    rfl
  rw [List.append_assoc, stringBody_unicodeEscape pending (by omega), hhigh]
  cases pending with
  | true => rfl
  | false =>
      show stringBody true _ = stringBody false t
      rw [stringBody_unicodeEscape true (by omega), hlow]
      rfl

theorem mem_shortEscapes {p : CodePoint × CodePoint} (h : p ∈ Json.shortEscapes) :
    isShortEscape p.2 = true ∧ p.1.val ≠ 0 ∧ p.1.val < 0x80 := by
  simp only [Json.shortEscapes, List.mem_cons, List.not_mem_nil, or_false] at h
  rcases h with rfl | rfl | rfl | rfl | rfl | rfl | rfl <;> exact ⟨rfl, by decide, by decide⟩

/-- A character escaped and read is a character followed. -/
theorem stringBody_escapeChar (pending : Bool) (c : CodePoint) (t : PyStr) :
    stringBody pending (Json.escapeChar true c ++ t) =
      (after pending c.val).bind fun pending => stringBody pending t := by
  have hc := c.isLt
  have hbind : (if pending then none else some false).bind (fun p => stringBody p t) =
      if pending then none else stringBody false t := by
    cases pending <;> rfl
  unfold Json.escapeChar
  split
  · rename_i letter hletter
    obtain ⟨l, l', hl, _⟩ := List.lookup_eq_some_iff.mp hletter
    obtain ⟨hshort, hne, hlt⟩ := @mem_shortEscapes (c, letter) (by rw [hl]; simp)
    rw [after_plain pending hne (Or.inl (Nat.lt_trans hlt (by omega))), hbind]
    exact stringBody_shortEscape pending hshort t
  · rename_i hnone
    have hmem := List.lookup_eq_none_iff.mp hnone
    have hquote : c ≠ 0x22 := by simpa using hmem (0x22, 0x22) (by decide)
    have hslash : c ≠ 0x5c := by simpa using hmem (0x5c, 0x5c) (by decide)
    split
    · exact stringBody_unicodeEscape pending (by omega) t
    · rename_i hcontrol
      split
      · split
        · rename_i hbmp
          exact stringBody_unicodeEscape pending hbmp t
        · rename_i hlarge
          rw [after_plain pending (by omega) (by omega), hbind]
          exact stringBody_pair pending (by omega) t
      · rename_i hascii
        rw [Bool.true_and, decide_eq_true_eq] at hascii
        have hsurrogate : Json.isSurrogate c = false := by
          unfold Json.isSurrogate
          rw [decide_eq_false (by omega), Bool.false_and]
        rw [after_plain pending (by omega) (by omega), hbind]
        exact stringBody_plain pending hquote hslash hcontrol hsurrogate t

/-- No character of the text stands where it may not. -/
def allAfter : Bool → PyStr → Bool
  | pending, [] => !pending
  | pending, c :: s => (after pending c.val).any fun pending => allAfter pending s

theorem stringBody_escaped (pending : Bool) (s t : PyStr) :
    stringBody pending (s.flatMap (Json.escapeChar true) ++ 0x22 :: t) =
      if allAfter pending s then some t else none := by
  induction s generalizing pending with
  | nil =>
      apply (stringBody_quote pending t).trans
      cases pending <;> rfl
  | cons c s ih =>
      rw [List.flatMap_cons, List.append_assoc, stringBody_escapeChar, allAfter]
      cases after pending c.val with
      | none => rfl
      | some pending => exact ih pending

theorem after_high (pending : Bool) {c : CodePoint} (h : Json.isHighSurrogate c = true) :
    after pending c.val = if pending then none else some true := by
  simp only [Json.isHighSurrogate, Bool.and_eq_true, decide_eq_true_eq] at h
  unfold after
  rw [if_neg (by omega), if_pos h]

theorem after_low (pending : Bool) {c : CodePoint} (h : Json.isLowSurrogate c = true) :
    after pending c.val = if pending then some false else none := by
  simp only [Json.isLowSurrogate, Bool.and_eq_true, decide_eq_true_eq] at h
  unfold after
  rw [if_neg (by omega), if_neg (by omega), if_pos h]

theorem after_other (pending : Bool) {c : CodePoint} (hhigh : ¬ Json.isHighSurrogate c = true)
    (hlow : ¬ Json.isLowSurrogate c = true) :
    after pending c.val = if c = 0 ∨ pending = true then none else some false := by
  simp only [Json.isHighSurrogate, Json.isLowSurrogate, Bool.and_eq_true, decide_eq_true_eq]
    at hhigh hlow
  by_cases hzero : c = 0
  · subst hzero
    rfl
  · rw [after_plain pending (fun h => hzero (Fin.ext h)) (by omega)]
    cases pending <;> simp [hzero]

theorem allAfter_eq_storableStr (s : PyStr) : allAfter false s = Json.storableStr s := by
  induction s using Json.hasUnpairedSurrogate.induct with
  | case1 => rfl
  | case2 c =>
      show (after false c.val).any (fun p => !p) = Json.storableStr [c]
      by_cases hhigh : Json.isHighSurrogate c = true
      · simp [after_high false hhigh, Json.storableStr, Json.hasUnpairedSurrogate, hhigh]
      by_cases hlow : Json.isLowSurrogate c = true
      · simp [after_low false hlow, Json.storableStr, Json.hasUnpairedSurrogate, hlow]
      rw [after_other false hhigh hlow]
      by_cases hzero : c = 0 <;>
        simp [Json.storableStr, Json.hasUnpairedSurrogate, hhigh, hlow, hzero, eq_comm]
  | case3 c d s hhigh hlow ih =>
      show (after false c.val).any (fun p => (after p d.val).any fun p => allAfter p s) = _
      have hc : (0 : CodePoint) ≠ c := by rintro rfl; cases hhigh
      have hd : (0 : CodePoint) ≠ d := by rintro rfl; cases hlow
      rw [after_high false hhigh]
      show (after true d.val).any _ = _
      rw [after_low true hlow]
      show allAfter false s = _
      rw [ih]
      simp [Json.storableStr, Json.hasUnpairedSurrogate, hhigh, hlow, hc, hd]
  | case4 c d s hhigh hlow =>
      show (after false c.val).any (fun p => (after p d.val).any fun p => allAfter p s) = _
      rw [after_high false hhigh]
      show (after true d.val).any _ = _
      have hnone : after true d.val = none := by
        by_cases hhigh' : Json.isHighSurrogate d = true
        · exact after_high true hhigh'
        · rw [after_other true hhigh' hlow]
          exact if_pos (Or.inr rfl)
      rw [hnone]
      simp [Json.storableStr, Json.hasUnpairedSurrogate, hhigh, hlow]
  | case5 c d s hhigh ih =>
      show (after false c.val).any (fun p => allAfter p (d :: s)) = _
      by_cases hlow : Json.isLowSurrogate c = true
      · rw [after_low false hlow]
        simp [Json.storableStr, Json.hasUnpairedSurrogate, hhigh, hlow]
      · rw [after_other false hhigh hlow]
        by_cases hzero : c = 0
        · subst hzero
          rfl
        · rw [if_neg (by simpa using hzero)]
          show allAfter false (d :: s) = _
          rw [ih]
          simp [Json.storableStr, Json.hasUnpairedSurrogate, hhigh, hlow, eq_comm, hzero]

end Jsonb

end LeadQueue
