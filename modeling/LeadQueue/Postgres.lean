import LeadQueue.Library.Table
import LeadQueue.Python

/-!
# Values a statement can store

A stored text has no U+0000, a stored `INTEGER` fits 32 bits and a stored
`jsonb` has neither U+0000, nor an unpaired surrogate, nor a non-finite number.
Each type carries that as a field; binding a value that does not fit makes the
statement, and with it the transaction, fail.
-/

namespace LeadQueue

/-! ## Text -/

/-- Text that Postgres can hold. -/
@[ext]
structure PgText where
  str : PyStr
  noNul : (0 : CodePoint) ∉ str
deriving DecidableEq

/-- Bind a Python string as a text parameter. -/
def textParam (s : PyStr) : Except Raised PgText :=
  if h : (0 : CodePoint) ∈ s then .error .characterNotInRepertoire else .ok ⟨s, h⟩

theorem textParam_of_noNul {s : PyStr} (h : (0 : CodePoint) ∉ s) :
    textParam s = .ok ⟨s, h⟩ := dif_neg h

theorem textParam_of_nul {s : PyStr} (h : (0 : CodePoint) ∈ s) :
    textParam s = .error .characterNotInRepertoire := dif_pos h

/-- A nullable text parameter: `None` is `NULL`. -/
def textParam? : Option PyStr → Except Raised (Option PgText)
  | none => .ok none
  | some s => (textParam s).map some

theorem textParam?_isOk_iff (s : Option PyStr) :
    (∃ t, textParam? s = .ok t) ↔ ∀ x ∈ s, (0 : CodePoint) ∉ x := by
  cases s with
  | none => simp [textParam?]
  | some s =>
      by_cases h : (0 : CodePoint) ∈ s
      · simp [textParam?, textParam_of_nul h, h, Except.map]
      · simp [textParam?, textParam_of_noNul h, h, Except.map]

/-! ## Integers -/

/-- A stored `INTEGER`. -/
structure Int4 where
  val : ℤ
  lower : -2147483648 ≤ val
  upper : val ≤ 2147483647
deriving DecidableEq

def int4 (n : ℤ) : Except Raised Int4 :=
  if h : -2147483648 ≤ n ∧ n ≤ 2147483647 then .ok ⟨n, h.1, h.2⟩
  else .error .numericValueOutOfRange

theorem int4_isOk_iff {n : ℤ} : (∃ i, int4 n = .ok i) ↔ -2147483648 ≤ n ∧ n ≤ 2147483647 := by
  unfold int4
  split <;> simp_all

theorem val_of_int4 {n : ℤ} {i : Int4} (h : int4 n = .ok i) : i.val = n := by
  unfold int4 at h
  split at h
  · cases h
    rfl
  · cases h

/-- Round a `numeric` to an integer, halves away from zero. -/
def roundNumeric (q : ℚ) : ℤ := if 0 ≤ q then ⌊q + 1 / 2⌋ else -⌊-q + 1 / 2⌋

/-- `x::int` of a `numeric`. -/
def numericToInt4 (q : ℚ) : Except Raised Int4 := int4 (roundNumeric q)

/-! ## JSON -/

/-- What `json.loads` can return. -/
inductive Json where
  | null
  | bool (b : Bool)
  | int (n : ℤ)
  | float (q : ℚ)
  | nan
  | infinity (negative : Bool)
  | str (s : PyStr)
  | arr (items : List Json)
  | obj (fields : List (PyStr × Json))

namespace Json

def isHighSurrogate (c : CodePoint) : Bool := 0xd800 ≤ c.val && c.val < 0xdc00

def isLowSurrogate (c : CodePoint) : Bool := 0xdc00 ≤ c.val && c.val < 0xe000

/-- A surrogate that is not half of a high-low pair. -/
def hasUnpairedSurrogate : PyStr → Bool
  | [] => false
  | [c] => isHighSurrogate c || isLowSurrogate c
  | c :: d :: s =>
      if isHighSurrogate c then
        if isLowSurrogate d then hasUnpairedSurrogate s else true
      else isLowSurrogate c || hasUnpairedSurrogate (d :: s)

def storableStr (s : PyStr) : Bool := !s.contains 0 && !hasUnpairedSurrogate s

mutual

/-- The text `json.dumps` makes of the value is standard JSON that `jsonb`
takes. -/
def storable : Json → Bool
  | null | bool _ | int _ | float _ => true
  | nan | infinity _ => false
  | str s => storableStr s
  | arr items => storableItems items
  | obj fields => storableFields fields

def storableItems : List Json → Bool
  | [] => true
  | j :: js => storable j && storableItems js

def storableFields : List (PyStr × Json) → Bool
  | [] => true
  | (k, j) :: rest => storableStr k && storable j && storableFields rest

end

end Json

/-- A stored `jsonb`. -/
structure Jsonb where
  json : Json
  storable : json.storable = true

def jsonbParam (j : Json) : Except Raised Jsonb :=
  if h : j.storable = true then .ok ⟨j, h⟩ else .error .untranslatableJson

end LeadQueue
