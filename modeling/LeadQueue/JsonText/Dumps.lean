import LeadQueue.Postgres

/-!
# What `json.dumps` writes

The text of a JSON value: with `ensure_ascii`, as the `jsonb` codec sends it, and
without, as intake measures it. A lone surrogate is escaped by the first and
written as it is by the second, where `encode("utf-8")` then refuses it.
-/

namespace LeadQueue

/-! ## Numbers -/

/-- `str` of an `int`. -/
def PyStr.ofInt (n : ℤ) : PyStr :=
  (if n < 0 then [0x2d] else []) ++ PyStr.ofNat n.natAbs

/-- The double nearest to a rational, subnormals included. -/
def nearestDouble (q : ℚ) : ℚ :=
  if q = 0 then 0
  else
    let ulp : ℚ := 2 ^ max (Int.log 2 |q| - 52) (-1074)
    roundHalfEven (q / ulp) * ulp

/-- A decimal `m * 10 ^ k` of `p` digits that reads back as `q`, the nearest one
if it does. -/
def decimal? (q : ℚ) (p : ℕ) : Option (ℕ × ℤ) :=
  let k : ℤ := Int.log 10 q - p + 1
  let m : ℚ := q / 10 ^ k
  ([roundHalfEven m, ⌊m⌋, ⌈m⌉].find? fun m : ℤ => nearestDouble (m * 10 ^ k) = q).map
    fun m => (m.natAbs, k)

/-- The shortest decimal that reads back as `q`; seventeen digits do for every
double. -/
def shortestDecimal (q : ℚ) : ℕ × ℤ :=
  ((List.range' 1 17).findSome? (decimal? q)).getD
    (⌈q / 10 ^ (Int.log 10 q - 16)⌉.natAbs, Int.log 10 q - 16)

/-- `e+16`, `e-05`: a sign and at least two digits. -/
def exponent (e : ℤ) : PyStr :=
  [0x65, if e < 0 then 0x2d else 0x2b] ++ (if e.natAbs < 10 then [0x30] else []) ++
    PyStr.ofNat e.natAbs

/-- Digits and the position of the decimal point among them, as `repr` lays them
out. -/
def layout (digits : PyStr) (point : ℤ) : PyStr :=
  if -4 < point ∧ point ≤ 16 then
    if point ≤ 0 then [0x30, 0x2e] ++ .replicate point.natAbs 0x30 ++ digits
    else if digits.length ≤ point.toNat then
      digits ++ .replicate (point.toNat - digits.length) 0x30 ++ [0x2e, 0x30]
    else digits.take point.toNat ++ [0x2e] ++ digits.drop point.toNat
  else
    digits.take 1 ++ (if digits.length ≤ 1 then [] else 0x2e :: digits.drop 1) ++
      exponent (point - 1)

/-- `float.__repr__` of a finite float. -/
def floatRepr (q : ℚ) : PyStr :=
  if q = 0 then [0x30, 0x2e, 0x30]
  else
    let (m, k) := shortestDecimal |q|
    let digits := PyStr.ofNat m
    (if q < 0 then [0x2d] else []) ++
      layout (digits.rdropWhile fun c => decide (c = 0x30)) (digits.length + k)

/-! ## Strings -/

namespace Json

/-- `\uXXXX`. -/
def unicodeEscape (n : ℕ) : PyStr :=
  [0x5c, 0x75, PyStr.digit (n / 4096 % 16), PyStr.digit (n / 256 % 16),
    PyStr.digit (n / 16 % 16), PyStr.digit (n % 16)]

/-- The characters with an escape of one letter, and the letter. -/
def shortEscapes : List (CodePoint × CodePoint) :=
  [(0x22, 0x22), (0x5c, 0x5c), (0x0a, 0x6e), (0x0d, 0x72), (0x09, 0x74), (0x0c, 0x66),
    (0x08, 0x62)]

def escapeChar (ensureAscii : Bool) (c : CodePoint) : PyStr :=
  match shortEscapes.lookup c with
  | some letter => [0x5c, letter]
  | none =>
      if c.val < 0x20 then unicodeEscape c.val
      else if ensureAscii && decide (0x7e < c.val) then
        if c.val < 0x10000 then unicodeEscape c.val
        else
          -- a surrogate pair
          unicodeEscape (0xd800 + (c.val - 0x10000) / 0x400) ++
            unicodeEscape (0xdc00 + (c.val - 0x10000) % 0x400)
      else [c]

def quote (ensureAscii : Bool) (s : PyStr) : PyStr :=
  0x22 :: (s.flatMap (escapeChar ensureAscii) ++ [0x22])

/-! ## Values -/

/-- `", "` before every element but the first. -/
def separator (first : Bool) : PyStr := if first then [] else [0x2c, 0x20]

mutual

def dumps (ensureAscii : Bool) : Json → PyStr
  | null => .ofString "null"
  | bool true => .ofString "true"
  | bool false => .ofString "false"
  | int n => .ofInt n
  | float q => floatRepr q
  | nan => .ofString "NaN"
  | infinity false => .ofString "Infinity"
  | infinity true => .ofString "-Infinity"
  | str s => quote ensureAscii s
  | arr items => 0x5b :: dumpsItems ensureAscii true items
  | obj fields => 0x7b :: dumpsFields ensureAscii true fields

/-- The elements and the closing bracket. -/
def dumpsItems (ensureAscii : Bool) (first : Bool) : List Json → PyStr
  | [] => [0x5d]
  | j :: js => separator first ++ (dumps ensureAscii j ++ dumpsItems ensureAscii false js)

/-- The members and the closing brace. -/
def dumpsFields (ensureAscii : Bool) (first : Bool) : List (PyStr × Json) → PyStr
  | [] => [0x7d]
  | (k, j) :: rest =>
      separator first ++ (quote ensureAscii k ++ ([0x3a, 0x20] ++
        (dumps ensureAscii j ++ dumpsFields ensureAscii false rest)))

end

/-! ## The measured text -/

def isSurrogate (c : CodePoint) : Bool := 0xd800 ≤ c.val && c.val < 0xe000

end Json

/-- `s.encode("utf-8")` returns. -/
def PyStr.encodable (s : PyStr) : Bool := !s.any Json.isSurrogate

/-- Bytes of a character in UTF-8. -/
def utf8Width (c : CodePoint) : ℕ :=
  if c.val < 0x80 then 1 else if c.val < 0x800 then 2 else if c.val < 0x10000 then 3 else 4

/-- `len(s.encode("utf-8"))`: `none` is the `UnicodeEncodeError` of a surrogate. -/
def encodedLength (s : PyStr) : Option ℕ :=
  if s.any Json.isSurrogate then none else some (s.map utf8Width).sum

theorem encodedLength_isSome_iff {s : PyStr} :
    (encodedLength s).isSome ↔ ∀ c ∈ s, Json.isSurrogate c = false := by
  unfold encodedLength
  split
  · rename_i hany
    obtain ⟨c, hc, hsurrogate⟩ := List.any_eq_true.mp hany
    apply iff_of_false (by simp)
    intro h
    rw [h c hc] at hsurrogate
    cases hsurrogate
  · rename_i hany
    simpa using hany

end LeadQueue
