import LeadQueue.JsonText.Dumps

/-!
# What `jsonb` reads

A recursive-descent reader of standard JSON text. In a string it refuses U+0000
and a surrogate escape without its other half; a token other than the standard
ones, `NaN` and `Infinity` among them, it refuses anywhere. Each function
returns the text after what it read.
-/

namespace LeadQueue

namespace Jsonb

def isWhitespace (c : CodePoint) : Bool :=
  c == 0x20 || c == 0x09 || c == 0x0a || c == 0x0d

def skipWs (s : PyStr) : PyStr := s.dropWhile isWhitespace

/-- One character, after whitespace. -/
def expect (c : CodePoint) (s : PyStr) : Option PyStr :=
  match skipWs s with
  | [] => none
  | d :: t => if d = c then some t else none

/-! ## Numbers -/

def isDigit (c : CodePoint) : Bool := 0x30 ≤ c.val && c.val ≤ 0x39

/-- One digit or more. -/
def digits : PyStr → Option PyStr
  | [] => none
  | c :: s => if isDigit c then some (s.dropWhile isDigit) else none

/-- No leading zero. -/
def intPart : PyStr → Option PyStr
  | [] => none
  | c :: s => if c = 0x30 then some s else digits (c :: s)

def fraction : PyStr → Option PyStr
  | [] => some []
  | c :: s => if c = 0x2e then digits s else some (c :: s)

def afterSign : PyStr → PyStr
  | [] => []
  | c :: s => if c = 0x2b ∨ c = 0x2d then s else c :: s

def exponentPart : PyStr → Option PyStr
  | [] => some []
  | c :: s => if c = 0x65 ∨ c = 0x45 then digits (afterSign s) else some (c :: s)

def number (s : PyStr) : Option PyStr := do
  let s ← intPart (if s.head? = some 0x2d then s.tail else s)
  let s ← fraction s
  exponentPart s

/-! ## Strings -/

def hexValue (c : CodePoint) : Option ℕ :=
  if isDigit c then some (c.val - 0x30)
  else if 0x61 ≤ c.val ∧ c.val ≤ 0x66 then some (c.val - 0x57)
  else if 0x41 ≤ c.val ∧ c.val ≤ 0x46 then some (c.val - 0x37)
  else none

def codeUnit (a b c d : CodePoint) : Option ℕ := do
  let a ← hexValue a
  let b ← hexValue b
  let c ← hexValue c
  let d ← hexValue d
  return a * 4096 + b * 256 + c * 16 + d

/-- Whether a high surrogate is pending after the character `n`; `none` if the
character may not stand there. -/
def after (pending : Bool) (n : ℕ) : Option Bool :=
  if n = 0 then none
  else if 0xd800 ≤ n ∧ n < 0xdc00 then (if pending then none else some true)
  else if 0xdc00 ≤ n ∧ n < 0xe000 then (if pending then some false else none)
  else if pending then none else some false

def isShortEscape (c : CodePoint) : Bool :=
  [0x22, 0x5c, 0x2f, 0x62, 0x66, 0x6e, 0x72, 0x74].contains c

/-- The rest of a string and its closing quote. -/
def stringBody : Bool → PyStr → Option PyStr
  | _, [] => none
  | pending, c :: s =>
      if c = 0x22 then (if pending then none else some s)
      else if c = 0x5c then
        match s with
        | [] => none
        | e :: t =>
            if e = 0x75 then
              match t with
              | a :: b :: c :: d :: u =>
                  match (codeUnit a b c d).bind (after pending) with
                  | none => none
                  | some pending => stringBody pending u
              | _ => none
            else if isShortEscape e && !pending then stringBody false t
            else none
      else if c.val < 0x20 || Json.isSurrogate c || pending then none
      else stringBody false s

/-! ## Values -/

def keyword (word s : PyStr) : Option PyStr :=
  if word.isPrefixOf s then some (s.drop word.length) else none

mutual

def value : ℕ → PyStr → Option PyStr
  | 0, _ => none
  | fuel + 1, s =>
      match skipWs s with
      | [] => none
      | c :: t =>
          if c = 0x7b then (expect 0x7d t).or (members fuel t)
          else if c = 0x5b then (expect 0x5d t).or (elements fuel t)
          else if c = 0x22 then stringBody false t
          else if c = 0x6e then keyword (.ofString "null") (c :: t)
          else if c = 0x74 then keyword (.ofString "true") (c :: t)
          else if c = 0x66 then keyword (.ofString "false") (c :: t)
          else number (c :: t)

def elements : ℕ → PyStr → Option PyStr
  | 0, _ => none
  | fuel + 1, s =>
      (value fuel s).bind fun t =>
        match expect 0x2c t with
        | some u => elements fuel u
        | none => expect 0x5d t

def members : ℕ → PyStr → Option PyStr
  | 0, _ => none
  | fuel + 1, s =>
      (expect 0x22 s).bind fun t => (stringBody false t).bind fun t =>
        (expect 0x3a t).bind fun t => (value fuel t).bind fun t =>
          match expect 0x2c t with
          | some u => members fuel u
          | none => expect 0x7d t

end

end Jsonb

end LeadQueue
