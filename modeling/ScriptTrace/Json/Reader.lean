import ScriptTrace.Json.Value

/-!
Reading JSON. A text is one value between blanks; values nest without a limit. An escaped pair of
surrogates is one unit of a string, any other escaped surrogate a unit of its own.
-/

set_option autoImplicit false

namespace ScriptTrace.Json

/-- Whether a character may stand between tokens. -/
def isBlank (c : Char) : Bool := c == ' ' || c == '\n' || c == '\t' || c == '\r'

/-- The characters from the next token on. -/
def skipBlanks (cs : List Char) : List Char := cs.dropWhile isBlank

/-- The value of a hexadecimal digit. -/
def hexDigit? (c : Char) : Option Nat :=
  if '0' ≤ c && c ≤ '9' then some (c.toNat - 48)
  else if 'a' ≤ c && c ≤ 'f' then some (c.toNat - 87)
  else if 'A' ≤ c && c ≤ 'F' then some (c.toNat - 55)
  else none

/-- The value of four hexadecimal digits. -/
def hexUnit? (a b c d : Char) : Option Nat := do
  return (((← hexDigit? a) * 16 + (← hexDigit? b)) * 16 + (← hexDigit? c)) * 16 + (← hexDigit? d)

/-- The unit of an escape of one letter. -/
def shortEscape? (c : Char) : Option Nat :=
  if c = '\x22' then some 0x22
  else if c = '\x5c' then some 0x5C
  else if c = '/' then some 0x2F
  else if c = 'b' then some 0x08
  else if c = 'f' then some 0x0C
  else if c = 'n' then some 0x0A
  else if c = 'r' then some 0x0D
  else if c = 't' then some 0x09
  else none

/-- The units of a string up to its closing quotation mark, and what follows. -/
def readUnits : List Char → Option (List Nat × List Char)
  | [] => none
  | '\x5c' :: 'u' :: a :: b :: c :: d :: rest => do
    let unit ← hexUnit? a b c d
    let (units, rest) ← readUnits rest
    return (unit :: units, rest)
  | '\x5c' :: c :: rest => do
    let unit ← shortEscape? c
    let (units, rest) ← readUnits rest
    return (unit :: units, rest)
  | c :: rest =>
    if c = '\x22' then some ([], rest)
    else if c = '\x5c' || c.toNat < 0x20 then none
    else do
      let (units, rest) ← readUnits rest
      return (c.toNat :: units, rest)

/-- Join each high surrogate with the low one after it. -/
def joinSurrogates : List Nat → List Nat
  | high :: low :: rest =>
    if 0xD800 ≤ high ∧ high < 0xDC00 ∧ 0xDC00 ≤ low ∧ low < 0xE000 then
      (0x10000 + (high - 0xD800) * 0x400 + (low - 0xDC00)) :: joinSurrogates rest
    else high :: joinSurrogates (low :: rest)
  | units => units

/-- A string after its opening quotation mark. -/
def readString (cs : List Char) : Option (List Nat × List Char) := do
  let (units, rest) ← readUnits cs
  return (joinSurrogates units, rest)

/-- The digits at the start, and what follows. -/
def digits (cs : List Char) : List Char × List Char :=
  (cs.takeWhile Char.isDigit, cs.dropWhile Char.isDigit)

/-- The value of decimal digits. -/
def decimal (ds : List Char) : Nat := ds.foldl (fun n d => 10 * n + (d.toNat - 48)) 0

/-- A fraction, if one stands there: whether it does, and what follows. -/
def readFraction : List Char → Option (Bool × List Char)
  | '.' :: rest =>
    let (ds, rest) := digits rest
    if ds.isEmpty then none else some (true, rest)
  | cs => some (false, cs)

/-- An exponent, if one stands there: whether it does, and what follows. -/
def readExponent : List Char → Option (Bool × List Char)
  | c :: rest =>
    if c = 'e' || c = 'E' then
      let rest := match rest with
        | '+' :: rest => rest
        | '-' :: rest => rest
        | rest => rest
      let (ds, rest) := digits rest
      if ds.isEmpty then none else some (true, rest)
    else some (false, c :: rest)
  | [] => some (false, [])

/-- A number after its sign. -/
def readNumber (negative : Bool) (cs : List Char) : Option (Json × List Char) := do
  let (ds, rest) := digits cs
  if ds.isEmpty || (ds.head? = some '0' && ds.length > 1) then none
  else
    let (fraction, rest) ← readFraction rest
    let (exponent, rest) ← readExponent rest
    let n := decimal ds
    if fraction || exponent || (negative && n = 0) then return (number none, rest)
    else return (number (some (if negative then -(n : Int) else n)), rest)

/-- What follows a word at the start. -/
def dropWord (word : String) (cs : List Char) : Option (List Char) :=
  if word.toList.isPrefixOf cs then some (cs.drop word.length) else none

mutual

/-- The value at the start, nested at most `room` deep, and what follows. -/
def readValue : Nat → List Char → Option (Json × List Char)
  | 0, _ => none
  | room + 1, cs =>
    match skipBlanks cs with
    | [] => none
    | c :: rest =>
      if c = '\x22' then do
        let (units, rest) ← readString rest
        return (string units, rest)
      else if c = '[' then
        match skipBlanks rest with
        | ']' :: rest => some (array [], rest)
        | rest => do
          let (elements, rest) ← readElements room rest
          return (array elements, rest)
      else if c = '\x7b' then
        match skipBlanks rest with
        | '\x7d' :: rest => some (object [], rest)
        | rest => do
          let (members, rest) ← readMembers room rest
          return (object members, rest)
      else if c = '-' then readNumber true rest
      else if c.isDigit then readNumber false (c :: rest)
      else if c = 't' then (dropWord "rue" rest).map (bool true, ·)
      else if c = 'f' then (dropWord "alse" rest).map (bool false, ·)
      else if c = 'n' then (dropWord "ull" rest).map (null, ·)
      else none

/-- One or more elements up to the closing bracket, and what follows. -/
def readElements : Nat → List Char → Option (List Json × List Char)
  | 0, _ => none
  | room + 1, cs => do
    let (value, rest) ← readValue room cs
    match skipBlanks rest with
    | ',' :: rest => do
      let (values, rest) ← readElements room rest
      return (value :: values, rest)
    | ']' :: rest => return ([value], rest)
    | _ => none

/-- One or more members up to the closing brace, and what follows. -/
def readMembers : Nat → List Char → Option (List (List Nat × Json) × List Char)
  | 0, _ => none
  | room + 1, cs =>
    match skipBlanks cs with
    | '\x22' :: rest => do
      let (name, rest) ← readString rest
      match skipBlanks rest with
      | ':' :: rest => do
        let (value, rest) ← readValue room rest
        match skipBlanks rest with
        | ',' :: rest => do
          let (members, rest) ← readMembers room rest
          return ((name, value) :: members, rest)
        | '\x7d' :: rest => return ([(name, value)], rest)
        | _ => none
      | _ => none
    | _ => none

end

/-- The value a whole text is. Each level and each element takes at least one character, so twice
the length is room enough. -/
def parse? (s : String) : Option Json := do
  let cs := s.toList
  let (value, rest) ← readValue (2 * cs.length + 2) cs
  if (skipBlanks rest).isEmpty then return value else none

end ScriptTrace.Json
