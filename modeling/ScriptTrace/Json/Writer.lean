import ScriptTrace.Json.Value

/-!
Writing JSON without blanks. In strings the quotation mark, the backslash and the controls are
escaped, the controls in short form where there is one; all other characters stand for themselves.
-/

set_option autoImplicit false

namespace ScriptTrace.Json

/-- Four hexadecimal digits of a code point. -/
def hexUnit (u : Nat) : List Char :=
  let digits := Nat.toDigits 16 u
  List.replicate (4 - digits.length) '0' ++ digits

/-- The characters a code point of a string is written as. -/
def writeUnit (u : Nat) : List Char :=
  let escaped (c : Char) : List Char := ['\x5c', c]
  if u = 0x22 then escaped '\x22'
  else if u = 0x5C then escaped '\x5c'
  else if u = 0x08 then escaped 'b'
  else if u = 0x0C then escaped 'f'
  else if u = 0x0A then escaped 'n'
  else if u = 0x0D then escaped 'r'
  else if u = 0x09 then escaped 't'
  else if u < 0x20 ∨ ¬ u.isValidChar then escaped 'u' ++ hexUnit u
  else [Char.ofNat u]

def writeString (units : List Nat) : List Char :=
  '\x22' :: units.flatMap writeUnit ++ ['\x22']

/-- An integer in decimal; a number without a value has none to write. -/
def writeNumber : Option Int → List Char
  | some i => (toString i).toList
  | none => "null".toList

mutual

/-- The characters of a value. -/
def write : Json → List Char
  | null => "null".toList
  | bool b => (toString b).toList
  | number n => writeNumber n
  | string units => writeString units
  | array elements => '[' :: writeElements elements ++ [']']
  | object members => '\x7b' :: writeMembers members ++ ['\x7d']

/-- The elements of an array, separated by commas. -/
def writeElements : List Json → List Char
  | [] => []
  | [value] => value.write
  | value :: rest => value.write ++ ',' :: writeElements rest

/-- The members of an object, separated by commas. -/
def writeMembers : List (List Nat × Json) → List Char
  | [] => []
  | [(name, value)] => writeString name ++ ':' :: value.write
  | (name, value) :: rest => writeString name ++ ':' :: value.write ++ ',' :: writeMembers rest

end

/-- The text of a value. -/
def render (j : Json) : String := String.ofList j.write

end ScriptTrace.Json
