/-!
JSON values as they are written. The members of an object keep their order and their duplicates. A
number is known by its value if it is written as an integer, and by nothing if it has a fraction or
an exponent or is a negative zero. The units of a string are code points, among them surrogates that
were escaped without a partner; a string with such a unit has no text.
-/

set_option autoImplicit false

namespace ScriptTrace

/-- A JSON value. -/
inductive Json where
  | null
  | bool (value : Bool)
  | number (value : Option Int)
  | string (units : List Nat)
  | array (elements : List Json)
  | object (members : List (List Nat × Json))

namespace Json

/-- The text with these code points, if all of them are characters. -/
def textOf? (units : List Nat) : Option String :=
  let chars := units.mapM fun (u : Nat) => if u.isValidChar then some (Char.ofNat u) else none
  chars.map String.ofList

/-- The code points of a text. -/
def unitsOf (s : String) : List Nat := s.toList.map Char.toNat

/-- The string of a text. -/
def text (s : String) : Json := string (unitsOf s)

/-- The number of an integer. -/
def int (i : Int) : Json := number (some i)

/-- The object with these members. -/
def ofMembers (members : List (String × Json)) : Json :=
  object (members.map fun (name, value) => (unitsOf name, value))

/-- The text of a string. -/
def text? : Json → Option String
  | string units => textOf? units
  | _ => none

/-- The value of an integer from `low` to `high`. -/
def int? (low high : Int) : Json → Option Int
  | number (some i) => if low ≤ i ∧ i ≤ high then some i else none
  | _ => none

def bool? : Json → Option Bool
  | bool b => some b
  | _ => none

end Json

end ScriptTrace
