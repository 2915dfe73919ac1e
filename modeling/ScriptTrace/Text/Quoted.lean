import ScriptTrace.Text.CharClass

/-!
Quoted text. A quoted character stands for itself unless it is a quote of the enclosing kind, a
backslash, a control with a short form, unprintable, or a grapheme extender; those are escaped, the
last two kinds as a backslash, `u` and the hexadecimal code point in braces. Which of the two quotes
is escaped depends on where the text stands (`Quoting`).
-/

set_option autoImplicit false

namespace ScriptTrace

/-- Which quotes are escaped. -/
structure Quoting where
  single : Bool
  double : Bool

namespace Quoting

def backslash : Char := '\x5c'

def singleQuote : Char := '\x27'

def doubleQuote : Char := '\x22'

/-- Texts stand in double quotes, which alone are escaped. -/
def text : Quoting := ⟨false, true⟩

/-- Characters stand in single quotes, which alone are escaped. -/
def char : Quoting := ⟨true, false⟩

/-- The escape by code point. -/
def codePoint (c : Char) : List Char :=
  [backslash, 'u', '\x7b'] ++ Nat.toDigits 16 c.toNat ++ ['\x7d']

/-- The characters written for one character. -/
def escape (q : Quoting) (c : Char) : List Char :=
  if c == '\x00' then [backslash, '0']
  else if c == '\t' then [backslash, 't']
  else if c == '\r' then [backslash, 'r']
  else if c == '\n' then [backslash, 'n']
  else if c == backslash then [backslash, backslash]
  else if c == doubleQuote && q.double then [backslash, doubleQuote]
  else if c == singleQuote && q.single then [backslash, singleQuote]
  else if CharClass.extendsGrapheme c || !CharClass.isPrintable c then codePoint c
  else [c]

/-- A text in double quotes. -/
def quote (q : Quoting) (s : String) : String :=
  String.ofList (doubleQuote :: s.toList.flatMap q.escape ++ [doubleQuote])

/-- A character in single quotes. -/
def quoteChar (c : Char) : String :=
  String.ofList (singleQuote :: char.escape c ++ [singleQuote])

end Quoting

end ScriptTrace
