import Recolor.Text.Printable

/-!
# Quoted text

`quoted` writes a text between double quotes so that it can be shown on one line. The double quote
and the backslash stand behind a backslash, the usual control characters have a letter, and any
other character that is not printable is written with its code point.
-/

set_option autoImplicit false

namespace Recolor.Text

/-- The digits of a code point in base 16, in lower case and without leading zeros. -/
def hexadecimal (n : Nat) : List Char := Nat.toDigits 16 n

/-- The written form of a character between double quotes. -/
def quotedChar (c : Char) : List Char :=
  if c = '"' then ['\\', '"']
  else if c = '\\' then ['\\', '\\']
  else if c = '\n' then ['\\', 'n']
  else if c = '\r' then ['\\', 'r']
  else if c = '\t' then ['\\', 't']
  else if c = '\x00' then ['\\', '0']
  else if isPrintable c then [c]
  else ['\\', 'u', '\x7b'] ++ hexadecimal c.toNat ++ ['\x7d']

/-- The text between double quotes, with what cannot stand for itself escaped. -/
def quoted (s : String) : String :=
  String.ofList ('"' :: s.toList.flatMap quotedChar ++ ['"'])

end Recolor.Text
