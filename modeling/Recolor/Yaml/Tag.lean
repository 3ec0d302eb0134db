import Recolor.Yaml.Place

/-!
# Tags

A tag tells the kind of a node. It is written in full between angle brackets, or as a handle, which
stands for the start of the tag, and a suffix. An escape, a percent sign with two hexadecimal
digits, stands for a byte, and the escapes for the bytes of one character stand together. Therefore
a tag is a list of bytes, which need not be those of a text.
-/

set_option autoImplicit false

namespace Recolor.Yaml

/-- The bytes of a tag. -/
structure Tag where
  bytes : List UInt8
deriving DecidableEq, Repr

namespace Tag

/-- The tag with a text. -/
def ofString (text : String) : Tag := ⟨text.toUTF8.data.toList⟩

/-- The text of a tag, if its bytes are those of a text. -/
def text? (t : Tag) : Option String := String.fromUTF8? ⟨t.bytes.toArray⟩

/-- The lone sign of a tag. -/
def sign : Tag := ofString "!"

/-- The name behind the sign of a tag that starts with one, if it is text. The lone sign is a name
itself. -/
def name? (t : Tag) : Option String :=
  if t = sign then some "!"
  else if t.bytes.take 1 = sign.bytes then text? ⟨t.bytes.drop 1⟩
  else none

/-- The tag that is made of a start and a suffix. -/
def append (start suffix : Tag) : Tag := ⟨start.bytes ++ suffix.bytes⟩

/-- The characters that stand for themselves in a suffix. -/
def isSuffixChar (c : Char) : Bool := isNameChar c || ";/?:@&=+$.!~*'()".toList.contains c

/-- The characters that stand for themselves in a tag in full. -/
def isFullChar (c : Char) : Bool := isSuffixChar c || c == ',' || c == '[' || c == ']'

/-- How many bytes of a character follow its first one. -/
def followers? (byte : Nat) : Option Nat :=
  if byte < 0x80 then some 0
  else if byte < 0xc0 then none
  else if byte < 0xe0 then some 1
  else if byte < 0xf0 then some 2
  else if byte < 0xf8 then some 3
  else none

/-- How many bytes of a character are missing behind a byte, if `missing` were in front of it. -/
def missingBehind? (missing byte : Nat) : Option Nat :=
  if missing = 0 then followers? byte
  else if 0x80 ≤ byte ∧ byte < 0xc0 then some (missing - 1)
  else none

/-- Reads bytes up to the first character that cannot belong to a tag. While bytes of a character
are `missing`, an escape has to follow. -/
def scanBytes (isChar : Char → Bool) (missing : Nat) :
    List Char → Except Defect (List UInt8 × List Char)
  | [] => if missing = 0 then .ok ([], []) else .error .tag
  | '%' :: a :: b :: cs =>
    match hexDigit? a, hexDigit? b with
    | some high, some low =>
      let byte := 16 * high + low
      match missingBehind? missing byte with
      | none => .error .tag
      | some missing =>
        (scanBytes isChar missing cs).map fun (bytes, rest) => (UInt8.ofNat byte :: bytes, rest)
    | _, _ => .error .tag
  | c :: cs =>
    if c = '%' ∨ missing ≠ 0 then .error .tag
    else if isChar c then
      (scanBytes isChar 0 cs).map fun (bytes, rest) => (UInt8.ofNat c.toNat :: bytes, rest)
    else .ok ([], c :: cs)

/-- The tag of the bytes up to the first that is zero. -/
def ofBytes (bytes : List UInt8) : Tag := ⟨bytes.takeWhile (· != 0)⟩

/-- Reads a tag, or a part of one, of at least one byte. -/
def scan (isChar : Char → Bool) (cs : List Char) : Except Defect (Tag × List Char) := do
  let (bytes, rest) ← scanBytes isChar 0 cs
  if bytes.isEmpty then throw .tag
  return (ofBytes bytes, rest)

/-- Reads a tag behind its first sign and answers its handle, its suffix and what is left. A tag in
full has an empty handle, and so has the lone sign. -/
def read (cs : List Char) : Except Defect (String × Tag × List Char) := do
  match cs with
  | '<' :: full =>
    match ← scan isFullChar full with
    | (tag, '>' :: rest) => return ("", tag, rest)
    | _ => throw .tag
  | _ =>
    match cs.dropWhile isNameChar with
    | '!' :: suffix =>
      let (tag, rest) ← scan isSuffixChar suffix
      return ("!" ++ String.ofList (cs.takeWhile isNameChar) ++ "!", tag, rest)
    | _ =>
      let (bytes, rest) ← scanBytes isSuffixChar 0 cs
      let tag := ofBytes bytes
      return if tag.bytes.isEmpty then ("", sign, rest) else ("!", tag, rest)

end Tag

end Recolor.Yaml
