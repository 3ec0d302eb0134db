/-!
# Places in a script

A `Location` is a byte offset with its line and column, a `Span` the part of a script between two
locations. A `LineIndex` holds the offsets at which lines start and finds the line and the column
of any offset by them.
-/

set_option autoImplicit false

namespace Recolor.Text

/-- The number of bytes of a text in UTF-8. -/
def byteLength : List Char → Nat
  | [] => 0
  | c :: cs => c.utf8Size + byteLength cs

/-- The text behind its first `n` bytes, if that place lies between two characters. -/
def dropBytes? : List Char → Nat → Option (List Char)
  | cs, 0 => some cs
  | [], _ + 1 => none
  | c :: cs, n + 1 => if n + 1 < c.utf8Size then none else dropBytes? cs (n + 1 - c.utf8Size)

/-- The first `n` bytes of a text, if they are whole characters. -/
def takeBytes? : List Char → Nat → Option (List Char)
  | _, 0 => some []
  | [], _ + 1 => none
  | c :: cs, n + 1 =>
    if n + 1 < c.utf8Size then none else (takeBytes? cs (n + 1 - c.utf8Size)).map (c :: ·)

end Recolor.Text

namespace Recolor

/-- A place in a script: a byte offset, and its line and column counted from 1, the column in
characters. -/
structure Location where
  offset : Nat
  line : Nat
  column : Nat
deriving DecidableEq, Repr

namespace Location

/-- The place reported where there is no script text to point into. -/
def nowhere : Location := ⟨0, 0, 0⟩

/-- Line and column with a colon between them. -/
def text (l : Location) : String := toString l.line ++ ":" ++ toString l.column

end Location

/-- The part of a script from `start` up to, and without, `stop`. -/
structure Span where
  start : Location
  stop : Location
deriving DecidableEq, Repr

namespace Span

/-- The length in bytes, zero for a reversed span. -/
def length (s : Span) : Nat := s.stop.offset - s.start.offset

/-- The span covers no byte. -/
def isEmpty (s : Span) : Bool := s.length == 0

/-- The least span that covers both. -/
def merge (a b : Span) : Span where
  start := if a.start.offset ≤ b.start.offset then a.start else b.start
  stop := if b.stop.offset ≤ a.stop.offset then a.stop else b.stop

/-- The two ends with a dash between them; the line is given once if it is the same. -/
def text (s : Span) : String :=
  if s.start.line = s.stop.line then s.start.text ++ "-" ++ toString s.stop.column
  else s.start.text ++ "-" ++ s.stop.text

end Span

/-- A script text with the byte offsets at which its lines start. -/
structure LineIndex where
  text : List Char
  starts : List Nat
deriving DecidableEq, Repr

namespace LineIndex

/-- The offsets just behind the line feeds of a text that begins at `offset`. -/
def startsFrom (offset : Nat) : List Char → List Nat
  | [] => []
  | c :: cs =>
    if c = '\n' then (offset + 1) :: startsFrom (offset + 1) cs
    else startsFrom (offset + c.utf8Size) cs

/-- The index of a text. -/
def ofText (text : List Char) : LineIndex := ⟨text, 0 :: startsFrom 0 text⟩

/-- The index of a script. -/
def ofString (s : String) : LineIndex := ofText s.toList

/-- The number of characters from offset `start` to offset `stop`, or the number of bytes if
`stop` lies inside a character. -/
def distance (index : LineIndex) (start stop : Nat) : Nat :=
  match (Text.dropBytes? index.text start).bind (Text.takeBytes? · (stop - start)) with
  | some cs => cs.length
  | none => stop - start

/-- Line and column of a byte offset. An offset past the end counts as the end. -/
def location (index : LineIndex) (offset : Nat) : Location :=
  let offset := min offset (Text.byteLength index.text)
  let before := index.starts.takeWhile (· ≤ offset)
  ⟨offset, before.length, index.distance (before.getLastD 0) offset + 1⟩

/-- The span between two byte offsets. -/
def span (index : LineIndex) (start stop : Nat) : Span :=
  ⟨index.location start, index.location stop⟩

end LineIndex

end Recolor
