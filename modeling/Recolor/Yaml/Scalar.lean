import Recolor.Yaml.Place

/-!
# Scalars of a YAML text

Text in a YAML document is plain, in quotes, or an indented block. Within plain and quoted text a
`Gap` of blanks and ends of lines is folded: a single line feed becomes a space, and of several all
but the first stay. Each function reads its kind of text from the front of a list of characters and
answers it with what is left.
-/

set_option autoImplicit false

namespace Recolor.Yaml

/-- How a text is written: plain, in quotes, or as a block whose lines stay or are folded. -/
inductive Style where
  | plain
  | quoted
  | literal
  | folded
deriving DecidableEq, Repr

/-- Blanks and ends of lines between two words. Blanks count until the first line ends. `joined`
tells that the first line ended with a backslash. -/
structure Gap where
  blanks : List Char := []
  breaks : List Char := []
  joined : Bool := false

namespace Gap

/-- The gap spans more than one line. -/
def broken (g : Gap) : Bool := g.joined || !g.breaks.isEmpty

/-- There is no gap. -/
def isEmpty (g : Gap) : Bool := !g.broken && g.blanks.isEmpty

/-- The gap with a blank more. -/
def addBlank (g : Gap) (c : Char) : Gap :=
  if g.broken then g else { g with blanks := g.blanks ++ [c] }

/-- The gap with the end of a line more. -/
def addBreak (g : Gap) (c : Char) : Gap := { g with blanks := [], breaks := g.breaks ++ [c] }

/-- What stands for the gap in the text. -/
def text (g : Gap) : List Char :=
  if g.joined then g.breaks
  else
    match g.breaks with
    | [] => g.blanks
    | ['\n'] => [' ']
    | '\n' :: more => more
    | breaks => breaks

end Gap

/-- The signs that end plain text within brackets. -/
def isFlowSign (c : Char) : Bool := c == ',' || c == '[' || c == ']' || c == '\x7b' || c == '\x7d'

/-- Text that has been read, what is left behind it, and whether a line ended in between. -/
structure Reading where
  text : List Char
  rest : List Char
  broken : Bool := false

/-- The reading with characters in front. -/
def Reading.cons (front : List Char) (r : Reading) : Reading := { r with text := front ++ r.text }

/-- Plain text ends at this place, where a word starts behind a gap. -/
def stopsPlain (flow : Bool) (indent column : Nat) (cs : List Char) : Bool :=
  (!flow && decide (column < indent)) || cs.head? == some '#' || (column == 0 && isSeparator cs)

/-- Plain text ends at this place within a word: at a colon that a word ends behind, and within
brackets at the signs of these. A colon that touches such a sign is refused. -/
def endsPlain (flow : Bool) (c : Char) (cs : List Char) : Except Defect Bool :=
  if c = ':' then
    if endsWord cs then .ok true
    else if flow && cs.head?.any (fun d => isFlowSign d || d == '?') then
      .error (.misplaced ":")
    else .ok false
  else .ok (flow && isFlowSign c)

/-- Reads plain text from a column on, behind a gap. Lines after the first are indented by at least
`indent`, unless the text stands within brackets. -/
def plain (flow : Bool) (indent : Nat) (column : Nat) (gap : Gap) :
    List Char → Except Defect Reading
  | [] => .ok ⟨[], [], gap.broken⟩
  | c :: cs =>
    if isBreak c then plain flow indent 0 (gap.addBreak c) cs
    else if isBlank c then
      if gap.broken && decide (column < indent) && c == '\t' then .error .tabInIndentation
      else plain flow indent (column + 1) (gap.addBlank c) cs
    else if !gap.isEmpty && stopsPlain flow indent column (c :: cs) then
      .ok ⟨[], c :: cs, gap.broken⟩
    else
      match endsPlain flow c cs with
      | .error e => .error e
      | .ok true => .ok ⟨[], c :: cs, gap.broken⟩
      | .ok false =>
        (plain flow indent (column + 1) {} cs).map (·.cons (gap.text ++ [c]))

/-- Reads text in single quotes behind the first quote; a quote is written twice. -/
def singleQuoted (column : Nat) (gap : Gap) : List Char → Except Defect Reading
  | [] => .error .unclosedQuote
  | '\'' :: '\'' :: cs => (singleQuoted (column + 2) {} cs).map (·.cons (gap.text ++ ['\'']))
  | c :: cs =>
    if c = '\'' then .ok ⟨gap.text, cs, false⟩
    else if isBreak c then singleQuoted 0 (gap.addBreak c) cs
    else if isBlank c then singleQuoted (column + 1) (gap.addBlank c) cs
    else if column = 0 ∧ isSeparator (c :: cs) = true then .error .unclosedQuote
    else (singleQuoted (column + 1) {} cs).map (·.cons (gap.text ++ [c]))

/-- The character that a letter behind a backslash stands for. -/
def escaped? (c : Char) : Option Char :=
  [('0', '\x00'), ('a', '\x07'), ('b', '\x08'), ('t', '\t'), ('\t', '\t'), ('n', '\n'),
    ('v', '\x0b'), ('f', '\x0c'), ('r', '\r'), ('e', '\x1b'), (' ', ' '), ('"', '"'), ('/', '/'),
    ('\\', '\\'), ('N', '\u0085'), ('_', '\u00a0'), ('L', '\u2028'), ('P', '\u2029')].lookup c

/-- The number of digits of the character code that a letter behind a backslash announces. -/
def codeLength? (c : Char) : Option Nat := [('x', 2), ('u', 4), ('U', 8)].lookup c

/-- The character of a code. -/
def charOfCode? (n : Nat) : Option Char :=
  if n.isValidChar then some (Char.ofNat n) else none

/-- Where reading stands in text in double quotes: behind a gap, behind a backslash, or within a
character code of which some digits are missing. -/
inductive QuoteState where
  | text (gap : Gap)
  | escape
  | code (missing value : Nat)

/-- Reads text in double quotes behind the first quote. -/
def doubleQuoted (column : Nat) : QuoteState → List Char → Except Defect Reading
  | _, [] => .error .unclosedQuote
  | .text gap, c :: cs =>
    if c = '"' then .ok ⟨gap.text, cs, false⟩
    else if isBreak c then doubleQuoted 0 (.text (gap.addBreak c)) cs
    else if isBlank c then doubleQuoted (column + 1) (.text (gap.addBlank c)) cs
    else if column = 0 ∧ isSeparator (c :: cs) = true then .error .unclosedQuote
    else if c = '\\' then (doubleQuoted (column + 1) .escape cs).map (·.cons gap.text)
    else (doubleQuoted (column + 1) (.text {}) cs).map (·.cons (gap.text ++ [c]))
  | .escape, c :: cs =>
    if isBreak c then doubleQuoted 0 (.text { joined := true }) cs
    else
      match codeLength? c, escaped? c with
      | some n, _ => doubleQuoted (column + 1) (.code n 0) cs
      | none, some d => (doubleQuoted (column + 1) (.text {}) cs).map (·.cons [d])
      | none, none => .error .escape
  | .code missing value, c :: cs =>
    match hexDigit? c with
    | none => .error .escape
    | some digit =>
      let value := 16 * value + digit
      if 1 < missing then doubleQuoted (column + 1) (.code (missing - 1) value) cs
      else
        match charOfCode? value with
        | none => .error .escape
        | some d => (doubleQuoted (column + 1) (.text {}) cs).map (·.cons [d])

/-- What happens to the ends of lines behind the last word of a block: none stays, the first stays,
or all stay. -/
inductive Chomping where
  | strip
  | clip
  | keep
deriving DecidableEq, Repr

/-- The first line of a block of text. -/
structure BlockHeader where
  folded : Bool
  chomping : Chomping := .clip
  indentation : Option Nat := none

namespace BlockHeader

/-- The sign for the ends of lines. -/
def chomping? (c : Char) : Option Chomping :=
  if c = '+' then some .keep else if c = '-' then some .strip else none

/-- The digit for the indentation, which is not zero. -/
def digit? (c : Char) : Option Nat :=
  if c.isDigit && c != '0' then some (c.toNat - '0'.toNat) else none

/-- Reads the signs behind `|` or `>`, in either order. -/
def signs (folded : Bool) : List Char → BlockHeader × List Char
  | c :: d :: cs =>
    match chomping? c, digit? c, chomping? d, digit? d with
    | some k, _, _, some n => (⟨folded, k, some n⟩, cs)
    | _, some n, some k, _ => (⟨folded, k, some n⟩, cs)
    | some k, _, _, _ => (⟨folded, k, none⟩, d :: cs)
    | _, some n, _, _ => (⟨folded, .clip, some n⟩, d :: cs)
    | _, _, _, _ => (⟨folded, .clip, none⟩, c :: d :: cs)
  | [c] =>
    match chomping? c, digit? c with
    | some k, _ => (⟨folded, k, none⟩, [])
    | _, some n => (⟨folded, .clip, some n⟩, [])
    | _, _ => (⟨folded, .clip, none⟩, [c])
  | [] => (⟨folded, .clip, none⟩, [])

/-- The deepest column reached by the blank lines at the start of a block and by its first word. -/
def deepest (column most : Nat) : List Char → Except Defect Nat
  | [] => .ok (max column most)
  | c :: cs =>
    if c = ' ' then deepest (column + 1) most cs
    else if c = '\t' then .error .tabInIndentation
    else if isBreak c then deepest 0 (max column most) cs
    else .ok (max column most)

/-- The indentation of a block within a collection whose items stand at column `parent`, or at the
top of the document. -/
def indent (h : BlockHeader) (parent : Option Nat) (cs : List Char) : Except Defect Nat :=
  match h.indentation with
  | some n => .ok (parent.getD 0 + n)
  | none => (deepest 0 0 cs).map fun most => max most ((parent.getD 0) + 1)

end BlockHeader

/-- Where reading stands in a block: the end of the last line, the ends of empty lines behind it,
and whether that line started with a blank. -/
structure BlockState where
  lastBreak : List Char := []
  emptyLines : List Char := []
  blankStart : Bool := false

/-- What stands in the text for the ends of lines in front of a line that starts with `c`. In a
folded block they are folded between lines that do not start with blanks. -/
def BlockState.between (s : BlockState) (folded : Bool) (c : Char) : List Char :=
  if folded && s.lastBreak == ['\n'] && !s.blankStart && !isBlank c then
    if s.emptyLines.isEmpty then [' '] else s.emptyLines
  else s.lastBreak ++ s.emptyLines

/-- What stands in the text for the ends of lines behind the last line. -/
def BlockState.final (s : BlockState) : Chomping → List Char
  | .strip => []
  | .clip => s.lastBreak
  | .keep => s.lastBreak ++ s.emptyLines

/-- Reads a block behind its first line. `column` is absent within a line's text. -/
def blockText (h : BlockHeader) (indent : Nat) (column : Option Nat) (s : BlockState) :
    List Char → Except Defect Reading
  | [] => .ok ⟨s.final h.chomping, [], true⟩
  | c :: cs =>
    match column with
    | none =>
      if isBreak c then
        blockText h indent (some 0) { s with lastBreak := [c], emptyLines := [] } cs
      else (blockText h indent none s cs).map (·.cons [c])
    | some column =>
      if isBreak c then
        blockText h indent (some 0) { s with emptyLines := s.emptyLines ++ [c] } cs
      else if column < indent then
        if c = ' ' then blockText h indent (some (column + 1)) s cs
        else if c = '\t' then .error .tabInIndentation
        else .ok ⟨s.final h.chomping, c :: cs, true⟩
      else
        (blockText h indent none { blankStart := isBlank c } cs).map
          (·.cons (s.between h.folded c ++ [c]))

/-- Reads a block of text behind `|` or `>`. -/
def block (folded : Bool) (parent : Option Nat) (cs : List Char) : Except Defect Reading := do
  let (header, rest) := BlockHeader.signs folded cs
  match endOfLine? rest with
  | none => throw .blockHeader
  | some rest =>
    let indent ← header.indent parent rest
    blockText header indent (some 0) {} rest

end Recolor.Yaml
