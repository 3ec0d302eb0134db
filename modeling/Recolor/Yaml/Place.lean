/-!
# Characters and places of a YAML text

The text is read from a `Place`, which knows how far into the text it lies: block structure is told
by columns. Ends of lines of all sorts are made line feeds beforehand, apart from the line and the
paragraph separator, which stand for themselves.
-/

set_option autoImplicit false

namespace Recolor.Yaml

/-- What is wrong with a text that is no YAML document. -/
inductive Defect where
  | character (c : Char)
  | directive
  | unclosedQuote
  | escape
  | emptyName
  | tag
  | blockHeader
  | tabInIndentation
  | missingColon
  | misplaced (sign : String)
  | missingContent
  | unclosedCollection
  | unknownAnchor (name : String)
  | severalDocuments
deriving DecidableEq, Repr

/-- The wording of a defect. -/
def Defect.text : Defect → String
  | .character c => "character " ++ toString c.toNat ++ " cannot stand here"
  | .directive => "malformed directive"
  | .unclosedQuote => "quoted text is not closed"
  | .escape => "unknown escape"
  | .emptyName => "malformed anchor"
  | .tag => "malformed tag"
  | .blockHeader => "malformed header of a block of text"
  | .tabInIndentation => "tab in indentation"
  | .missingColon => "key without a colon"
  | .misplaced sign => sign ++ " cannot stand here"
  | .missingContent => "content is missing"
  | .unclosedCollection => "collection is not closed"
  | .unknownAnchor name => "unknown anchor " ++ name
  | .severalDocuments => "more than one document"

/-- The characters that end a line. -/
def isBreak (c : Char) : Bool := c == '\n' || c == '\u2028' || c == '\u2029'

/-- The characters that separate words within a line. -/
def isBlank (c : Char) : Bool := c == ' ' || c == '\t'

/-- A blank, the end of a line or that of the text comes next. -/
def endsWord : List Char → Bool
  | [] => true
  | c :: _ => isBlank c || isBreak c

/-- A line that starts like this separates documents. -/
def isSeparator : List Char → Bool
  | '-' :: '-' :: '-' :: rest => endsWord rest
  | '.' :: '.' :: '.' :: rest => endsWord rest
  | _ => false

/-- The characters of names of anchors and directives. -/
def isNameChar (c : Char) : Bool := c.isAlphanum || c == '_' || c == '-'

/-- The characters that a text can hold. -/
def isAllowed (c : Char) : Bool :=
  c == '\t' || c == '\n' || c == '\r' || c == '\u0085' ||
    (' ' ≤ c && c ≤ '~') || ('\u00a0' ≤ c && c != '\ufffe' && c != '\uffff')

/-- Makes the ends of lines line feeds. -/
def unifyBreaks : List Char → List Char
  | [] => []
  | '\r' :: '\n' :: rest => '\n' :: unifyBreaks rest
  | c :: rest => (if c = '\r' ∨ c = '\u0085' then '\n' else c) :: unifyBreaks rest

/-- What is left behind the end of the line, if only blanks and a comment stand before it. -/
def endOfLine? (cs : List Char) : Option (List Char) :=
  let cs := cs.dropWhile isBlank
  let cs := if cs.head? == some '#' then cs.dropWhile (!isBreak ·) else cs
  match cs with
  | [] => some []
  | c :: rest => if isBreak c then some rest else none

/-- The value of a hexadecimal digit. -/
def hexDigit? (c : Char) : Option Nat :=
  if c.isDigit then some (c.toNat - '0'.toNat)
  else if 'a' ≤ c ∧ c ≤ 'f' then some (c.toNat - 'a'.toNat + 10)
  else if 'A' ≤ c ∧ c ≤ 'F' then some (c.toNat - 'A'.toNat + 10)
  else none

/-- What is left of a text at some place, how many characters stand before it, and its line and
column counted from zero. -/
structure Place where
  rest : List Char
  index : Nat := 0
  line : Nat := 0
  column : Nat := 0

namespace Place

/-- The place behind the next character. -/
def next (p : Place) : Place :=
  match p.rest with
  | [] => p
  | c :: rest =>
    if isBreak c then ⟨rest, p.index + 1, p.line + 1, 0⟩
    else ⟨rest, p.index + 1, p.line, p.column + 1⟩

/-- The place behind the next `n` characters. -/
def advance (p : Place) : Nat → Place
  | 0 => p
  | n + 1 => p.next.advance n

/-- The place at which `rest` is left. -/
def leaving (p : Place) (rest : List Char) : Place := p.advance (p.rest.length - rest.length)

/-- The start of a text, if it holds none but allowed characters. -/
def start (text : String) : Except Defect Place :=
  match text.toList.find? (!isAllowed ·) with
  | some c => .error (.character c)
  | none => .ok { rest := unifyBreaks text.toList }

end Place

end Recolor.Yaml
