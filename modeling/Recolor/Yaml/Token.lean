import Recolor.Yaml.Directive
import Recolor.Yaml.Scalar

/-!
# Tokens of a YAML text

The signs and texts of a document, with tokens that open and close the collections that are told by
indentation alone. That a text is a key is known only when the colon behind it is found. Therefore a
`Piece` marks each place at which a key may have begun, and a colon turns the mark into the tokens
for the key.
-/

set_option autoImplicit false

namespace Recolor.Yaml

/-- What a document is made of. -/
inductive Token where
  | directive (d : Directive)
  | documentStart
  | documentEnd
  | blockSequence
  | blockMapping
  | blockEnd
  | flowSequence
  | flowSequenceEnd
  | flowMapping
  | flowMappingEnd
  | blockEntry
  | flowEntry
  | key
  | value
  | alias (name : String)
  | anchor (name : String)
  | tag (handle : String) (suffix : Tag)
  | scalar (style : Style) (text : String)
deriving DecidableEq, Repr

/-- A token, or the mark of a place at which a key may have begun. -/
inductive Piece where
  | token (t : Token)
  | mark (id : Nat)

/-- A place at which a key may have begun. It is `required` where nothing but a key can stand. -/
structure KeyPlace where
  id : Nat
  index : Nat
  line : Nat
  column : Nat
  required : Bool

/-- The greatest number of characters of a key with its indicators. -/
def longestKey : Nat := 1024

/-- Where the search for tokens stands: the place in the text, the columns of the open block
collections and the possible keys of the open flow collections, both the innermost first, and the
pieces so far, the last first. -/
structure Scan where
  place : Place
  columns : List Nat := []
  keyAllowed : Bool := true
  possibleKey : Option KeyPlace := none
  outerKeys : List (Option KeyPlace) := []
  pieces : List Piece := []
  marks : Nat := 0

namespace Scan

/-- The place lies within brackets. -/
def inFlow (s : Scan) : Bool := !s.outerKeys.isEmpty

/-- The column of the innermost block collection is less than the given one. -/
def isIndented (s : Scan) (column : Nat) : Bool := s.columns.head?.all (· < column)

/-- Adds a token. -/
def push (s : Scan) (t : Token) : Scan := { s with pieces := .token t :: s.pieces }

/-- Goes to a later place. -/
def goto (s : Scan) (place : Place) : Scan := { s with place := place }

/-- Adds a token of `n` characters. -/
def pushSign (s : Scan) (t : Token) (n : Nat) : Scan := (s.push t).goto (s.place.advance n)

/-- The block collections that stand further right than `column` are closed. -/
def closeBlocks (s : Scan) (isRight : Nat → Bool) : Scan :=
  if s.inFlow then s
  else
    { s with
      columns := s.columns.dropWhile isRight
      pieces := (s.columns.takeWhile isRight).map (fun _ => .token .blockEnd) ++ s.pieces }

/-- Opens a block collection at this column, unless the place lies in it already. -/
def openBlock (s : Scan) (t : Token) : Scan :=
  if !s.inFlow && s.isIndented s.place.column then
    { s.push t with columns := s.place.column :: s.columns }
  else s

/-- No key can have begun before this place any more. -/
def dropKey (s : Scan) : Except Defect Scan :=
  if s.possibleKey.any (·.required) then .error .missingColon
  else .ok { s with possibleKey := none }

/-- Marks this place as one at which a key may begin, if one may. -/
def markKey (s : Scan) : Except Defect Scan :=
  if s.keyAllowed then do
    let s ← s.dropKey
    let required := !s.inFlow && s.columns.head? == some s.place.column
    return { s with
      possibleKey := some ⟨s.marks, s.place.index, s.place.line, s.place.column, required⟩
      pieces := .mark s.marks :: s.pieces
      marks := s.marks + 1 }
  else .ok s

/-- Adds a token that starts a key or a value. -/
def pushContent (s : Scan) (t : Token) (place : Place) : Except Defect Scan := do
  let s ← s.markKey
  return { (s.push t).goto place with keyAllowed := false }

/-- Turns a mark into tokens, the last first. -/
def resolve (s : Scan) (id : Nat) (tokens : List Piece) : Scan :=
  { s with
    pieces := s.pieces.flatMap fun
      | .mark other => if other = id then tokens else [.mark other]
      | piece => [piece] }

/-- The possible key, if it stands on this line and not too far away. -/
def keyAtHand (s : Scan) : Except Defect (Option KeyPlace) :=
  match s.possibleKey with
  | none => .ok none
  | some k =>
    if k.line = s.place.line ∧ s.place.index ≤ k.index + longestKey then .ok (some k)
    else if k.required then .error .missingColon
    else .ok none

/-- Makes a key of what stands behind its mark. -/
def acceptKey (s : Scan) (k : KeyPlace) : Scan :=
  let opens := !s.inFlow && s.isIndented k.column
  let s := s.resolve k.id (.token .key :: if opens then [.token .blockMapping] else [])
  { s with
    columns := if opens then k.column :: s.columns else s.columns
    possibleKey := none
    keyAllowed := false }

/-- A colon. Without a possible key in front of it, it belongs to a key behind a question mark or to
an empty one. -/
def colon (s : Scan) : Except Defect Scan := do
  match ← s.keyAtHand with
  | some k => return (s.acceptKey k).pushSign .value 1
  | none =>
    if !s.inFlow && !s.keyAllowed then throw (.misplaced ":")
    let s := s.openBlock .blockMapping
    return { s.pushSign .value 1 with possibleKey := none, keyAllowed := !s.inFlow }

/-- A question mark in front of a key. -/
def question (s : Scan) : Except Defect Scan := do
  if !s.inFlow && !s.keyAllowed then throw (.misplaced "?")
  let s ← (s.openBlock .blockMapping).dropKey
  return { s.pushSign .key 1 with keyAllowed := !s.inFlow }

/-- A dash in front of an item. -/
def dash (s : Scan) : Except Defect Scan := do
  if !s.inFlow && !s.keyAllowed then throw (.misplaced "-")
  let s ← (s.openBlock .blockSequence).dropKey
  return { s.pushSign .blockEntry 1 with keyAllowed := true }

/-- An opening bracket. -/
def openFlow (s : Scan) (t : Token) : Except Defect Scan := do
  let s ← s.markKey
  return { s.pushSign t 1 with
    outerKeys := s.possibleKey :: s.outerKeys
    possibleKey := none
    keyAllowed := true }

/-- A closing bracket. -/
def closeFlow (s : Scan) (t : Token) : Except Defect Scan := do
  let s ← s.dropKey
  let s := { s.pushSign t 1 with keyAllowed := false }
  match s.outerKeys with
  | [] => return s
  | k :: outer => return { s with possibleKey := k, outerKeys := outer }

/-- A comma. -/
def comma (s : Scan) : Except Defect Scan := do
  let s ← s.dropKey
  return { s.pushSign .flowEntry 1 with keyAllowed := true }

/-- A line that separates documents. -/
def separator (s : Scan) (t : Token) : Except Defect Scan := do
  let s ← (s.closeBlocks fun _ => true).dropKey
  return { s.pushSign t 3 with keyAllowed := false }

/-- A directive, given what stands behind its percent sign. It takes up its line. -/
def directive (s : Scan) (behind : List Char) : Except Defect Scan := do
  let s ← (s.closeBlocks fun _ => true).dropKey
  let (d, rest) ← Directive.read behind
  return { (s.push (.directive d)).goto (s.place.leaving rest) with keyAllowed := false }

/-- The signs that a name may touch. -/
def endsName : List Char → Bool
  | c :: cs => endsWord (c :: cs) || "?:,]\x7d%@\x60".toList.contains c
  | [] => true

/-- A name behind `&` or `*`. -/
def named (s : Scan) (token : String → Token) (behind : List Char) : Except Defect Scan :=
  let name := behind.takeWhile isNameChar
  let rest := behind.dropWhile isNameChar
  if name.isEmpty || !endsName rest then .error .emptyName
  else s.pushContent (token (String.ofList name)) (s.place.leaving rest)

/-- A tag, given what stands behind its first sign. -/
def tagged (s : Scan) (behind : List Char) : Except Defect Scan := do
  let (handle, suffix, rest) ← Tag.read behind
  if endsWord rest || (s.inFlow && rest.head? == some ',') then
    s.pushContent (.tag handle suffix) (s.place.leaving rest)
  else throw .tag

/-- A block of text, given what stands behind its first sign. -/
def blockScalar (s : Scan) (folded : Bool) (behind : List Char) : Except Defect Scan := do
  let s ← s.dropKey
  let r ← block folded s.columns.head? behind
  let s := s.push (.scalar (if folded then .folded else .literal) (String.ofList r.text))
  return { s.goto (s.place.leaving r.rest) with keyAllowed := true }

/-- Quoted text, given its reading. -/
def quotedScalar (s : Scan) (r : Except Defect Reading) : Except Defect Scan := do
  let r ← r
  s.pushContent (.scalar .quoted (String.ofList r.text)) (s.place.leaving r.rest)

/-- Plain text. -/
def plainScalar (s : Scan) : Except Defect Scan := do
  let indent := (s.columns.head?.map (· + 1)).getD 0
  let r ← plain s.inFlow indent s.place.column {} s.place.rest
  let s ← s.pushContent (.scalar .plain (String.ofList r.text)) (s.place.leaving r.rest)
  return { s with keyAllowed := s.keyAllowed || r.broken }

/-- The signs that plain text cannot start with. -/
def isIndicator (c : Char) : Bool := "-?:,[]\x7b\x7d#&*!|>'\"%@\x60".toList.contains c

/-- Plain text can start here. -/
def startsPlain (s : Scan) (c : Char) (cs : List Char) : Bool :=
  (!isIndicator c && !isBlank c) || (c == '-' && !cs.head?.any isBlank)
    || (!s.inFlow && (c == '?' || c == ':') && !endsWord cs)

/-- The token that starts with the character `c`, which `cs` follows. -/
def token (s : Scan) (c : Char) (cs : List Char) : Except Defect Scan :=
  if s.place.column = 0 ∧ c = '%' then s.directive cs
  else if s.place.column = 0 ∧ isSeparator (c :: cs) = true then
    s.separator (if c = '-' then .documentStart else .documentEnd)
  else if c = '[' then s.openFlow .flowSequence
  else if c = '\x7b' then s.openFlow .flowMapping
  else if c = ']' then s.closeFlow .flowSequenceEnd
  else if c = '\x7d' then s.closeFlow .flowMappingEnd
  else if c = ',' then s.comma
  else if c = '-' ∧ endsWord cs = true then s.dash
  else if c = '?' ∧ (s.inFlow || endsWord cs) = true then s.question
  else if c = ':' ∧ (s.inFlow || endsWord cs) = true then s.colon
  else if c = '*' then s.named .alias cs
  else if c = '&' then s.named .anchor cs
  else if c = '!' then s.tagged cs
  else if (c = '|' ∨ c = '>') ∧ s.inFlow = false then s.blockScalar (c == '>') cs
  else if c = '\'' then s.quotedScalar (singleQuoted (s.place.column + 1) {} cs)
  else if c = '"' then s.quotedScalar (doubleQuoted (s.place.column + 1) (.text {}) cs)
  else if s.startsPlain c cs then s.plainScalar
  else .error (.misplaced (String.singleton c))

/-- Where a gap between tokens is: at the start of a line, behind it, or in a comment. -/
inductive GapPlace where
  | lineStart
  | line
  | comment
deriving DecidableEq

/-- Skips blanks, ends of lines and comments, and answers what is left and whether a key may begin
there. The end of a line allows a key, tabs are skipped only where none may begin, and a line can
start with a byte order mark, which takes up a column. -/
def skipGap (flow keyAllowed : Bool) (gap : GapPlace) : List Char → List Char × Bool
  | [] => ([], keyAllowed)
  | c :: cs =>
    if isBreak c then skipGap flow (keyAllowed || !flow) .lineStart cs
    else if gap = .comment then skipGap flow keyAllowed .comment cs
    else if c == ' ' || (c == '\t' && (flow || !keyAllowed)) then
      skipGap flow keyAllowed .line cs
    else if c = '\ufeff' ∧ gap = .lineStart then skipGap flow keyAllowed .line cs
    else if c = '#' then skipGap flow keyAllowed .comment cs
    else (c :: cs, keyAllowed)

/-- Goes to the next token, and closes the block collections that it does not belong to. -/
def toNextToken (s : Scan) : Scan :=
  let gap := if s.place.column = 0 then GapPlace.lineStart else .line
  let (rest, keyAllowed) := skipGap s.inFlow s.keyAllowed gap s.place.rest
  let s := { s.goto (s.place.leaving rest) with keyAllowed := keyAllowed }
  s.closeBlocks (s.place.column < ·)

/-- The tokens in their order, when the text is at its end. -/
def finish (s : Scan) : Except Defect (List Token) := do
  let s ← (s.closeBlocks fun _ => true).dropKey
  return s.pieces.reverse.filterMap fun
    | .token t => some t
    | .mark _ => none

/-- The tokens from this place on, of which there are at most `fuel`. -/
def run : Nat → Scan → Except Defect (List Token)
  | 0, s => s.toNextToken.finish
  | fuel + 1, s => do
    let s := s.toNextToken
    match s.place.rest with
    | [] => s.finish
    | c :: cs =>
      let s ← s.token c cs
      run fuel s

end Scan

/-- The tokens of a text. Each takes up at least one character. -/
def tokensOf (text : String) : Except Defect (List Token) := do
  let place ← Place.start text
  Scan.run place.rest.length { place := place }

end Recolor.Yaml
