import Recolor.Fault
import Recolor.Script.Diagnostic
import Recolor.Script.Lexeme

/-!
# Cutting a script into tokens

A `Cursor` stands at a place in a script and yields one item after another: a token, or a
diagnostic for a piece that is none. Each item is the longest piece at its place; a character with
which no piece starts is an item of its own. `tokenize` collects the items of a whole script,
`tokenizeStrict` stops at the first diagnostic.
-/

set_option autoImplicit false

namespace Recolor

/-- A token, or what is wrong with a piece that is none. -/
abbrev ScriptItem := Except Diagnostic Token

namespace Lexeme

/-- The number that decimal digits write. -/
def naturalOfDigits (digits : List Char) : Nat :=
  digits.foldl (fun n c => 10 * n + (c.toNat - '0'.toNat)) 0

/-- The number nearest to a decimal literal. -/
def numberOfLiteral (text : List Char) : Number :=
  let whole := text.takeWhile Char.isDigit
  let fraction := (text.dropWhile Char.isDigit).drop 1
  Number.ofDecimal (naturalOfDigits (whole ++ fraction)) fraction.length

/-- The character that a backslash with a letter behind it stands for. -/
def escaped (c : Char) : Char :=
  if c = 'n' then '\n' else if c = 't' then '\t' else c

/-- The content of a string literal without its quotes, escapes resolved. -/
def unescape : List Char → List Char
  | [] => []
  | [c] => if c = '\\' then [] else [c]
  | c :: d :: cs => if c = '\\' then escaped d :: unescape cs else c :: unescape (d :: cs)

/-- The kind of a word: a reserved word, else a colour space, else a constant, in any case. -/
def wordKind? (word : String) : Option TokenKind :=
  match Keyword.ofText? word with
  | some k => some (.keyword k)
  | none =>
    if spaceWords.contains word then some (.space word)
    else if word = "true" then some (.boolean true)
    else if word = "false" then some (.boolean false)
    else if word = "none" then some .none
    else none

/-- The remark on a character that starts no piece. -/
def illegalCharacter (text : List Char) (span : Span) : Diagnostic where
  severity := .error
  code := "colormap::lex::illegal-character"
  message := "Illegal character '" ++ String.ofList text ++ "'"
  span := span

/-- The remark on a string without its closing quote. -/
def malformedString (text : List Char) (span : Span) : Diagnostic where
  severity := .error
  code := "colormap::lex::malformed-string"
  message := "Malformed string literal: " ++ String.ofList text
  span := span
  help := some "Close the string with its opening quote on the same line"

/-- The remark on a word that has no meaning. -/
def unknownWord (text : List Char) (span : Span) : Diagnostic where
  severity := .error
  code := "colormap::lex::unknown-word"
  message := "Illegal constant or keyword: " ++ String.ofList text
  span := span
  help := some "Variables are written $name (numbers) or $$name (vectors)"

/-- The item that a piece is. -/
def item (piece : Lexeme) (text : List Char) (span : Span) : ScriptItem :=
  match piece with
  | .number => .ok ⟨.number (numberOfLiteral text), span⟩
  | .string => .ok ⟨.string (String.ofList (unescape (text.drop 1).dropLast)), span⟩
  | .openString => .error (malformedString text span)
  | .scalar => .ok ⟨.variable (.scalar (String.ofList (text.drop 1))), span⟩
  | .vector => .ok ⟨.variable (.vector (String.ofList (text.drop 2))), span⟩
  | .word =>
    match wordKind? (String.ofList (text.map Char.toLower)) with
    | some kind => .ok ⟨kind, span⟩
    | none => .error (unknownWord text span)
  | .symbol s => .ok ⟨.symbol s, span⟩

end Lexeme

/-- A place in a script, with the text behind it. -/
structure Cursor where
  lines : LineIndex
  offset : Nat
  rest : List Char

namespace Cursor

/-- The start of a script. -/
def start (source : String) : Cursor := ⟨LineIndex.ofString source, 0, source.toList⟩

/-- The place `n` characters further on. -/
def advance (c : Cursor) (n : Nat) : Cursor :=
  ⟨c.lines, c.offset + Text.byteLength (c.rest.take n), c.rest.drop n⟩

/-- The place of the next character that is not blank. -/
def skipBlanks (c : Cursor) : Cursor := c.advance (c.rest.takeWhile isBlank).length

/-- The item made of the next `n` characters. -/
def itemOf (c : Cursor) (n : Nat) : Option Lexeme → ScriptItem
  | some piece =>
    piece.item (c.rest.take n) (c.lines.span c.offset (c.advance n).offset)
  | none =>
    .error (Lexeme.illegalCharacter (c.rest.take n)
      (c.lines.span c.offset (c.advance n).offset))

/-- The next item and the place behind it, unless only blanks are left. -/
def next? (c : Cursor) : Option (ScriptItem × Cursor) :=
  let c := c.skipBlanks
  match c.rest with
  | [] => none
  | _ :: _ =>
    match Lexeme.longest? c.rest with
    | some (piece, n) => some (c.itemOf n (some piece), c.advance n)
    | none => some (c.itemOf 1 none, c.advance 1)

/-- Every item consumes text. -/
theorem length_rest_of_next? {c d : Cursor} {i : ScriptItem} (h : c.next? = some (i, d)) :
    d.rest.length < c.rest.length := by
  have skip : c.skipBlanks.rest.length ≤ c.rest.length := by
    simp [skipBlanks, advance]
  unfold next? at h
  dsimp only at h
  split at h
  · cases h
  · rename_i head tail rest
    split at h
    · rename_i piece n longest
      have := Lexeme.length_pos_of_longest? longest
      cases h
      simp only [advance, List.length_drop, rest, List.length_cons] at skip ⊢
      omega
    · cases h
      simp only [advance, List.length_drop, rest, List.length_cons] at skip ⊢
      omega

/-- All items from a place on. -/
def items (c : Cursor) : List ScriptItem :=
  match _h : c.next? with
  | none => []
  | some (i, d) => i :: items d
termination_by c.rest.length
decreasing_by exact length_rest_of_next? ‹_›

end Cursor

/-- The tokens of a script, and the diagnostics of what was skipped. -/
structure Lexed where
  tokens : List Token
  diagnostics : Diagnostics

namespace Lexed

/-- Tokens and diagnostics apart, each in their order. -/
def ofItems : List ScriptItem → Lexed
  | [] => ⟨[], []⟩
  | .ok t :: items => let l := ofItems items; ⟨t :: l.tokens, l.diagnostics⟩
  | .error d :: items => let l := ofItems items; ⟨l.tokens, d :: l.diagnostics⟩

end Lexed

/-- The fault that a diagnostic of the script text is where it must not be skipped. -/
def Diagnostic.fault (d : Diagnostic) : Fault := .lexical d.message d.span.start d.help

/-- The tokens of items, if no diagnostic is among them. -/
def strictTokens : List ScriptItem → Except Fault (List Token)
  | [] => .ok []
  | .ok t :: items => (strictTokens items).map (t :: ·)
  | .error d :: _ => .error d.fault

/-- The items of a script. -/
def scriptItems (source : String) : List ScriptItem := (Cursor.start source).items

/-- The tokens of a script; what is no token is skipped with a diagnostic. -/
def tokenize (source : String) : Lexed := .ofItems (scriptItems source)

/-- The tokens of a script, or the fault of the first piece that is none. -/
def tokenizeStrict (source : String) : Except Fault (List Token) :=
  strictTokens (scriptItems source)

end Recolor
