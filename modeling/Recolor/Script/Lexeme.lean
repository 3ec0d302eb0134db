import Recolor.Script.Token

/-!
# Lexemes

The raw pieces that a script text is cut into. `Lexeme.longest?` finds the longest piece at the
start of a text, with its class and its number of characters; a piece is never empty
(`length_pos_of_longest?`).
-/

set_option autoImplicit false

namespace Recolor

/-- The characters that separate pieces. -/
def isBlank (c : Char) : Bool := c == ' ' || c == '\t' || c == '\r' || c == '\n'

/-- The characters that a name or word can start with. -/
def isNameStart (c : Char) : Bool := c.isAlpha || c == '_'

/-- The characters that a name or word can continue with. -/
def isNameRest (c : Char) : Bool := c.isAlphanum || c == '_'

/-- The classes of pieces. An open string lacks its closing quote. -/
inductive Lexeme where
  | number
  | string
  | openString
  | scalar
  | vector
  | word
  | symbol (s : Symbol)
deriving DecidableEq, Repr

namespace Lexeme

/-- The spellings of the signs, those of two characters before those of one. -/
def spellings : List (List Char × Symbol) :=
  [(['>', '='], .ge), (['<', '='], .le), (['<', '>'], .ne), (['=', '='], .eq), (['!', '='], .ne),
    (['.', '.'], .dotDot), (['+', '-'], .plusMinus), (['+', '='], .addAssign),
    (['-', '='], .subAssign), (['*', '='], .mulAssign), (['/', '='], .divAssign), (['>'], .gt),
    (['<'], .lt), (['&'], .and), (['|'], .or), (['^'], .xor), (['~'], .tilde), (['+'], .plus),
    (['-'], .minus), (['*'], .star), (['/'], .slash), (['%'], .percent), (['('], .leftParen),
    ([')'], .rightParen), (['['], .leftBracket), ([']'], .rightBracket), ([':'], .colon),
    ([';'], .semicolon), ([','], .comma), (['.'], .dot), (['='], .assign)]

/-- The number of digits at the start of a text. -/
def digitCount (cs : List Char) : Nat := (cs.takeWhile Char.isDigit).length

/-- The length of a point with digits behind it at the start of a text, or zero. -/
def fractionLength : List Char → Nat
  | '.' :: cs => if digitCount cs = 0 then 0 else digitCount cs + 1
  | _ => 0

/-- The length of the number at the start of a text, or zero. -/
def numberLength (cs : List Char) : Nat :=
  digitCount cs + fractionLength (cs.drop (digitCount cs))

/-- The length of the name at the start of a text, or zero. -/
def nameLength : List Char → Nat
  | [] => 0
  | c :: cs => if isNameStart c then (cs.takeWhile isNameRest).length + 1 else 0

/-- The length of the content of a string literal: characters of its line other than the quote,
and pairs of a backslash with a character of its line. -/
def contentLength (quote : Char) : List Char → Nat
  | [] => 0
  | [c] => if c = quote ∨ c = '\\' ∨ c = '\n' then 0 else 1
  | c :: d :: cs =>
    if c = '\\' then if d = '\n' then 0 else contentLength quote cs + 2
    else if c = quote ∨ c = '\n' then 0
    else contentLength quote (d :: cs) + 1

/-- The string literal at the start of a text whose opening quote has been read. -/
def stringAfter (quote : Char) (cs : List Char) : Lexeme × Nat :=
  let n := contentLength quote cs
  if (cs.drop n).head? = some quote then (.string, n + 2) else (.openString, n + 1)

/-- The variable at the start of a text whose dollar sign has been read. -/
def variableAfter? (cs : List Char) : Option (Lexeme × Nat) :=
  match cs with
  | [] => none
  | c :: rest =>
    if c = '$' then
      if nameLength rest = 0 then none else some (.vector, nameLength rest + 2)
    else if nameLength cs = 0 then none
    else some (.scalar, nameLength cs + 1)

/-- The sign at the start of a text. -/
def symbol? (cs : List Char) : Option (Lexeme × Nat) :=
  (spellings.find? fun (spelling, _) => spelling.isPrefixOf cs).map fun (spelling, s) =>
    (.symbol s, spelling.length)

/-- The longest piece at the start of a text. -/
def longest? : List Char → Option (Lexeme × Nat)
  | [] => none
  | c :: cs =>
    if isNameStart c then some (.word, nameLength (c :: cs))
    else if c = '\'' ∨ c = '"' then some (stringAfter c cs)
    else if c = '$' then variableAfter? cs
    else if numberLength (c :: cs) ≠ 0 then some (.number, numberLength (c :: cs))
    else symbol? (c :: cs)

/-- No sign is spelled with no character. -/
theorem spelling_ne_nil {spelling : List Char} {s : Symbol} (h : (spelling, s) ∈ spellings) :
    0 < spelling.length := by
  have every : ∀ entry ∈ spellings, 0 < entry.1.length := by decide
  exact every _ h

/-- A piece is never empty. -/
theorem length_pos_of_longest? {cs : List Char} {piece : Lexeme} {n : Nat}
    (h : longest? cs = some (piece, n)) : 0 < n := by
  cases cs with
  | nil => cases h
  | cons c cs =>
    rw [longest?] at h
    split at h
    · rename_i start
      cases h
      simp [nameLength, start]
    · split at h
      · unfold stringAfter at h
        dsimp only at h
        split at h <;> cases h <;> omega
      · split at h
        · unfold variableAfter? at h
          split at h
          · cases h
          · split at h <;> split at h <;> cases h <;> omega
        · split at h
          · cases h
            omega
          · unfold symbol? at h
            obtain ⟨⟨spelling, s⟩, found, same⟩ := Option.map_eq_some_iff.1 h
            cases same
            exact spelling_ne_nil (List.mem_of_find?_eq_some found)

end Lexeme

end Recolor
