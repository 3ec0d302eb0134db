import Recolor.Proofs.Spelling

/-!
# The texts of tokens can be read back

`TokenKind.text` shows a token in messages. For every kind but numbers this text is also how the
token is written in a script (`TokenKind.Legible.spells`): signs and words are found in the tables
of the lexer, and a quoted string is one of its literals as long as all characters are printable
ASCII ones, since nothing but quotes and backslashes has to be escaped then
(`Text.quoted_eq_literal`). So a list of tokens is read back from their texts with single spaces
between them (`tokenize_texts`).
-/

set_option autoImplicit false

namespace Recolor

open Text

/-! ## Quoted texts -/

namespace Text

/-- The printable characters of ASCII: from the space to the tilde. -/
def IsPlain (c : Char) : Prop := ' ' ≤ c ∧ c ≤ '~'

/-- The characters from the space to the tilde can be shown as they are. -/
theorem isPrintable_of_isPlain {c : Char} (h : IsPlain c) : isPrintable c = true := by
  have hfrom : 0x20 ≤ c.toNat := h.1
  have hto : c.toNat ≤ 0x7E := h.2
  have htable : printableBoundaries = 0x0 :: 0x20 :: 0x7F :: printableBoundaries.drop 3 := rfl
  rw [isPrintable, htable, List.takeWhile_cons_of_pos (by simp),
    List.takeWhile_cons_of_pos (by simpa using hfrom),
    List.takeWhile_cons_of_neg (by simp; omega)]
  rfl

/-- A printable character of ASCII is shown as it is escaped in a literal. -/
theorem quotedChar_of_isPlain {c : Char} (h : IsPlain c) : quotedChar c = escapeChar '"' c := by
  have hprintable := isPrintable_of_isPlain h
  by_cases hquote : c = '"'
  · rw [hquote]
    rfl
  · by_cases hslash : c = '\\'
    · rw [hslash]
      rfl
    · -- the characters with a letter for their escape are not printable
      have hcontrol : ∀ d : Char, d.toNat < 0x20 → c ≠ d := by
        rintro d hd rfl
        exact absurd h.1 (Nat.not_le.2 hd)
      rw [quotedChar, if_neg hquote, if_neg hslash, if_neg (hcontrol '\n' (by decide)),
        if_neg (hcontrol '\r' (by decide)), if_neg (hcontrol '\t' (by decide)),
        if_neg (hcontrol '\x00' (by decide)), if_pos hprintable, escapeChar, if_neg hslash,
        if_neg hquote, if_neg (hcontrol '\n' (by decide))]

/-- A text of printable ASCII characters is quoted like a string literal. -/
theorem quoted_eq_literal {s : String} (h : ∀ c ∈ s.toList, IsPlain c) :
    quoted s = literal '"' s := by
  have hflat : s.toList.flatMap quotedChar = escape '"' s.toList :=
    List.flatMap_congr fun c hc => quotedChar_of_isPlain (h c hc)
  rw [quoted, literal, hflat]

end Text

/-! ## Words -/

/-- A word in lower case spells what it means. -/
theorem spells_word {w : String} {kind : TokenKind} (hname : w.toList ∈ Lexeme.name)
    (hlower : w.toList.map Char.toLower = w.toList) (hkind : Lexeme.wordKind? w = some kind) :
    Spells w.toList kind := by
  have hword : Lexeme.lowered w.toList = w := by
    rw [Lexeme.lowered, hlower, String.ofList_toList]
  rw [← hword] at hkind
  exact ⟨.word, hname, Lexeme.item_word_some hkind⟩

/-- A text is a name if all of it is read as one. -/
theorem mem_name_of_nameLength {cs : List Char} (hlength : Lexeme.nameLength cs = cs.length)
    (hne : Lexeme.nameLength cs ≠ 0) : cs ∈ Lexeme.name := by
  have hmem := Lexeme.take_nameLength_mem hne
  rwa [hlength, List.take_length] at hmem

/-- A reserved word is looked up under its own text. -/
theorem Keyword.ofText?_text (k : Keyword) : ofText? k.text = some k := by
  cases k <;> decide

/-- A keyword is spelled by its text. -/
theorem spells_keyword (k : Keyword) : Spells k.text.toList (.keyword k) := by
  have hkind : Lexeme.wordKind? k.text = some (.keyword k) := by
    rw [Lexeme.wordKind?, Keyword.ofText?_text]
  cases k <;> exact spells_word (mem_name_of_nameLength (by decide) (by decide)) (by decide) hkind

/-- The name of a colour space is spelled by itself. -/
theorem spells_space {name : String} (h : name ∈ spaceWords) :
    Spells name.toList (.space name) := by
  have hreserved : ∀ w ∈ spaceWords, Keyword.ofText? w = none := by decide
  have hname : ∀ w ∈ spaceWords,
      Lexeme.nameLength w.toList = w.toList.length ∧ Lexeme.nameLength w.toList ≠ 0 := by decide
  have hlower : ∀ w ∈ spaceWords, w.toList.map Char.toLower = w.toList := by decide
  have hkind : Lexeme.wordKind? name = some (.space name) := by
    simp [Lexeme.wordKind?, hreserved name h, h]
  exact spells_word (mem_name_of_nameLength (hname name h).1 (hname name h).2) (hlower name h) hkind

/-- A constant is a word that is neither reserved nor the name of a colour space. -/
theorem spells_constant {w : String} {kind : TokenKind} (h : (w, kind) ∈ Lexeme.constants) :
    Spells w.toList kind := by
  simp only [Lexeme.constants, List.mem_cons, Prod.mk.injEq, List.not_mem_nil, or_false] at h
  have hkind : Lexeme.wordKind? w = some kind := by
    rcases h with ⟨rfl, rfl⟩ | ⟨rfl, rfl⟩ | ⟨rfl, rfl⟩ <;>
      rw [Lexeme.wordKind?_of_not_space (by decide) (by decide)] <;> rfl
  rcases h with ⟨rfl, -⟩ | ⟨rfl, -⟩ | ⟨rfl, -⟩ <;>
    exact spells_word (mem_name_of_nameLength (by decide) (by decide)) (by decide) hkind

/-! ## All kinds -/

/-- A sign is spelled by its text. -/
theorem spells_symbol (s : Symbol) : Spells s.text.toList (.symbol s) := by
  refine ⟨.symbol s, ?_, fun span => rfl⟩
  show (s.text.toList, s) ∈ Lexeme.spellings
  cases s <;> decide

/-- The name of a variable, without its dollar signs. -/
def Variable.name : Variable → String
  | .scalar name => name
  | .vector name => name

/-- A variable is spelled by its text, if its name is one that a script can have. -/
theorem spells_variable {v : Variable} (h : v.name.toList ∈ Lexeme.name) :
    Spells v.text.toList (.variable v) := by
  cases v with
  | scalar name =>
    have htext : (Variable.scalar name).text.toList = '$' :: name.toList := by
      simp [Variable.text]
    refine ⟨.scalar, Lexeme.mem_scalar.2 ⟨_, h, htext⟩, fun span => ?_⟩
    simp [Lexeme.item, htext]
  | vector name =>
    have htext : (Variable.vector name).text.toList = '$' :: '$' :: name.toList := by
      simp [Variable.text]
    refine ⟨.vector, Lexeme.mem_vector.2 ⟨_, h, htext⟩, fun span => ?_⟩
    simp [Lexeme.item, htext]

namespace TokenKind

/-- The text of the token is how it is written in a script. The text of a number need not be: it can
have a sign or an exponent. -/
def Legible : TokenKind → Prop
  | .number _ => False
  | .string content => ∀ c ∈ content.toList, IsPlain c
  | .variable v => v.name.toList ∈ Lexeme.name
  | .space name => name ∈ spaceWords
  | .keyword _ | .boolean _ | .none | .symbol _ => True

/-- A token whose text is how it is written is spelled by that text. -/
theorem Legible.spells {kind : TokenKind} (h : kind.Legible) : Spells kind.text.toList kind := by
  match kind, h with
  | .string content, h =>
    rw [text, quoted_eq_literal h]
    exact spells_literal (.inr rfl) content
  | .variable v, h => exact spells_variable h
  | .keyword k, _ => exact spells_keyword k
  | .space name, h => exact spells_space h
  | .boolean true, _ | .boolean false, _ | .none, _ =>
    exact spells_constant (by simp [Lexeme.constants, text])
  | .symbol s, _ => exact spells_symbol s

end TokenKind

/-- The texts of tokens, with single spaces between them, are read back as tokens of the same kinds,
and nothing is left to remark on. -/
theorem tokenize_texts {kinds : List TokenKind} (h : ∀ kind ∈ kinds, kind.Legible) :
    ∃ ts : List Token, tokenize (" ".intercalate (kinds.map TokenKind.text)) = ⟨ts, []⟩ ∧
      ts.map Token.kind = kinds := by
  let source := " ".intercalate (kinds.map TokenKind.text)
  have hsource : source.toList = [' '].intercalate (kinds.map (·.text.toList)) := by
    rw [String.toList_intercalate, List.map_map]
    rfl
  have hspells : ∀ kind ∈ kinds, Spells kind.text.toList kind := fun kind hkind =>
    (h kind hkind).spells
  have hgap : ∀ c ∈ ([] : List Char), isBlank c = true := by simp
  obtain ⟨ts, hkinds, hcut⟩ := Spells.cut hspells (LineIndex.ofString source) 0 hgap
  rw [List.nil_append, ← hsource] at hcut
  exact ⟨ts, tokenize_of_cut hcut, hkinds⟩

/-- One token of each kind, among them a string with a quote and a backslash, a variable that is
named like a reserved word, and two signs that would be one without the space. -/
def mixedKinds : List TokenKind :=
  [.keyword .on, .string "a\"b\\", .variable (.scalar "on"), .variable (.vector "v_1"), .symbol .gt,
    .symbol .assign, .space "rgb", .boolean true, .none]

/-- A list with tokens of all kinds but numbers is read back from its texts. -/
theorem tokenize_texts_mixed :
    (∀ kind ∈ mixedKinds, kind.Legible) ∧
      " ".intercalate (mixedKinds.map TokenKind.text) =
        "on \"a\\\"b\\\\\" $on $$v_1 > = rgb true none" ∧
      ∃ ts : List Token,
        tokenize "on \"a\\\"b\\\\\" $on $$v_1 > = rgb true none" = ⟨ts, []⟩ ∧
          ts.map Token.kind = mixedKinds := by
  have hlegible : ∀ kind ∈ mixedKinds, kind.Legible := by
    have hcontent : ∀ c ∈ "a\"b\\".toList, IsPlain c := by simp [IsPlain]
    have hscalar : "on".toList ∈ Lexeme.name := mem_name_of_nameLength (by decide) (by decide)
    have hvector : "v_1".toList ∈ Lexeme.name := mem_name_of_nameLength (by decide) (by decide)
    have hspace : "rgb" ∈ spaceWords := by decide
    simp only [mixedKinds, List.forall_mem_cons]
    exact ⟨trivial, hcontent, hscalar, hvector, trivial, trivial, hspace, trivial, trivial, nofun⟩
  have htext : " ".intercalate (mixedKinds.map TokenKind.text) =
      "on \"a\\\"b\\\\\" $on $$v_1 > = rgb true none" := by decide
  have hread := tokenize_texts hlegible
  rw [htext] at hread
  exact ⟨hlegible, htext, hread⟩

end Recolor
