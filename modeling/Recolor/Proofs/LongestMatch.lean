import Recolor.Proofs.Patterns

/-!
# Pieces are longest matches

`Lexeme.longest?` finds the longest beginning of a text that matches any pattern, and the class
whose pattern it matches (`Lexeme.longest?_eq_some_iff`); it finds nothing if no beginning matches
one (`Lexeme.longest?_eq_none_iff`). What it finds matches (`Lexeme.mem_pattern_of_longest?`), and
whatever matches is found unless something longer is (`Lexeme.exists_longest?`).

So each item of a script is what the longest match at its place stands for, or the remark on a
character where there is no match (`scriptItems_longestMatch`).
-/

set_option autoImplicit false

namespace Recolor

namespace Lexeme

/-! ## The longest piece -/

section Longest

variable {c : Char} {cs text rest : List Char} {piece : Lexeme} {n : Nat}

/-- In front of the start of a name the longest piece is the whole name. -/
theorem longest?_name (hc : isNameStart c = true) (cs : List Char) :
    longest? (c :: cs) = some (.word, nameLength (c :: cs)) := by
  rw [longest?, if_pos hc]

/-- In front of a quote the longest piece is the text in quotes, closed or not. -/
theorem longest?_quote {quote : Char} (hquote : quote = '\'' ∨ quote = '"') (cs : List Char) :
    longest? (quote :: cs) = some (stringAfter quote cs) := by
  have hname : ¬isNameStart quote = true := by rcases hquote with rfl | rfl <;> decide
  rw [longest?, if_neg hname, if_pos hquote]

/-- In front of a dollar sign the longest piece is a variable. -/
theorem longest?_dollar (cs : List Char) : longest? ('$' :: cs) = variableAfter? cs := rfl

/-- In front of any other sign the longest piece is a number if one starts there, and a symbol
otherwise. -/
theorem longest?_sign (hc : StartsSign c) (cs : List Char) :
    longest? (c :: cs) = if numberLength (c :: cs) ≠ 0 then
      some (.number, numberLength (c :: cs)) else symbol? (c :: cs) := by
  rw [longest?, if_neg (by simp [hc.1]), if_neg hc.2.1, if_neg hc.2.2]

/-- What is taken for a variable is spelled as one. -/
theorem take_variableAfter?_mem (h : variableAfter? cs = some (piece, n)) :
    ('$' :: cs).take n ∈ piece.pattern := by
  cases cs with
  | nil => cases h
  | cons c rest =>
    by_cases hc : c = '$'
    · rw [variableAfter?, if_pos hc] at h
      split at h
      next => cases h
      next hname =>
        cases h
        exact mem_vector.2 ⟨_, take_nameLength_mem hname, by rw [hc]; rfl⟩
    · rw [variableAfter?, if_neg hc] at h
      split at h
      next => cases h
      next hname =>
        cases h
        exact mem_scalar.2 ⟨_, take_nameLength_mem hname, rfl⟩

/-- What is found matches the pattern of its class. -/
theorem mem_pattern_of_longest? (h : longest? cs = some (piece, n)) :
    cs.take n ∈ piece.pattern := by
  cases cs with
  | nil => cases h
  | cons c cs =>
    by_cases hname : isNameStart c = true
    · rw [longest?_name hname] at h
      cases h
      refine take_nameLength_mem ?_
      simp [nameLength, hname]
    · by_cases hquote : c = '\'' ∨ c = '"'
      · rw [longest?_quote hquote] at h
        exact take_stringAfter_mem hquote (Option.some.inj h)
      · by_cases hdollar : c = '$'
        · rw [hdollar, longest?_dollar] at h
          rw [hdollar]
          exact take_variableAfter?_mem h
        · have hc : StartsSign c := ⟨by simpa using hname, hquote, hdollar⟩
          rw [longest?_sign hc] at h
          split at h
          next hnumber =>
            cases h
            exact take_numberLength_mem hnumber
          next => exact take_symbol?_mem h

/-- A number starts with a character that starts no word, no string and no variable. -/
theorem startsSign_of_mem_number (h : text ∈ pattern .number) :
    ∃ c more, text = c :: more ∧ StartsSign c := by
  have hdigit : ∀ c more, (∀ d ∈ c :: more, d.isDigit = true) → StartsSign c := by
    intro c more hall
    exact startsSign_of_isDigit (hall c List.mem_cons_self)
  rcases mem_number.1 h with hdigits | ⟨whole, fraction, hwhole, -, rfl⟩
  · obtain ⟨hne, hall⟩ := mem_digits.1 hdigits
    cases text with
    | nil => exact absurd rfl hne
    | cons c more => exact ⟨c, more, rfl, hdigit c more hall⟩
  · cases whole with
    | nil => exact ⟨'.', fraction, rfl, by decide⟩
    | cons c more => exact ⟨c, more ++ '.' :: fraction, rfl, hdigit c more hwhole⟩

/-- In front of a symbol the longest piece is a number if one starts there, and a symbol
otherwise. -/
theorem longest?_spelling {s : Symbol} (h : (text, s) ∈ spellings) (rest : List Char) :
    longest? (text ++ rest) = if numberLength (text ++ rest) ≠ 0 then
      some (.number, numberLength (text ++ rest)) else symbol? (text ++ rest) := by
  cases text with
  | nil => exact absurd rfl (List.length_pos_iff.1 (spelling_ne_nil h))
  | cons c more => exact longest?_sign (startsSign_of_mem h List.mem_cons_self).1 _

/-- A number where a sign stands too is a point with digits behind it, and longer than the sign. -/
theorem length_lt_numberLength {s : Symbol} (h : (text, s) ∈ spellings)
    (hne : numberLength (text ++ rest) ≠ 0) : text.length < numberLength (text ++ rest) := by
  cases text with
  | nil => exact Nat.pos_of_ne_zero hne
  | cons c more =>
    have hdigit : c.isDigit = false := (startsSign_of_mem h List.mem_cons_self).2
    have hcount : digitCount (c :: (more ++ rest)) = 0 := by simp [digitCount, hdigit]
    have hlength : numberLength (c :: (more ++ rest)) = fractionLength (c :: (more ++ rest)) := by
      rw [numberLength, hcount, Nat.zero_add, List.drop_zero]
    rw [List.cons_append, hlength] at hne ⊢
    obtain ⟨digits, heq, hdigits, hfraction⟩ := exists_of_fractionLength hne
    cases heq
    have hle := length_spelling_le h
    cases more with
    | nil =>
      rw [hfraction, List.length_singleton]
      omega
    | cons d more =>
      -- the second character of a sign is no digit
      have hd : d.isDigit = false := (startsSign_of_mem h (by simp)).2
      exact absurd (by simp [digitCount, hd]) hdigits

/-- A name is found where one stands. -/
theorem nameLength_pos (h : text ∈ name) (rest : List Char) : nameLength (text ++ rest) ≠ 0 := by
  obtain ⟨c, more, hc, -, rfl⟩ := mem_name.1 h
  simp [nameLength, hc]

/-- Whatever matches a pattern is found, or something longer is. -/
theorem exists_longest? (h : text ∈ piece.pattern) (rest : List Char) :
    ∃ found n, longest? (text ++ rest) = some (found, n) ∧ text.length ≤ n ∧
      (n = text.length → found = piece) := by
  cases piece with
  | number =>
    have hle := @le_numberLength text rest h
    obtain ⟨c, more, rfl, hc⟩ := startsSign_of_mem_number h
    have hne : numberLength (c :: (more ++ rest)) ≠ 0 := by
      simp only [List.cons_append, List.length_cons] at hle
      omega
    refine ⟨.number, _, ?_, hle, fun _ => rfl⟩
    rw [List.cons_append, longest?_sign hc, if_pos hne]
  | string =>
    obtain ⟨quote, inner, hquote, hinner, rfl⟩ := mem_string.1 h
    have hslash : quote ≠ '\\' := by rcases hquote with rfl | rfl <;> decide
    refine ⟨.string, inner.length + 2, ?_, by simp, fun _ => rfl⟩
    rw [List.cons_append, List.cons_append, List.append_assoc, longest?_quote hquote]
    exact congrArg some (stringAfter_closed hslash hinner rest)
  | openString =>
    obtain ⟨quote, inner, hquote, hinner, rfl⟩ := mem_openString.1 h
    obtain ⟨found, n, hfound, hle, hsame⟩ := stringAfter_open hinner rest
    refine ⟨found, n, ?_, hle, hsame⟩
    rw [List.cons_append, longest?_quote hquote, hfound]
  | scalar =>
    obtain ⟨word, hword, rfl⟩ := mem_scalar.1 h
    have hle := @le_nameLength word rest hword
    have hne := nameLength_pos hword rest
    obtain ⟨c, more, hc, -, rfl⟩ := mem_name.1 hword
    have hdollar : c ≠ '$' := by
      rintro rfl
      exact absurd hc (by decide)
    refine ⟨.scalar, nameLength (c :: more ++ rest) + 1, ?_, ?_, fun _ => rfl⟩
    · rw [List.cons_append, longest?_dollar]
      rw [List.cons_append] at hne ⊢
      rw [variableAfter?, if_neg hdollar, if_neg hne]
    · simpa using hle
  | vector =>
    obtain ⟨word, hword, rfl⟩ := mem_vector.1 h
    have hle := @le_nameLength word rest hword
    have hne := nameLength_pos hword rest
    refine ⟨.vector, nameLength (word ++ rest) + 2, ?_, ?_, fun _ => rfl⟩
    · rw [List.cons_append, List.cons_append, longest?_dollar, variableAfter?, if_pos rfl,
        if_neg hne]
    · simpa using hle
  | word =>
    have hle := @le_nameLength text rest h
    obtain ⟨c, more, hc, -, rfl⟩ := mem_name.1 h
    exact ⟨.word, _, longest?_name hc _, hle, fun _ => rfl⟩
  | symbol s =>
    by_cases hzero : numberLength (text ++ rest) = 0
    · obtain ⟨found, n, hfound, hle, hsame⟩ := exists_symbol? h rest
      refine ⟨found, n, ?_, hle, hsame⟩
      rw [longest?_spelling h, if_neg (not_not.2 hzero), hfound]
    · have hlt : text.length < numberLength (text ++ rest) := length_lt_numberLength h hzero
      refine ⟨.number, _, ?_, Nat.le_of_lt hlt, fun heq => ?_⟩
      · rw [longest?_spelling h, if_pos hzero]
      · exact absurd heq (Nat.ne_of_gt hlt)

/-! ## Longest matches -/

/-- The text is the longest beginning of `cs` that matches a pattern, and the pattern that it
matches is that of the class. -/
structure LongestMatch (cs : List Char) (piece : Lexeme) (text : List Char) : Prop where
  begins : text <+: cs
  ne_nil : text ≠ []
  mem : text ∈ piece.pattern
  longest : ∀ (other : Lexeme) (w : List Char), w <+: cs → w ∈ other.pattern →
    w.length ≤ text.length

/-- The piece that is found is the longest match, and there is but one. -/
theorem longest?_eq_some_iff :
    longest? (text ++ rest) = some (piece, text.length) ↔
      LongestMatch (text ++ rest) piece text := by
  constructor
  · intro h
    have hmem := mem_pattern_of_longest? h
    rw [List.take_left] at hmem
    refine ⟨List.prefix_append text rest, ?_, hmem, ?_⟩
    · exact List.length_pos_iff.1 (length_pos_of_longest? h)
    · rintro other w ⟨more, hw⟩ hother
      obtain ⟨found, n, hfound, hle, -⟩ := exists_longest? hother more
      rw [hw, h] at hfound
      cases hfound
      exact hle
  · intro h
    obtain ⟨found, n, hfound, hle, hsame⟩ := exists_longest? h.mem rest
    have hbegins : (text ++ rest).take n <+: text ++ rest := List.take_prefix n _
    have hlongest := h.longest found _ hbegins (mem_pattern_of_longest? hfound)
    rw [List.length_take, Nat.min_eq_left (length_le_of_longest? hfound)] at hlongest
    have hn : n = text.length := Nat.le_antisymm hlongest hle
    rw [hfound, hsame hn, hn]

/-- Nothing is found where no beginning of the text matches a pattern. -/
theorem longest?_eq_none_iff :
    longest? cs = none ↔
      ∀ (piece : Lexeme) (text : List Char), text <+: cs → text ≠ [] → text ∉ piece.pattern := by
  constructor
  · rintro h piece text ⟨rest, rfl⟩ - hmem
    obtain ⟨found, n, hfound, -⟩ := exists_longest? hmem rest
    rw [h] at hfound
    cases hfound
  · intro h
    cases hfound : longest? cs with
    | none => rfl
    | some found =>
      obtain ⟨piece, n⟩ := found
      have hpos := length_pos_of_longest? hfound
      have hle := length_le_of_longest? hfound
      have hne : cs.take n ≠ [] := by
        apply List.length_pos_iff.1
        rw [List.length_take]
        omega
      exact absurd (mem_pattern_of_longest? hfound) (h piece _ (List.take_prefix n cs) hne)

/-- A text has at most one longest match. -/
theorem LongestMatch.unique {other : Lexeme} {w : List Char} (h : LongestMatch cs piece text)
    (hw : LongestMatch cs other w) : other = piece ∧ w = text := by
  obtain ⟨rest, rfl⟩ := h.begins
  have hle := h.longest other w hw.begins hw.mem
  have hge := hw.longest piece text h.begins h.mem
  have hlength : w.length = text.length := Nat.le_antisymm hle hge
  have htake := List.prefix_iff_eq_take.1 hw.begins
  rw [hlength, List.take_left] at htake
  rw [htake] at hw
  have hfound := longest?_eq_some_iff.2 hw
  rw [longest?_eq_some_iff.2 h] at hfound
  cases hfound
  exact ⟨rfl, htake⟩

end Longest

/-! ## Meanings -/

/-- A word with its letters in lower case. -/
def lowered (text : List Char) : String := String.ofList (text.map Char.toLower)

/-- The words for constants, with what they stand for. -/
def constants : List (String × TokenKind) :=
  [("true", .boolean true), ("false", .boolean false), ("none", .none)]

/-- What the text of a piece stands for. Words are reserved words, else colour spaces, else
constants, else nothing; case does not matter. An open string stands for nothing. -/
inductive Means : Lexeme → List Char → Span → ScriptItem → Prop where
  | number {text : List Char} {span : Span} :
      Means .number text span (.ok ⟨.number (numberOfLiteral text), span⟩)
  | string {quote : Char} {inner : List Char} {span : Span} :
      Means .string (quote :: inner ++ [quote]) span
        (.ok ⟨.string (String.ofList (unescape inner)), span⟩)
  | openString {text : List Char} {span : Span} :
      Means .openString text span (.error (malformedString text span))
  | scalar {word : List Char} {span : Span} :
      Means .scalar ('$' :: word) span (.ok ⟨.variable (.scalar (String.ofList word)), span⟩)
  | vector {word : List Char} {span : Span} :
      Means .vector ('$' :: '$' :: word) span
        (.ok ⟨.variable (.vector (String.ofList word)), span⟩)
  | reserved {text : List Char} {span : Span} {k : Keyword} (hk : k.text = lowered text) :
      Means .word text span (.ok ⟨.keyword k, span⟩)
  | space {text : List Char} {span : Span} (hk : ∀ k : Keyword, k.text ≠ lowered text)
      (hspace : lowered text ∈ spaceWords) :
      Means .word text span (.ok ⟨.space (lowered text), span⟩)
  | constant {text : List Char} {span : Span} {kind : TokenKind}
      (hk : ∀ k : Keyword, k.text ≠ lowered text) (hspace : lowered text ∉ spaceWords)
      (hconstant : (lowered text, kind) ∈ constants) : Means .word text span (.ok ⟨kind, span⟩)
  | unknown {text : List Char} {span : Span} (hk : ∀ k : Keyword, k.text ≠ lowered text)
      (hspace : lowered text ∉ spaceWords) (hconstant : ∀ kind, (lowered text, kind) ∉ constants) :
      Means .word text span (.error (unknownWord text span))
  | symbol {text : List Char} {span : Span} {s : Symbol} :
      Means (.symbol s) text span (.ok ⟨.symbol s, span⟩)

/-- A keyword is found under its own text. -/
theorem text_of_ofText? {w : String} {k : Keyword} (h : Keyword.ofText? w = some k) :
    k.text = w := by
  have hsome := List.find?_some h
  simpa using hsome

/-- A word that no keyword is found under is the text of none. -/
theorem ne_of_ofText? {w : String} (h : Keyword.ofText? w = none) (k : Keyword) : k.text ≠ w := by
  have hall : k ∈ Keyword.all := by cases k <;> decide
  have hnot := List.find?_eq_none.1 h k hall
  simpa using hnot

/-- A word with a meaning becomes a token. -/
theorem item_word_some {text : List Char} {kind : TokenKind}
    (h : wordKind? (lowered text) = some kind) (span : Span) :
    item .word text span = .ok ⟨kind, span⟩ := by
  rw [lowered] at h
  rw [item, h]

/-- A word without a meaning becomes a diagnostic. -/
theorem item_word_none {text : List Char} (h : wordKind? (lowered text) = none) (span : Span) :
    item .word text span = .error (unknownWord text span) := by
  rw [lowered] at h
  rw [item, h]

/-- A word that is no keyword and names no space is a constant or means nothing. -/
theorem wordKind?_of_not_space {w : String} (hk : Keyword.ofText? w = none)
    (hspace : w ∉ spaceWords) :
    wordKind? w = if w = "true" then some (.boolean true)
      else if w = "false" then some (.boolean false)
      else if w = "none" then some .none else none := by
  simp [wordKind?, hk, hspace]

/-- A word means what the tables of keywords, spaces and constants say. -/
theorem means_word (text : List Char) (span : Span) :
    Means .word text span (item .word text span) := by
  cases hk : Keyword.ofText? (lowered text) with
  | some k =>
    have hword : wordKind? (lowered text) = some (.keyword k) := by rw [wordKind?, hk]
    rw [item_word_some hword]
    exact .reserved (text_of_ofText? hk)
  | none =>
    have hreserved := ne_of_ofText? hk
    by_cases hspace : lowered text ∈ spaceWords
    · have hword : wordKind? (lowered text) = some (.space (lowered text)) := by
        simp [wordKind?, hk, hspace]
      rw [item_word_some hword]
      exact .space hreserved hspace
    · have hword := wordKind?_of_not_space hk hspace
      by_cases htrue : lowered text = "true"
      · rw [if_pos htrue] at hword
        rw [item_word_some hword]
        exact .constant hreserved hspace (by simp [constants, htrue])
      · rw [if_neg htrue] at hword
        by_cases hfalse : lowered text = "false"
        · rw [if_pos hfalse] at hword
          rw [item_word_some hword]
          exact .constant hreserved hspace (by simp [constants, hfalse])
        · rw [if_neg hfalse] at hword
          by_cases hnone : lowered text = "none"
          · rw [if_pos hnone] at hword
            rw [item_word_some hword]
            exact .constant hreserved hspace (by simp [constants, hnone])
          · rw [if_neg hnone] at hword
            rw [item_word_none hword]
            exact .unknown hreserved hspace (by simp [constants, htrue, hfalse, hnone])

/-- The item that is made of a text is what the text stands for. -/
theorem means_item {piece : Lexeme} {text : List Char} (h : text ∈ piece.pattern) (span : Span) :
    piece.Means text span (piece.item text span) := by
  cases piece with
  | number => exact .number
  | string =>
    obtain ⟨quote, inner, -, -, rfl⟩ := mem_string.1 h
    have hinner : ((quote :: inner ++ [quote]).drop 1).dropLast = inner := by simp
    rw [item, hinner]
    exact .string
  | openString => exact .openString
  | scalar =>
    obtain ⟨word, -, rfl⟩ := mem_scalar.1 h
    exact .scalar
  | vector =>
    obtain ⟨word, -, rfl⟩ := mem_vector.1 h
    exact .vector
  | word => exact means_word text span
  | symbol s => exact .symbol

end Lexeme

/-! ## Scripts -/

/-- Each item of a script comes from the longest match at its place, which is not blank. If some
beginning of the text there matches a pattern, the span of the item is the longest such beginning,
and the item is what this stands for. If none does, the item is the remark on the first
character. -/
theorem scriptItems_longestMatch {source : String} {i : ScriptItem}
    (hi : i ∈ scriptItems source) :
    ∃ before rest, source.toList = before ++ rest ∧
      i.span.start.offset = Text.byteLength before ∧ (∀ c ∈ rest.head?, isBlank c = false) ∧
      ((∃ (piece : Lexeme) (text : List Char), text <+: rest ∧ text ≠ [] ∧
          text ∈ piece.pattern) →
        ∃ piece text, Lexeme.LongestMatch rest piece text ∧
          (∀ other w, Lexeme.LongestMatch rest other w → other = piece ∧ w = text) ∧
          i.span.stop.offset = Text.byteLength (before ++ text) ∧ piece.Means text i.span i) ∧
      ((∀ (piece : Lexeme) (text : List Char), text <+: rest → text ≠ [] →
          text ∉ piece.pattern) →
        ∃ c, rest.head? = some c ∧ i.span.stop.offset = Text.byteLength (before ++ [c]) ∧
          i = .error (Lexeme.illegalCharacter [c] i.span)) := by
  have hfit : 0 + Text.byteLength source.toList ≤
      Text.byteLength (LineIndex.ofString source).text := Nat.le_of_eq (Nat.zero_add _)
  obtain ⟨before, text, rest, hsplit, hhead, hmade, hstart, hstop⟩ :=
    (cut_scriptItems source).exists_split hfit hi
  rw [Nat.zero_add] at hstart hstop
  rw [← Text.byteLength_append] at hstop
  refine ⟨before, text ++ rest, hsplit, hstart, hhead, ?_, ?_⟩
  · rintro ⟨other, w, hw, hne, hmem⟩
    generalize i.span = span at hmade hstop ⊢
    cases hmade with
    | @piece _ _ _ piece hlongest =>
      have hmatch := Lexeme.longest?_eq_some_iff.1 hlongest
      exact ⟨piece, text, hmatch, fun _ _ h => hmatch.unique h, hstop,
        Lexeme.means_item hmatch.mem span⟩
    | illegal hnone => exact absurd hmem (Lexeme.longest?_eq_none_iff.1 hnone other w hw hne)
  · intro hnone
    generalize i.span = span at hmade hstop ⊢
    cases hmade with
    | piece hlongest =>
      have hmatch := Lexeme.longest?_eq_some_iff.1 hlongest
      exact absurd hmatch.mem (hnone _ _ hmatch.begins hmatch.ne_nil)
    | @illegal c => exact ⟨c, rfl, hstop, rfl⟩

/-- Two points between two numbers are one sign: neither is the point of a number. -/
theorem scriptItems_longestMatch_dots :
    ∃ i ∈ scriptItems "1..2", ∃ before rest piece text, "1..2".toList = before ++ rest ∧
      Text.byteLength before = 1 ∧ Lexeme.LongestMatch rest piece text ∧
      Text.byteLength (before ++ text) = 3 ∧ piece.Means text i.span i := by
  have hitem : (scriptItems "1..2").any (fun i =>
      i.span.start.offset == 1 && i.span.stop.offset == 3 && i.isOk) = true := by decide +kernel
  obtain ⟨i, hi, hitem⟩ := List.any_eq_true.1 hitem
  simp only [Bool.and_eq_true, beq_iff_eq] at hitem
  obtain ⟨⟨hstart, hstop⟩, hok⟩ := hitem
  obtain ⟨before, rest, hsplit, hbefore, -, hmatch, hnone⟩ := scriptItems_longestMatch hi
  rw [hstart] at hbefore
  by_cases hany : ∃ (piece : Lexeme) (text : List Char),
      text <+: rest ∧ text ≠ [] ∧ text ∈ piece.pattern
  · obtain ⟨piece, text, hlongest, -, htext, hmeans⟩ := hmatch hany
    rw [hstop] at htext
    exact ⟨i, hi, before, rest, piece, text, hsplit, hbefore.symm, hlongest, htext.symm, hmeans⟩
  · obtain ⟨c, -, -, hillegal⟩ := hnone fun piece text hbegins hne hmem =>
      hany ⟨piece, text, hbegins, hne, hmem⟩
    rw [hillegal] at hok
    cases hok

end Recolor
