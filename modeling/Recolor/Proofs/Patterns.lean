import Mathlib.Computability.Language
import Recolor.Proofs.Pieces

/-!
# Patterns of pieces

Each class of pieces has a `pattern`, a regular language over characters. The functions that read a
class find the longest text that matches: what `numberLength`, `nameLength` and `stringAfter` find
matches the pattern, and no text that matches it is longer. For strings this rests on
`contentLength_append`: what stands behind a content is read as if it stood alone, so a content ends
at the first quote that no backslash stands in front of.

Signs are found in a list that has the longer ones first, so the first that fits is the longest
(`exists_symbol?`).
-/

set_option autoImplicit false

namespace Recolor

open scoped Computability

namespace Lexeme

/-! ## Patterns -/

/-- One character that passes a test. -/
def oneOf (p : Char → Bool) : Language Char := {text | ∃ c, p c = true ∧ text = [c]}

/-- Digits, at least one. -/
def digits : Language Char := oneOf Char.isDigit * (oneOf Char.isDigit)∗

/-- A name: a letter or an underscore, and any number of these and of digits. -/
def name : Language Char := oneOf isNameStart * (oneOf isNameRest)∗

/-- What can stand between two quotes: any character of the line but the quote and a backslash, and
a backslash with any character of the line. -/
def content (quote : Char) : Language Char :=
  (oneOf (fun c => c ≠ quote ∧ c ≠ '\\' ∧ c ≠ '\n') + {['\\']} * oneOf (· ≠ '\n'))∗

/-- The texts that match the pattern of a class. -/
def pattern : Lexeme → Language Char
  | .number => digits * (1 + {['.']} * digits) + {['.']} * digits
  | .string => {['\'']} * content '\'' * {['\'']} + {['"']} * content '"' * {['"']}
  | .openString => {['\'']} * content '\'' + {['"']} * content '"'
  | .scalar => {['$']} * name
  | .vector => {['$', '$']} * name
  | .word => name
  | .symbol s => {text | (text, s) ∈ spellings}

/-- A text behind a fixed beginning matches as the rest does. -/
theorem mem_singleton_mul {before text : List Char} {l : Language Char} :
    text ∈ ({before} : Language Char) * l ↔ ∃ rest ∈ l, text = before ++ rest := by
  rw [Language.mem_mul]
  constructor
  · rintro ⟨_, rfl, rest, hrest, rfl⟩
    exact ⟨rest, hrest, rfl⟩
  · rintro ⟨rest, hrest, rfl⟩
    exact ⟨before, rfl, rest, hrest, rfl⟩

/-- A text in front of a fixed end matches as what stands in front of it does. -/
theorem mem_mul_singleton {after text : List Char} {l : Language Char} :
    text ∈ l * ({after} : Language Char) ↔ ∃ before ∈ l, text = before ++ after := by
  rw [Language.mem_mul]
  constructor
  · rintro ⟨before, hbefore, _, rfl, rfl⟩
    exact ⟨before, hbefore, rfl⟩
  · rintro ⟨before, hbefore, rfl⟩
    exact ⟨before, hbefore, after, rfl, rfl⟩

/-- A text begins with a character that passes a test if its first does. -/
theorem mem_oneOf_mul {p : Char → Bool} {text : List Char} {l : Language Char} :
    text ∈ oneOf p * l ↔ ∃ c rest, p c = true ∧ rest ∈ l ∧ text = c :: rest := by
  rw [Language.mem_mul]
  constructor
  · rintro ⟨_, ⟨c, hc, rfl⟩, rest, hrest, rfl⟩
    exact ⟨c, rest, hc, hrest, rfl⟩
  · rintro ⟨c, rest, hc, hrest, rfl⟩
    exact ⟨[c], ⟨c, hc, rfl⟩, rest, hrest, rfl⟩

/-- A repetition is empty, or begins with what is repeated. -/
theorem mem_kstar_iff {l : Language Char} {text : List Char} :
    text ∈ l∗ ↔ text = [] ∨ text ∈ l * l∗ := by
  conv_lhs => rw [← Language.one_add_self_mul_kstar_eq_kstar]
  rw [Language.mem_add, Language.mem_one]

/-- A repetition of characters that pass a test. -/
theorem mem_kstar_oneOf {p : Char → Bool} {text : List Char} :
    text ∈ (oneOf p)∗ ↔ ∀ c ∈ text, p c = true := by
  induction text with
  | nil => simp [Language.nil_mem_kstar]
  | cons c text ih =>
    rw [mem_kstar_iff, mem_oneOf_mul]
    constructor
    · rintro (h | ⟨d, rest, hd, hrest, heq⟩)
      · cases h
      · cases heq
        have hall := ih.1 hrest
        simpa [hd] using hall
    · intro h
      right
      have hc : p c = true := h c List.mem_cons_self
      have hrest : text ∈ (oneOf p)∗ := ih.2 fun d hd => h d (List.mem_cons_of_mem c hd)
      exact ⟨c, text, hc, hrest, rfl⟩

/-- Digits are one or more characters that are each a digit. -/
theorem mem_digits {text : List Char} :
    text ∈ digits ↔ text ≠ [] ∧ ∀ c ∈ text, c.isDigit = true := by
  simp only [digits, mem_oneOf_mul, mem_kstar_oneOf]
  constructor
  · rintro ⟨c, rest, hc, hrest, rfl⟩
    exact ⟨List.cons_ne_nil c rest, by simpa [hc] using hrest⟩
  · rintro ⟨hne, hall⟩
    cases text with
    | nil => exact absurd rfl hne
    | cons c rest =>
      have hc : c.isDigit = true := hall c List.mem_cons_self
      exact ⟨c, rest, hc, fun d hd => hall d (List.mem_cons_of_mem c hd), rfl⟩

/-- A name is a character that may start one, and characters that may go on. -/
theorem mem_name {text : List Char} :
    text ∈ name ↔ ∃ c rest, isNameStart c = true ∧ (∀ d ∈ rest, isNameRest d = true) ∧
      text = c :: rest := by
  simp only [name, mem_oneOf_mul, mem_kstar_oneOf]

/-- A number is digits, or a point with digits behind it and perhaps in front of it. -/
theorem mem_number {text : List Char} :
    text ∈ pattern .number ↔ text ∈ digits ∨
      ∃ whole fraction, (∀ c ∈ whole, c.isDigit = true) ∧ fraction ∈ digits ∧
        text = whole ++ '.' :: fraction := by
  simp only [pattern, mul_add, mul_one, Language.mem_add, mem_singleton_mul]
  constructor
  · rintro ((h | h) | ⟨fraction, hfraction, rfl⟩)
    · exact .inl h
    · obtain ⟨whole, hwhole, _, hrest, rfl⟩ := Language.mem_mul.1 h
      obtain ⟨fraction, hfraction, rfl⟩ := mem_singleton_mul.1 hrest
      exact .inr ⟨whole, fraction, (mem_digits.1 hwhole).2, hfraction, rfl⟩
    · exact .inr ⟨[], fraction, by simp, hfraction, rfl⟩
  · rintro (h | ⟨whole, fraction, hwhole, hfraction, rfl⟩)
    · exact .inl (.inl h)
    · have hrest : '.' :: fraction ∈ ({['.']} : Language Char) * digits :=
        mem_singleton_mul.2 ⟨fraction, hfraction, rfl⟩
      cases whole with
      | nil => exact .inr ⟨fraction, hfraction, rfl⟩
      | cons c whole =>
        have hdigits : c :: whole ∈ digits := mem_digits.2 ⟨List.cons_ne_nil c whole, hwhole⟩
        exact .inl (.inr (Language.append_mem_mul hdigits hrest))

/-- Strings and open strings begin with one of two quotes. -/
theorem mem_string {text : List Char} :
    text ∈ pattern .string ↔ ∃ quote inner, (quote = '\'' ∨ quote = '"') ∧
      inner ∈ content quote ∧ text = quote :: inner ++ [quote] := by
  simp only [pattern, Language.mem_add, mem_mul_singleton, mem_singleton_mul]
  constructor
  · rintro (⟨_, ⟨inner, hinner, rfl⟩, rfl⟩ | ⟨_, ⟨inner, hinner, rfl⟩, rfl⟩)
    · exact ⟨'\'', inner, .inl rfl, hinner, rfl⟩
    · exact ⟨'"', inner, .inr rfl, hinner, rfl⟩
  · rintro ⟨quote, inner, rfl | rfl, hinner, rfl⟩
    · exact .inl ⟨_, ⟨inner, hinner, rfl⟩, rfl⟩
    · exact .inr ⟨_, ⟨inner, hinner, rfl⟩, rfl⟩

/-- A string without its end is a quote and content. -/
theorem mem_openString {text : List Char} :
    text ∈ pattern .openString ↔ ∃ quote inner, (quote = '\'' ∨ quote = '"') ∧
      inner ∈ content quote ∧ text = quote :: inner := by
  simp only [pattern, Language.mem_add, mem_singleton_mul]
  constructor
  · rintro (⟨inner, hinner, rfl⟩ | ⟨inner, hinner, rfl⟩)
    · exact ⟨'\'', inner, .inl rfl, hinner, rfl⟩
    · exact ⟨'"', inner, .inr rfl, hinner, rfl⟩
  · rintro ⟨quote, inner, rfl | rfl, hinner, rfl⟩
    · exact .inl ⟨inner, hinner, rfl⟩
    · exact .inr ⟨inner, hinner, rfl⟩

/-- A scalar variable is a dollar sign and a name. -/
theorem mem_scalar {text : List Char} :
    text ∈ pattern .scalar ↔ ∃ word ∈ name, text = '$' :: word :=
  mem_singleton_mul

/-- A vector variable is two dollar signs and a name. -/
theorem mem_vector {text : List Char} :
    text ∈ pattern .vector ↔ ∃ word ∈ name, text = '$' :: '$' :: word :=
  mem_singleton_mul

/-! ## Runs of characters -/

section Runs

variable {p : Char → Bool} {cs : List Char}

/-- As many characters pass a test at least as are known to. -/
theorem le_length_takeWhile {text rest : List Char} (h : ∀ c ∈ text, p c = true) :
    text.length ≤ ((text ++ rest).takeWhile p).length := by
  rw [List.takeWhile_append_of_pos h, List.length_append]
  omega

/-- The digits that are counted match the pattern. -/
theorem take_digitCount_mem (h : digitCount cs ≠ 0) : cs.take (digitCount cs) ∈ digits := by
  have htake := take_length_takeWhile Char.isDigit cs
  rw [digitCount, htake]
  refine mem_digits.2 ⟨?_, fun c hc => List.mem_takeWhile_imp hc⟩
  intro hnil
  apply h
  rw [digitCount, hnil, List.length_nil]

/-- No digits at the beginning of a text are longer than those that are counted. -/
theorem le_digitCount {text rest : List Char} (h : text ∈ digits) :
    text.length ≤ digitCount (text ++ rest) :=
  le_length_takeWhile (mem_digits.1 h).2

/-- A fraction is a point with as many digits as there are behind it. -/
theorem exists_of_fractionLength (h : fractionLength cs ≠ 0) :
    ∃ rest, cs = '.' :: rest ∧ digitCount rest ≠ 0 ∧ fractionLength cs = digitCount rest + 1 := by
  unfold fractionLength at h ⊢
  split at h
  next rest =>
    split at h
    next => exact absurd rfl h
    next hrest => exact ⟨rest, rfl, hrest, if_neg hrest⟩
  next => exact absurd rfl h

/-- A point with digits behind it is counted as a fraction. -/
theorem fractionLength_point {text rest : List Char} (h : text ∈ digits) :
    text.length + 1 ≤ fractionLength ('.' :: (text ++ rest)) := by
  have hpos := List.length_pos_iff.2 (mem_digits.1 h).1
  have hle := @le_digitCount text rest h
  have hne : digitCount (text ++ rest) ≠ 0 := by omega
  rw [fractionLength, if_neg hne]
  omega

/-- The number at the start of a text matches the pattern. -/
theorem take_numberLength_mem (h : numberLength cs ≠ 0) :
    cs.take (numberLength cs) ∈ pattern .number := by
  rw [numberLength, List.take_add]
  by_cases hfraction : fractionLength (cs.drop (digitCount cs)) = 0
  · rw [hfraction, List.take_zero, List.append_nil]
    refine mem_number.2 (.inl (take_digitCount_mem ?_))
    intro hzero
    rw [numberLength, hzero] at h
    rw [hzero] at hfraction
    omega
  · obtain ⟨rest, hdrop, hrest, hlength⟩ := exists_of_fractionLength hfraction
    have hwhole : ∀ c ∈ cs.take (digitCount cs), c.isDigit = true := by
      intro c hc
      rw [digitCount, take_length_takeWhile] at hc
      exact List.mem_takeWhile_imp hc
    rw [hlength, hdrop, List.take_succ_cons]
    exact mem_number.2 (.inr ⟨_, _, hwhole, take_digitCount_mem hrest, rfl⟩)

/-- No number at the start of a text is longer than the one that is found. -/
theorem le_numberLength {text rest : List Char} (h : text ∈ pattern .number) :
    text.length ≤ numberLength (text ++ rest) := by
  rcases mem_number.1 h with hdigits | ⟨whole, fraction, hwhole, hfraction, rfl⟩
  · have hle := @le_digitCount text rest hdigits
    unfold numberLength
    omega
  · -- the digits in front of the point end there
    have hcount : digitCount (whole ++ '.' :: (fraction ++ rest)) = whole.length := by
      rw [digitCount, List.takeWhile_append_of_pos hwhole]
      have hpoint : ('.' :: (fraction ++ rest)).takeWhile Char.isDigit = [] := rfl
      rw [hpoint, List.append_nil]
    have hle := @fractionLength_point fraction rest hfraction
    rw [List.append_assoc, List.cons_append, numberLength, hcount, List.drop_left,
      List.length_append, List.length_cons]
    omega

/-- The name that is found matches the pattern. -/
theorem take_nameLength_mem (h : nameLength cs ≠ 0) : cs.take (nameLength cs) ∈ name := by
  cases cs with
  | nil => exact absurd rfl h
  | cons c cs =>
    by_cases hc : isNameStart c = true
    · rw [nameLength, if_pos hc, List.take_succ_cons, take_length_takeWhile]
      exact mem_name.2 ⟨c, _, hc, fun d hd => List.mem_takeWhile_imp hd, rfl⟩
    · rw [nameLength, if_neg hc] at h
      exact absurd rfl h

/-- No name at the beginning of a text is longer than the one that is found. -/
theorem le_nameLength {text rest : List Char} (h : text ∈ name) :
    text.length ≤ nameLength (text ++ rest) := by
  obtain ⟨c, more, hc, hmore, rfl⟩ := mem_name.1 h
  have hle := @le_length_takeWhile _ more rest hmore
  rw [List.cons_append, nameLength, if_pos hc, List.length_cons]
  omega

end Runs

/-! ## Strings -/

section Strings

variable {quote c : Char} {text rest cs : List Char}

/-- A content is empty, or begins with a plain character or with a backslash and another one. -/
theorem mem_content :
    text ∈ content quote ↔ text = [] ∨
      (∃ c rest, (c ≠ quote ∧ c ≠ '\\' ∧ c ≠ '\n') ∧ rest ∈ content quote ∧ text = c :: rest) ∨
      ∃ c rest, c ≠ '\n' ∧ rest ∈ content quote ∧ text = '\\' :: c :: rest := by
  have hsplit := @mem_kstar_iff (oneOf (fun c => c ≠ quote ∧ c ≠ '\\' ∧ c ≠ '\n') +
    {['\\']} * oneOf (· ≠ '\n')) text
  rw [← content, add_mul, mul_assoc, Language.mem_add, mem_oneOf_mul, mem_singleton_mul] at hsplit
  simp only [mem_oneOf_mul, decide_eq_true_eq] at hsplit
  rw [hsplit]
  constructor
  · rintro (h | h | ⟨_, ⟨c, rest, hc, hrest, rfl⟩, rfl⟩)
    · exact .inl h
    · exact .inr (.inl h)
    · exact .inr (.inr ⟨c, rest, hc, hrest, rfl⟩)
  · rintro (h | h | ⟨c, rest, hc, hrest, rfl⟩)
    · exact .inl h
    · exact .inr (.inl h)
    · exact .inr (.inr ⟨c :: rest, ⟨c, rest, hc, hrest, rfl⟩, rfl⟩)

/-- A plain character goes into the content. -/
theorem contentLength_plain (hc : c ≠ quote ∧ c ≠ '\\' ∧ c ≠ '\n') (cs : List Char) :
    contentLength quote (c :: cs) = contentLength quote cs + 1 := by
  cases cs <;> simp [contentLength, hc]

/-- A backslash takes the character behind it into the content. -/
theorem contentLength_escape (hc : c ≠ '\n') (cs : List Char) :
    contentLength quote ('\\' :: c :: cs) = contentLength quote cs + 2 := by
  simp [contentLength, hc]

/-- A content ends at the quote. -/
theorem contentLength_quote (hquote : quote ≠ '\\') (cs : List Char) :
    contentLength quote (quote :: cs) = 0 := by
  cases cs <;> simp [contentLength, hquote]

/-- Behind a content at the start of a text the content goes on. -/
theorem contentLength_append (h : text ∈ content quote) (rest : List Char) :
    contentLength quote (text ++ rest) = text.length + contentLength quote rest := by
  induction hn : text.length using Nat.strong_induction_on generalizing text with
  | _ n ih =>
    rcases mem_content.1 h with rfl | ⟨c, more, hc, hmore, rfl⟩ | ⟨c, more, hc, hmore, rfl⟩
    · simp at hn
      simp [← hn]
    · have hlength : (c :: more).length = more.length + 1 := rfl
      have hle := ih more.length (by omega) hmore rfl
      rw [List.cons_append, contentLength_plain hc, hle]
      omega
    · have hlength : ('\\' :: c :: more).length = more.length + 2 := rfl
      have hle := ih more.length (by omega) hmore rfl
      rw [List.cons_append, List.cons_append, contentLength_escape hc, hle]
      omega

/-- The content at the start of a text matches the pattern. -/
theorem take_contentLength_mem (quote : Char) (cs : List Char) :
    cs.take (contentLength quote cs) ∈ content quote := by
  fun_induction contentLength quote cs
  case case3 c hc =>
    have hplain : c ≠ quote ∧ c ≠ '\\' ∧ c ≠ '\n' := by simpa [not_or] using hc
    exact mem_content.2 (.inr (.inl ⟨c, [], hplain, mem_content.2 (.inl rfl), rfl⟩))
  case case5 d rest hd ih => exact mem_content.2 (.inr (.inr ⟨d, _, hd, ih, rfl⟩))
  case case7 c d rest hslash hc ih =>
    have hplain : c ≠ quote ∧ c ≠ '\\' ∧ c ≠ '\n' :=
      ⟨fun h => hc (.inl h), hslash, fun h => hc (.inr h)⟩
    exact mem_content.2 (.inr (.inl ⟨c, _, hplain, ih, rfl⟩))
  -- in all other cases the content ends at once
  all_goals exact mem_content.2 (.inl rfl)

/-- A string literal matches the pattern of its class. -/
theorem take_stringAfter_mem (hquote : quote = '\'' ∨ quote = '"') {piece : Lexeme} {n : Nat}
    (h : stringAfter quote cs = (piece, n)) : (quote :: cs).take n ∈ piece.pattern := by
  have hcontent := take_contentLength_mem quote cs
  simp only [stringAfter] at h
  split at h
  next hclosed =>
    cases h
    refine mem_string.2 ⟨quote, _, hquote, hcontent, ?_⟩
    obtain ⟨rest, hrest⟩ := List.head?_eq_some_iff.1 hclosed
    rw [List.take_succ_cons, List.take_add, hrest, List.take_succ_cons, List.take_zero]
    rfl
  next =>
    cases h
    exact mem_openString.2 ⟨quote, _, hquote, hcontent, rfl⟩

/-- A literal that is closed is read up to its closing quote. -/
theorem stringAfter_closed (hquote : quote ≠ '\\') (h : text ∈ content quote) (rest : List Char) :
    stringAfter quote (text ++ quote :: rest) = (.string, text.length + 2) := by
  have hlength := contentLength_append h (quote :: rest)
  rw [contentLength_quote hquote, Nat.add_zero] at hlength
  simp only [stringAfter, hlength, List.drop_left, List.head?_cons, if_true]

/-- A literal that is left open is read at least as far, and is closed if it is read further. -/
theorem stringAfter_open (h : text ∈ content quote) (rest : List Char) :
    ∃ piece n, stringAfter quote (text ++ rest) = (piece, n) ∧ text.length + 1 ≤ n ∧
      (n = text.length + 1 → piece = .openString) := by
  have hlength := contentLength_append h rest
  by_cases hclosed : ((text ++ rest).drop (contentLength quote (text ++ rest))).head? = some quote
  · refine ⟨.string, contentLength quote (text ++ rest) + 2, ?_, by omega, by omega⟩
    simp only [stringAfter, if_pos hclosed]
  · refine ⟨.openString, contentLength quote (text ++ rest) + 1, ?_, by omega, fun _ => rfl⟩
    simp only [stringAfter, if_neg hclosed]

end Strings

/-! ## Signs -/

section Signs

variable {c : Char} {text rest cs : List Char} {s : Symbol}

/-- The character starts no word, no string and no variable. -/
def StartsSign (c : Char) : Prop :=
  isNameStart c = false ∧ ¬(c = '\'' ∨ c = '"') ∧ c ≠ '$'

/-- Whether a character starts no word, no string and no variable can be decided. -/
instance (c : Char) : Decidable (StartsSign c) :=
  inferInstanceAs (Decidable (isNameStart c = false ∧ ¬(c = '\'' ∨ c = '"') ∧ c ≠ '$'))

/-- A digit starts no word, no string and no variable. -/
theorem startsSign_of_isDigit (h : c.isDigit = true) : StartsSign c := by
  have hrange : '0'.val ≤ c.val ∧ c.val ≤ '9'.val := by simpa [Char.isDigit] using h
  have hletter : ¬c.isAlpha = true := by
    intro hletter
    -- both sorts of letters lie behind the digits
    rcases Bool.or_eq_true_iff.1 hletter with hupper | hlower
    · have hge : 'A'.val ≤ c.val := (of_decide_eq_true hupper).1
      exact absurd (UInt32.le_trans hge hrange.2) (by decide)
    · have hge : 'a'.val ≤ c.val := of_decide_eq_true (Bool.and_eq_true_iff.1 hlower).1
      exact absurd (UInt32.le_trans hge hrange.2) (by decide)
  refine ⟨?_, ?_, ?_⟩
  · have hunderscore : c ≠ '_' := by
      rintro rfl
      exact absurd h (by decide)
    simp [isNameStart, hletter, hunderscore]
  · rintro (rfl | rfl) <;> exact absurd h (by decide)
  · rintro rfl
    exact absurd h (by decide)

/-- Symbols are spelled by at most two characters. -/
theorem length_spelling_le (h : (text, s) ∈ spellings) : text.length ≤ 2 := by
  have every : ∀ entry ∈ spellings, entry.1.length ≤ 2 := by decide
  exact every _ h

/-- No character of a sign is a digit, or starts something else than a sign. -/
theorem startsSign_of_mem (h : (text, s) ∈ spellings) (hc : c ∈ text) :
    StartsSign c ∧ c.isDigit = false := by
  have every : (spellings.all fun entry => entry.1.all fun c =>
      StartsSign c ∧ c.isDigit = false) = true := by decide
  have hall := List.all_eq_true.1 every _ h
  exact of_decide_eq_true (List.all_eq_true.1 hall c hc)

/-- No two symbols are spelled alike. -/
theorem eq_of_spelling {t : Symbol} (hs : (text, s) ∈ spellings) (ht : (text, t) ∈ spellings) :
    s = t := by
  have every : ∀ a ∈ spellings, ∀ b ∈ spellings, a.1 = b.1 → a.2 = b.2 := by decide
  exact every _ hs _ ht rfl

/-- Longer signs come first among the spellings. -/
theorem pairwise_spellings : spellings.Pairwise fun a b => b.1.length ≤ a.1.length := by decide

/-- The symbol that is found is the first of the list whose spelling stands there. -/
theorem symbol?_eq (cs : List Char) :
    symbol? cs = (spellings.find? fun entry => entry.1.isPrefixOf cs).map fun entry =>
      (.symbol entry.2, entry.1.length) := rfl

/-- The symbol that is found matches the pattern. -/
theorem take_symbol?_mem {piece : Lexeme} {n : Nat} (h : symbol? cs = some (piece, n)) :
    cs.take n ∈ piece.pattern := by
  obtain ⟨⟨spelling, s⟩, hfound, heq⟩ := Option.map_eq_some_iff.1 h
  cases heq
  have hbegins := List.find?_some hfound
  have htake := List.prefix_iff_eq_take.1 (List.isPrefixOf_iff_prefix.1 hbegins)
  have hmem := List.mem_of_find?_eq_some hfound
  show (cs.take spelling.length, s) ∈ spellings
  rw [← htake]
  exact hmem

/-- The sign that is found is no shorter than any other at the start of a text. -/
theorem exists_symbol? (h : (text, s) ∈ spellings) (rest : List Char) :
    ∃ piece n, symbol? (text ++ rest) = some (piece, n) ∧ text.length ≤ n ∧
      (n = text.length → piece = .symbol s) := by
  have hbegins : text.isPrefixOf (text ++ rest) = true :=
    List.isPrefixOf_iff_prefix.2 (List.prefix_append text rest)
  rw [symbol?_eq]
  cases hfind : spellings.find? fun entry => entry.1.isPrefixOf (text ++ rest) with
  | none =>
    have hnone := List.find?_eq_none.1 hfind _ h
    exact absurd hbegins hnone
  | some found =>
    obtain ⟨spelling, t⟩ := found
    obtain ⟨hfound, before, after, hsplit, hbefore⟩ := List.find?_eq_some_iff_append.1 hfind
    have hle : text.length ≤ spelling.length := by
      have hmem := h
      have hpairs := pairwise_spellings
      rw [hsplit] at hmem hpairs
      rcases List.mem_append.1 hmem with hmem | hmem
      · -- all spellings in front of the one that is found are no beginnings of the text
        have hnot : (!text.isPrefixOf (text ++ rest)) = true := hbefore _ hmem
        rw [hbegins] at hnot
        cases hnot
      · rcases List.mem_cons.1 hmem with heq | hmem
        · cases heq
          exact Nat.le_refl _
        · have hlater := (List.pairwise_append.1 hpairs).2.1
          exact List.rel_of_pairwise_cons hlater hmem
    refine ⟨.symbol t, spelling.length, rfl, hle, ?_⟩
    intro hlength
    have htake := List.prefix_iff_eq_take.1 (List.isPrefixOf_iff_prefix.1 hfound)
    rw [hlength, List.take_left] at htake
    have hspelling : spelling = text := htake
    have hmem := List.mem_of_find?_eq_some hfind
    rw [hspelling] at hmem
    rw [eq_of_spelling hmem h]

end Signs

end Lexeme

end Recolor
