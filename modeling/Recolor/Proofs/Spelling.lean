import Recolor.Proofs.LineScan
import Recolor.Proofs.Spacing

/-!
# Tokens are read as they are spelled

A text `Spells` a kind of token if it matches the pattern of a class of pieces and stands for a
token of the kind. Where a blank or the end stands behind it, such a text is the longest piece at
its place (`Lexeme.longest?_of_mem`), so that texts with single blanks between them are read as the
tokens they spell (`Spells.cut`).

Any content of a string can be spelled: `Text.literal` writes a backslash in front of each backslash
and each quote, and a line feed as an escape. What is written so is a content between quotes
(`Text.mem_content_escape`), and reading resolves the escapes again (`Text.unescape_escape`). Hence
a literal is read as one token, with the string for its content (`tokenize_literal`).
-/

set_option autoImplicit false

namespace Recolor

open Text

/-! ## Spelled tokens -/

/-- A text that matches a pattern is the longest piece if a blank stands behind it, or nothing. -/
theorem Lexeme.longest?_of_mem {piece : Lexeme} {text rest : List Char} (h : text ∈ piece.pattern)
    (hopen : piece ≠ .openString) (hrest : untilBlank rest = []) :
    longest? (text ++ rest) = some (piece, text.length) := by
  obtain ⟨found, n, hfound, hle, hsame⟩ := exists_longest? h []
  have hge := length_le_of_longest? hfound
  rw [List.append_nil] at hge
  have hlength : n = text.length := Nat.le_antisymm hge hle
  rw [hsame hlength, hlength] at hfound
  exact longest?_relaid hfound hopen hrest.symm

/-- The text matches a pattern, and it stands for a token of the kind. -/
def Spells (text : List Char) (kind : TokenKind) : Prop :=
  ∃ piece : Lexeme, text ∈ piece.pattern ∧ ∀ span, piece.item text span = .ok ⟨kind, span⟩

namespace Spells

variable {text rest : List Char} {kind : TokenKind}

/-- In front of a blank, or of the end, a text that spells a token is made into that token. -/
theorem made (h : Spells text kind) (hrest : untilBlank rest = []) (span : Span) :
    ScriptItem.Made text rest span (.ok ⟨kind, span⟩) := by
  obtain ⟨piece, hmem, hitem⟩ := h
  have hopen : piece ≠ .openString := by
    rintro rfl
    cases hitem span
  rw [← hitem span]
  exact .piece (Lexeme.longest?_of_mem hmem hopen hrest)

/-- What is spelled does not begin with a blank. -/
theorem head_not_blank (h : Spells text kind) (rest : List Char) :
    ∀ c ∈ (text ++ rest).head?, isBlank c = false := by
  have hmade : ScriptItem.Made text [] ⟨.nowhere, .nowhere⟩ (.ok ⟨kind, ⟨.nowhere, .nowhere⟩⟩) :=
    h.made rfl _
  obtain ⟨piece, hmem, -⟩ := h
  obtain ⟨c, more, rfl⟩ := List.exists_cons_of_ne_nil hmade.ne_nil
  rintro _ ⟨⟩
  by_cases hstring : piece = .string ∨ piece = .openString
  · obtain ⟨quote, inner, hquote, heq⟩ := Lexeme.head_quote_of_mem hstring hmem
    cases heq
    rcases hquote with rfl | rfl <;> decide
  · have hfree := Lexeme.not_blank_of_mem (mt .inl hstring) (mt .inr hstring) hmem
    exact hfree c List.mem_cons_self

/-- A text that spells a token is read as this token. -/
theorem cut_single (h : Spells text kind) (lines : LineIndex) (offset : Nat) :
    Cut lines offset text [.ok ⟨kind, lines.span offset (offset + byteLength text)⟩] := by
  have hcut : Cut lines offset ([] ++ (text ++ []))
      [.ok ⟨kind, lines.span offset (offset + byteLength text)⟩] :=
    .item (by simp) (h.head_not_blank []) (h.made rfl _) (.blank (by simp))
  rwa [List.nil_append, List.append_nil] at hcut

/-- Spelled tokens with single blanks between them are read one after another. -/
theorem cut {kinds : List TokenKind} (h : ∀ kind ∈ kinds, Spells kind.text.toList kind)
    (lines : LineIndex) (offset : Nat) {gap : List Char} (hgap : ∀ c ∈ gap, isBlank c = true) :
    ∃ ts : List Token, ts.map Token.kind = kinds ∧
      Cut lines offset (gap ++ [' '].intercalate (kinds.map (·.text.toList))) (ts.map .ok) := by
  induction kinds generalizing offset gap with
  | nil => exact ⟨[], rfl, .blank (by simpa using hgap)⟩
  | cons kind kinds ih =>
    have hkind : Spells kind.text.toList kind := h kind List.mem_cons_self
    let start := offset + byteLength gap
    let stop := start + byteLength kind.text.toList
    -- behind the first token there is nothing, or a blank and the other tokens
    obtain ⟨rest, ts, hkinds, htext, hrest, hcut⟩ : ∃ (rest : List Char) (ts : List Token),
        ts.map Token.kind = kinds ∧
        [' '].intercalate ((kind :: kinds).map (·.text.toList)) = kind.text.toList ++ rest ∧
        untilBlank rest = [] ∧ Cut lines stop rest (ts.map .ok) := by
      cases kinds with
      | nil => exact ⟨[], [], rfl, by simp, rfl, .blank (by simp)⟩
      | cons next later =>
        have hblank : ∀ c ∈ [' '], isBlank c = true := by simp [isBlank]
        obtain ⟨ts, hkinds, hcut⟩ := ih (fun k hk => h k (List.mem_cons_of_mem _ hk)) stop hblank
        refine ⟨_, ts, hkinds, ?_, rfl, hcut⟩
        rw [List.map_cons, List.map_cons, List.intercalate_cons_cons, List.append_assoc]
    rw [htext]
    exact ⟨⟨kind, lines.span start stop⟩ :: ts, by rw [List.map_cons, hkinds],
      .item hgap (hkind.head_not_blank rest) (hkind.made hrest _) hcut⟩

end Spells

/-- A script that is cut into tokens only has these tokens and no diagnostics. -/
theorem tokenize_of_cut {source : String} {ts : List Token}
    (h : Cut (LineIndex.ofString source) 0 source.toList (ts.map .ok)) :
    tokenize source = ⟨ts, []⟩ := by
  rw [tokenize, (cut_scriptItems source).unique h, Lexed.ofItems_map_ok]

/-! ## String literals -/

namespace Text

/-- A character as it is written between two quotes. -/
def escapeChar (quote c : Char) : List Char :=
  if c = '\\' then ['\\', '\\']
  else if c = quote then ['\\', quote]
  else if c = '\n' then ['\\', 'n']
  else [c]

/-- The content of a string as it is written between two quotes. -/
def escape (quote : Char) (content : List Char) : List Char := content.flatMap (escapeChar quote)

/-- The literal of a string. -/
def literal (quote : Char) (s : String) : String :=
  String.ofList (quote :: escape quote s.toList ++ [quote])

variable {quote : Char}

/-- The characters that a literal can stand between. -/
theorem facts_of_quote (hquote : quote = '\'' ∨ quote = '"') :
    quote ≠ '\\' ∧ quote ≠ '\n' ∧ Lexeme.escaped quote = quote := by
  rcases hquote with rfl | rfl <;> decide

/-- A backslash escapes the character behind it. -/
theorem unescape_backslash (c : Char) (cs : List Char) :
    Lexeme.unescape ('\\' :: c :: cs) = Lexeme.escaped c :: Lexeme.unescape cs := by
  rw [Lexeme.unescape, if_pos rfl]

/-- A character other than the backslash stands for itself. -/
theorem unescape_plain {c : Char} (hc : c ≠ '\\') (cs : List Char) :
    Lexeme.unescape (c :: cs) = c :: Lexeme.unescape cs := by
  cases cs <;> simp [Lexeme.unescape, hc]

/-- A character is written as itself or as an escape that stands for it. -/
theorem escapeChar_cases (hquote : quote = '\'' ∨ quote = '"') (c : Char) :
    (∃ d, escapeChar quote c = ['\\', d] ∧ d ≠ '\n' ∧ Lexeme.escaped d = c) ∨
      escapeChar quote c = [c] ∧ c ≠ quote ∧ c ≠ '\\' ∧ c ≠ '\n' := by
  obtain ⟨-, hfeed, hquoted⟩ := facts_of_quote hquote
  by_cases hslash : c = '\\'
  · exact .inl ⟨'\\', by rw [escapeChar, if_pos hslash], by decide, by rw [hslash]; rfl⟩
  · by_cases hc : c = quote
    · exact .inl ⟨quote, by rw [escapeChar, if_neg hslash, if_pos hc], hfeed, hc ▸ hquoted⟩
    · by_cases hline : c = '\n'
      · refine .inl ⟨'n', ?_, by decide, by rw [hline]; rfl⟩
        rw [escapeChar, if_neg hslash, if_neg hc, if_pos hline]
      · refine .inr ⟨?_, hc, hslash, hline⟩
        rw [escapeChar, if_neg hslash, if_neg hc, if_neg hline]

/-- What is written between the quotes is a content: it does not end before the closing quote. -/
theorem mem_content_escape (hquote : quote = '\'' ∨ quote = '"') (content : List Char) :
    escape quote content ∈ Lexeme.content quote := by
  induction content with
  | nil => exact Lexeme.mem_content.2 (.inl rfl)
  | cons c content ih =>
    refine Lexeme.mem_content.2 (.inr ?_)
    rw [escape, List.flatMap_cons]
    rcases escapeChar_cases hquote c with ⟨d, hchar, hd, -⟩ | ⟨hchar, hplain⟩
    · exact .inr ⟨d, _, hd, ih, by rw [hchar]; rfl⟩
    · exact .inl ⟨c, _, hplain, ih, by rw [hchar]; rfl⟩

/-- Reading resolves what was escaped in writing. -/
theorem unescape_escape (hquote : quote = '\'' ∨ quote = '"') (content : List Char) :
    Lexeme.unescape (escape quote content) = content := by
  induction content with
  | nil => rfl
  | cons c content ih =>
    rw [escape, List.flatMap_cons]
    rcases escapeChar_cases hquote c with ⟨d, hchar, -, hd⟩ | ⟨hchar, -, hslash, -⟩
    · rw [hchar, List.cons_append, List.singleton_append, unescape_backslash, hd, ← escape, ih]
    · rw [hchar, List.singleton_append, unescape_plain hslash, ← escape, ih]

end Text

section Literals

variable {quote : Char}

/-- A literal spells a token for the string. -/
theorem spells_literal (hquote : quote = '\'' ∨ quote = '"') (s : String) :
    Spells (literal quote s).toList (.string s) := by
  have htext : (literal quote s).toList = quote :: escape quote s.toList ++ [quote] :=
    String.toList_ofList
  refine ⟨.string, ?_, fun span => ?_⟩
  · exact Lexeme.mem_string.2 ⟨quote, _, hquote, mem_content_escape hquote s.toList, htext⟩
  · have hinner : ((literal quote s).toList.drop 1).dropLast = escape quote s.toList := by
      simp [htext]
    rw [Lexeme.item, hinner, unescape_escape hquote, String.ofList_toList]

/-- A literal stands on one line. -/
theorem lineFeed_not_mem_literal (hquote : quote = '\'' ∨ quote = '"') (s : String) :
    '\n' ∉ (literal quote s).toList := by
  obtain ⟨-, hfeed, -⟩ := facts_of_quote hquote
  have hescape : '\n' ∉ escape quote s.toList := by
    rw [escape, List.mem_flatMap]
    rintro ⟨c, -, hc⟩
    rcases escapeChar_cases hquote c with ⟨d, hchar, hd, -⟩ | ⟨hchar, -, -, hline⟩
    · rw [hchar] at hc
      simp [hd.symm] at hc
    · rw [hchar] at hc
      exact hline (List.mem_singleton.1 hc).symm
  simp [literal, hescape, hfeed.symm]

/-- Every string has a literal between either sort of quotes. It is read as one token, with the
string for its content, that spans the whole text and leaves nothing to remark on. -/
theorem tokenize_literal (hquote : quote = '\'' ∨ quote = '"') (s : String) :
    tokenize (literal quote s) =
      ⟨[⟨.string s, ⟨0, 1, 1⟩, ⟨byteLength (literal quote s).toList, 1,
        (literal quote s).toList.length + 1⟩⟩], []⟩ := by
  have hspells := spells_literal hquote s
  have hline := lineFeed_not_mem_literal hquote s
  have hindex : LineIndex.ofString (literal quote s) = .ofText (literal quote s).toList := rfl
  generalize htext : (literal quote s).toList = text at hspells hline hindex ⊢
  have hstart : (LineIndex.ofText text).location 0 = ⟨0, 1, 1⟩ := LineIndex.location_append [] text
  have hstop : (LineIndex.ofText text).location (byteLength text) =
      ⟨byteLength text, 1, text.length + 1⟩ := by
    have hplace := LineIndex.location_append text []
    have hlast : lastLine text = text := @lastLine_append [] text hline
    rw [List.append_nil, List.count_eq_zero.2 hline, hlast] at hplace
    exact hplace
  have hcut := hspells.cut_single (LineIndex.ofText text) 0
  rw [Nat.zero_add, LineIndex.span, hstart, hstop] at hcut
  have htokens : Cut (LineIndex.ofString (literal quote s)) 0 (literal quote s).toList
      ([⟨.string s, ⟨0, 1, 1⟩, ⟨byteLength text, 1, text.length + 1⟩⟩].map .ok) := by
    rw [hindex, htext]
    exact hcut
  exact tokenize_of_cut htokens

/-- A string with a backslash, a line feed, both sorts of quotes and a character of two bytes. -/
theorem tokenize_literal_mixed :
    ('\'' = '\'' ∨ '\'' = '"') ∧ literal '\'' "\\it's\n\"é\"" = "'\\\\it\\'s\\n\"é\"'" ∧
      tokenize "'\\\\it\\'s\\n\"é\"'" =
        ⟨[⟨.string "\\it's\n\"é\"", ⟨0, 1, 1⟩, ⟨15, 1, 15⟩⟩], []⟩ := by
  have hliteral : literal '\'' "\\it's\n\"é\"" = "'\\\\it\\'s\\n\"é\"'" := by decide
  have hread := tokenize_literal (.inl rfl) "\\it's\n\"é\""
  rw [hliteral] at hread
  exact ⟨.inl rfl, hliteral, hread⟩

end Literals

end Recolor
