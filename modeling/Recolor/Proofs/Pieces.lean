import Mathlib.Data.List.TakeWhile
import Recolor.Script.Lexer

/-!
# Scripts are cut into their items

The items of a script lie one behind another in its text, with nothing but blanks in front of the
first, between two of them, and behind the last. `Cut` says so along the run of the lexer: some
blanks, the text of an item, and what is cut from the rest. Every run is such a cut
(`cut_scriptItems`), and the offsets of spans are read off from it: they lie between characters
(`Cut.boundaries`), in the order of the items (`Cut.pairwise`), and leave out blanks only
(`Cut.covered`).
-/

set_option autoImplicit false

namespace Recolor

/-! ## Bytes of a text -/

namespace Text

/-- Texts take as many bytes as their parts. -/
theorem byteLength_append (cs ds : List Char) :
    byteLength (cs ++ ds) = byteLength cs + byteLength ds := by
  induction cs with
  | nil => simp [byteLength]
  | cons c cs ih =>
    have hcons : byteLength (c :: (cs ++ ds)) = c.utf8Size + byteLength (cs ++ ds) := rfl
    rw [List.cons_append, hcons, ih, byteLength, Nat.add_assoc]

/-- A text that is not empty takes bytes. -/
theorem byteLength_pos {cs : List Char} (h : cs ≠ []) : 0 < byteLength cs := by
  cases cs with
  | nil => exact absurd rfl h
  | cons c cs =>
    have hc : 0 < c.utf8Size := c.utf8Size_pos
    simp only [byteLength]
    omega

/-- The offset lies between two characters of the text, or at one of its ends. -/
def IsBoundary (text : List Char) (offset : Nat) : Prop :=
  ∃ before after, text = before ++ after ∧ byteLength before = offset

end Text

open Text

/-- The place of an offset within a text has that offset. -/
theorem LineIndex.offset_location {lines : LineIndex} {offset : Nat}
    (h : offset ≤ byteLength lines.text) : (lines.location offset).offset = offset :=
  Nat.min_eq_left h

/-! ## Lengths of pieces -/

/-- As many characters as pass a test at the beginning are those characters. -/
theorem take_length_takeWhile (p : Char → Bool) (cs : List Char) :
    cs.take (cs.takeWhile p).length = cs.takeWhile p := by
  have htake := @List.take_left _ (cs.takeWhile p) (cs.dropWhile p)
  rwa [List.takeWhile_append_dropWhile] at htake

/-- Behind the characters that pass a test stands the rest. -/
theorem drop_length_takeWhile (p : Char → Bool) (cs : List Char) :
    cs.drop (cs.takeWhile p).length = cs.dropWhile p := by
  have hdrop := @List.drop_left _ (cs.takeWhile p) (cs.dropWhile p)
  rwa [List.takeWhile_append_dropWhile] at hdrop

namespace Lexeme

/-- No more digits are counted than there are characters. -/
theorem digitCount_le (cs : List Char) : digitCount cs ≤ cs.length :=
  (List.takeWhile_sublist _).length_le

/-- A fraction is no longer than the text. -/
theorem fractionLength_le (cs : List Char) : fractionLength cs ≤ cs.length := by
  unfold fractionLength
  split
  · have hdigits := digitCount_le ‹_›
    split
    · omega
    · simpa using hdigits
  · omega

/-- A number is no longer than the text. -/
theorem numberLength_le (cs : List Char) : numberLength cs ≤ cs.length := by
  have hwhole := digitCount_le cs
  have hfraction := fractionLength_le (cs.drop (digitCount cs))
  rw [List.length_drop] at hfraction
  unfold numberLength
  omega

/-- A name is no longer than the text. -/
theorem nameLength_le (cs : List Char) : nameLength cs ≤ cs.length := by
  cases cs with
  | nil => exact Nat.le_refl 0
  | cons c cs =>
    have hrest : (cs.takeWhile isNameRest).length ≤ cs.length :=
      (List.takeWhile_sublist _).length_le
    rw [nameLength, List.length_cons]
    split <;> omega

/-- A content is no longer than the text. -/
theorem contentLength_le (quote : Char) (cs : List Char) : contentLength quote cs ≤ cs.length := by
  fun_induction contentLength quote cs <;> simp only [List.length_cons, List.length_nil] at * <;>
    omega

/-- Text in quotes is no longer than the text and the quote in front of it. -/
theorem length_le_of_stringAfter {quote : Char} {cs : List Char} {piece : Lexeme} {n : Nat}
    (h : stringAfter quote cs = (piece, n)) : n ≤ cs.length + 1 := by
  have hcontent := contentLength_le quote cs
  simp only [stringAfter] at h
  split at h
  next hquote =>
    cases h
    -- the closing quote stands behind the content
    have hdrop : cs.drop (contentLength quote cs) ≠ [] := by
      intro hnil
      rw [hnil] at hquote
      cases hquote
    have hlt := List.length_pos_iff.2 hdrop
    rw [List.length_drop] at hlt
    omega
  next =>
    cases h
    omega

/-- A variable is no longer than the text and the dollar sign in front of it. -/
theorem length_le_of_variableAfter? {cs : List Char} {piece : Lexeme} {n : Nat}
    (h : variableAfter? cs = some (piece, n)) : n ≤ cs.length + 1 := by
  cases cs with
  | nil => cases h
  | cons c rest =>
    have hname := nameLength_le (c :: rest)
    have hrest := nameLength_le rest
    simp only [variableAfter?] at h
    split at h <;> split at h <;> cases h <;> simp only [List.length_cons] at * <;> omega

/-- A symbol is no longer than the text. -/
theorem length_le_of_symbol? {cs : List Char} {piece : Lexeme} {n : Nat}
    (h : symbol? cs = some (piece, n)) : n ≤ cs.length := by
  obtain ⟨⟨spelling, s⟩, hfound, heq⟩ := Option.map_eq_some_iff.1 h
  cases heq
  have hprefix := List.find?_some hfound
  exact (List.isPrefixOf_iff_prefix.1 hprefix).length_le

/-- A piece lies within the text. -/
theorem length_le_of_longest? {cs : List Char} {piece : Lexeme} {n : Nat}
    (h : longest? cs = some (piece, n)) : n ≤ cs.length := by
  cases cs with
  | nil => cases h
  | cons c cs =>
    rw [longest?] at h
    split at h
    · cases h
      exact nameLength_le _
    · split at h
      · exact length_le_of_stringAfter (Option.some.inj h)
      · split at h
        · exact length_le_of_variableAfter? h
        · split at h
          · cases h
            exact numberLength_le _
          · exact length_le_of_symbol? h

end Lexeme

/-! ## Items -/

namespace ScriptItem

/-- The part of the script that an item is about. -/
def span : ScriptItem → Span
  | .ok token => token.span
  | .error diagnostic => diagnostic.span

/-- The item that is made of a text with some rest behind it: that of the longest piece, or the
remark on a character with which no piece starts. -/
inductive Made : List Char → List Char → Span → ScriptItem → Prop where
  | piece {text rest : List Char} {span : Span} {piece : Lexeme}
      (h : Lexeme.longest? (text ++ rest) = some (piece, text.length)) :
      Made text rest span (piece.item text span)
  | illegal {c : Char} {rest : List Char} {span : Span}
      (h : Lexeme.longest? (c :: rest) = none) :
      Made [c] rest span (.error (Lexeme.illegalCharacter [c] span))

variable {text rest : List Char} {span : Span} {i : ScriptItem}

/-- A piece has at least one character. -/
theorem Made.ne_nil (h : Made text rest span i) : text ≠ [] := by
  cases h with
  | piece h =>
    have hpos := Lexeme.length_pos_of_longest? h
    exact List.length_pos_iff.1 hpos
  | illegal h => simp

/-- An item has the span of the piece that it is made of. -/
theorem span_item (piece : Lexeme) (text : List Char) (span : Span) :
    ScriptItem.span (piece.item text span) = span := by
  cases piece with
  | word =>
    simp only [Lexeme.item]
    split <;> rfl
  | _ => rfl

/-- An item that is made of a piece stands where the piece does. -/
theorem Made.span_eq (h : Made text rest span i) : i.span = span := by
  cases h with
  | piece h => exact span_item _ _ _
  | illegal h => rfl

/-- The offsets of the span for which an item is made, unless it lies outside of the script. -/
theorem Made.offsets {lines : LineIndex} {start stop : Nat}
    (h : Made text rest (lines.span start stop) i) (hle : start ≤ stop)
    (hfit : stop ≤ byteLength lines.text) :
    i.span.start.offset = start ∧ i.span.stop.offset = stop := by
  rw [h.span_eq]
  exact ⟨LineIndex.offset_location (Nat.le_trans hle hfit), LineIndex.offset_location hfit⟩

end ScriptItem

/-! ## Cuts -/

/-- The items into which a text is cut that begins at the given offset. -/
inductive Cut (lines : LineIndex) : Nat → List Char → List ScriptItem → Prop where
  | blank {offset : Nat} {gap : List Char} (hgap : ∀ c ∈ gap, isBlank c = true) :
      Cut lines offset gap []
  | item {offset : Nat} {gap text rest : List Char} {i : ScriptItem} {items : List ScriptItem}
      (hgap : ∀ c ∈ gap, isBlank c = true)
      (hhead : ∀ c ∈ (text ++ rest).head?, isBlank c = false)
      (hmade : i.Made text rest (lines.span (offset + byteLength gap)
        (offset + byteLength gap + byteLength text)))
      (hrest : Cut lines (offset + byteLength gap + byteLength text) rest items) :
      Cut lines offset (gap ++ (text ++ rest)) (i :: items)

namespace Cursor

variable {c d : Cursor} {i : ScriptItem}

/-- Skipping blanks goes on behind the characters that are blank. -/
theorem skipBlanks_eq (c : Cursor) :
    c.skipBlanks = ⟨c.lines, c.offset + byteLength (c.rest.takeWhile isBlank),
      c.rest.dropWhile isBlank⟩ := by
  rw [skipBlanks, advance, take_length_takeWhile, drop_length_takeWhile]

/-- Nothing but blanks is left behind the last item. -/
theorem blank_of_next?_eq_none (h : c.next? = none) : ∀ x ∈ c.rest, isBlank x = true := by
  unfold next? at h
  simp only [skipBlanks_eq] at h
  split at h
  next hrest => exact List.dropWhile_eq_nil_iff.1 hrest
  next => split at h <;> cases h

/-- The step of the lexer: it skips blanks, and makes an item of a text behind them. -/
theorem of_next?_eq_some (h : c.next? = some (i, d)) :
    d.lines = c.lines ∧ ∃ gap text, c.rest = gap ++ (text ++ d.rest) ∧
      (∀ x ∈ gap, isBlank x = true) ∧ (∀ x ∈ (text ++ d.rest).head?, isBlank x = false) ∧
      d.offset = c.offset + byteLength gap + byteLength text ∧
      i.Made text d.rest (c.lines.span (c.offset + byteLength gap)
        (c.offset + byteLength gap + byteLength text)) := by
  unfold next? at h
  simp only [skipBlanks_eq] at h
  have hgap : ∀ x ∈ c.rest.takeWhile isBlank, isBlank x = true := fun x hx =>
    List.mem_takeWhile_imp hx
  have hhead : ∀ x ∈ (c.rest.dropWhile isBlank).head?, isBlank x = false := by
    intro x hx
    have hnot := List.head?_dropWhile_not isBlank c.rest
    rw [Option.mem_def.1 hx] at hnot
    exact hnot
  have hrest : c.rest = c.rest.takeWhile isBlank ++ c.rest.dropWhile isBlank :=
    List.takeWhile_append_dropWhile.symm
  generalize c.rest.takeWhile isBlank = gap at *
  generalize c.rest.dropWhile isBlank = tail at *
  split at h
  next => cases h
  next x rest =>
    split at h
    next piece n hlongest =>
      cases h
      have hsplit : (x :: rest).take n ++ (x :: rest).drop n = x :: rest := List.take_append_drop ..
      have hlength : ((x :: rest).take n).length = n := by
        rw [List.length_take]
        exact Nat.min_eq_left (Lexeme.length_le_of_longest? hlongest)
      refine ⟨rfl, gap, (x :: rest).take n, ?_, hgap, ?_, rfl, ?_⟩
      · rw [hrest]
        exact congrArg (gap ++ ·) hsplit.symm
      · simp only [advance, hsplit]
        exact hhead
      · refine .piece ?_
        simp only [advance]
        rw [hsplit, hlength]
        exact hlongest
    next hlongest =>
      cases h
      exact ⟨rfl, gap, [x], hrest, hgap, hhead, rfl, .illegal hlongest⟩

/-- A run of the lexer cuts the text behind its place. -/
theorem cut_items (c : Cursor) : Cut c.lines c.offset c.rest c.items := by
  induction c using items.induct with
  | case1 c hnext =>
    rw [items, hnext]
    exact .blank (blank_of_next?_eq_none hnext)
  | case2 c i d hnext ih =>
    obtain ⟨hlines, gap, text, hrest, hgap, hhead, hoffset, hmade⟩ := of_next?_eq_some hnext
    rw [hlines, hoffset] at ih
    rw [items, hnext, hrest]
    exact .item hgap hhead hmade ih

end Cursor

/-! ## Offsets -/

/-- A character of two lists put together lies in the first or in the second. -/
theorem split_of_append_eq {xs ys before after : List Char} {c : Char}
    (h : xs ++ ys = before ++ c :: after) :
    (∃ rest, xs = before ++ c :: rest) ∨
      ∃ skipped, before = xs ++ skipped ∧ ys = skipped ++ c :: after := by
  rcases List.append_eq_append_iff.1 h with ⟨skipped, hbefore, hys⟩ | ⟨rest, hxs, hafter⟩
  · exact .inr ⟨skipped, hbefore, hys⟩
  · cases rest with
    | nil =>
      rw [List.append_nil] at hxs
      exact .inr ⟨[], by rw [List.append_nil, hxs], hafter.symm⟩
    | cons d rest =>
      obtain ⟨rfl, -⟩ := List.cons.inj hafter
      exact .inl ⟨rest, hxs⟩

namespace Cut

variable {lines : LineIndex} {offset : Nat} {text : List Char} {items : List ScriptItem}
  {i : ScriptItem}

/-- Each item is made of some part of the text, and its span says which. -/
theorem exists_split (h : Cut lines offset text items)
    (hfit : offset + byteLength text ≤ byteLength lines.text) (hi : i ∈ items) :
    ∃ before piece rest, text = before ++ (piece ++ rest) ∧
      (∀ c ∈ (piece ++ rest).head?, isBlank c = false) ∧ i.Made piece rest i.span ∧
      i.span.start.offset = offset + byteLength before ∧
      i.span.stop.offset = offset + byteLength before + byteLength piece := by
  induction h with
  | blank hgap => cases hi
  | @item offset gap text rest first items hgap hhead hmade hrest ih =>
    simp only [byteLength_append] at hfit
    rcases List.mem_cons.1 hi with rfl | hi
    · have hspan := hmade.span_eq
      obtain ⟨hstart, hstop⟩ := hmade.offsets (by omega) (by omega)
      exact ⟨gap, text, rest, rfl, hhead, hspan.symm ▸ hmade, hstart, hstop⟩
    · obtain ⟨before, piece, later, hsplit, hhead, hmade, hstart, hstop⟩ := ih (by omega) hi
      refine ⟨gap ++ (text ++ before), piece, later, ?_, hhead, hmade, ?_, ?_⟩
      · rw [hsplit]
        simp only [List.append_assoc]
      · simp only [hstart, byteLength_append]
        omega
      · simp only [hstop, byteLength_append]
        omega

/-- The span of an item begins and ends between characters, and is not empty. -/
theorem boundaries (h : Cut lines 0 text items) (htext : lines.text = text) (hi : i ∈ items) :
    IsBoundary text i.span.start.offset ∧ IsBoundary text i.span.stop.offset ∧
      i.span.start.offset < i.span.stop.offset := by
  have hfit : 0 + byteLength text ≤ byteLength lines.text := by
    rw [htext]
    omega
  obtain ⟨before, piece, rest, hsplit, -, hmade, hstart, hstop⟩ := h.exists_split hfit hi
  have hpos := byteLength_pos hmade.ne_nil
  refine ⟨⟨before, piece ++ rest, hsplit, by omega⟩, ⟨before ++ piece, rest, ?_, ?_⟩, by omega⟩
  · rw [hsplit, List.append_assoc]
  · rw [byteLength_append]
    omega

/-- An item ends before the next one begins. -/
theorem pairwise (h : Cut lines offset text items)
    (hfit : offset + byteLength text ≤ byteLength lines.text) :
    items.Pairwise fun i j => i.span.stop.offset ≤ j.span.start.offset := by
  induction h with
  | blank hgap => exact .nil
  | @item offset gap text rest first items hgap hhead hmade hrest ih =>
    simp only [byteLength_append] at hfit
    refine .cons ?_ (ih (by omega))
    intro j hj
    obtain ⟨before, -, -, -, -, -, hstart, -⟩ := hrest.exists_split (by omega) hj
    have hstop := (hmade.offsets (by omega) (by omega)).2
    omega

/-- A character that is not blank lies within an item. -/
theorem covered (h : Cut lines offset text items)
    (hfit : offset + byteLength text ≤ byteLength lines.text) {before after : List Char} {c : Char}
    (hc : text = before ++ c :: after) :
    isBlank c = true ∨ ∃ i ∈ items, i.span.start.offset ≤ offset + byteLength before ∧
      offset + byteLength before + c.utf8Size ≤ i.span.stop.offset := by
  induction h generalizing before with
  | blank hgap =>
    left
    apply hgap
    simp [hc]
  | @item offset gap text rest first items hgap hhead hmade hrest ih =>
    simp only [byteLength_append] at hfit
    rcases split_of_append_eq hc with ⟨blanks, hblanks⟩ | ⟨skipped, hbefore, htext⟩
    · left
      apply hgap
      simp [hblanks]
    · rcases split_of_append_eq htext with ⟨more, hpiece⟩ | ⟨passed, hskipped, hpassed⟩
      · -- the character is one of those of which the first item is made
        right
        refine ⟨first, List.mem_cons_self, ?_⟩
        have hlength : byteLength text =
            byteLength skipped + (c.utf8Size + byteLength more) := by
          rw [hpiece, byteLength_append, byteLength]
        obtain ⟨hstart, hstop⟩ := hmade.offsets (by omega) (by omega)
        rw [hbefore, byteLength_append]
        omega
      · rcases ih (by omega) hpassed with hblank | ⟨i, hi, hstart, hstop⟩
        · exact .inl hblank
        · right
          refine ⟨i, List.mem_cons_of_mem _ hi, ?_⟩
          rw [hbefore, hskipped, byteLength_append, byteLength_append]
          omega

end Cut

/-! ## Scripts -/

/-- A script is cut into the pieces of its items. -/
theorem cut_scriptItems (source : String) :
    Cut (LineIndex.ofString source) 0 source.toList (scriptItems source) :=
  (Cursor.start source).cut_items

namespace Lexed

/-- The tokens among some items stand in their order. -/
theorem sublist_tokens (items : List ScriptItem) :
    ((ofItems items).tokens.map Except.ok).Sublist items := by
  induction items with
  | nil => exact .slnil
  | cons i items ih =>
    cases i with
    | ok t => exact ih.cons_cons _
    | error d => exact ih.cons _

/-- The diagnostics among some items stand in their order. -/
theorem sublist_diagnostics (items : List ScriptItem) :
    ((ofItems items).diagnostics.map Except.error).Sublist items := by
  induction items with
  | nil => exact .slnil
  | cons i items ih =>
    cases i with
    | ok t => exact ih.cons _
    | error d => exact ih.cons_cons _

/-- Tokens and diagnostics together are the items. -/
theorem perm_ofItems (items : List ScriptItem) :
    ((ofItems items).tokens.map Except.ok ++
      (ofItems items).diagnostics.map Except.error).Perm items := by
  induction items with
  | nil => exact .nil
  | cons i items ih =>
    cases i with
    | ok t => exact ih.cons _
    | error d => exact List.perm_middle.trans (ih.cons _)

end Lexed

/-- Cutting a script into items loses nothing and invents nothing. The spans of the items begin and
end between characters, are not empty, and follow one another without overlap; a character outside
of them is blank. The tokens and the diagnostics of the script are its items, each in their
order. -/
theorem scriptItems_spans (source : String) :
    (∀ i ∈ scriptItems source, IsBoundary source.toList i.span.start.offset ∧
      IsBoundary source.toList i.span.stop.offset ∧
      i.span.start.offset < i.span.stop.offset) ∧
    (scriptItems source).Pairwise (fun i j => i.span.start.offset < j.span.start.offset ∧
      i.span.stop.offset ≤ j.span.start.offset) ∧
    (∀ before c after, source.toList = before ++ c :: after →
      isBlank c = true ∨ ∃ i ∈ scriptItems source,
        i.span.start.offset ≤ byteLength before ∧
          byteLength before + c.utf8Size ≤ i.span.stop.offset) ∧
    ((tokenize source).tokens.map Except.ok).Sublist (scriptItems source) ∧
    ((tokenize source).diagnostics.map Except.error).Sublist (scriptItems source) ∧
    ((tokenize source).tokens.map Except.ok ++
      (tokenize source).diagnostics.map Except.error).Perm (scriptItems source) := by
  have hcut := cut_scriptItems source
  have hfit : 0 + byteLength source.toList ≤ byteLength (LineIndex.ofString source).text :=
    Nat.le_of_eq (Nat.zero_add _)
  have hbounds : ∀ i ∈ scriptItems source, IsBoundary source.toList i.span.start.offset ∧
      IsBoundary source.toList i.span.stop.offset ∧
      i.span.start.offset < i.span.stop.offset := by
    intro i hi
    exact hcut.boundaries rfl hi
  refine ⟨hbounds, ?_, ?_, Lexed.sublist_tokens _, Lexed.sublist_diagnostics _,
    Lexed.perm_ofItems _⟩
  · apply (hcut.pairwise hfit).imp_of_mem
    intro i j hi hj hij
    have hlt := (hbounds i hi).2.2
    exact ⟨by omega, hij⟩
  · intro before c after hc
    simpa using hcut.covered hfit hc

end Recolor
