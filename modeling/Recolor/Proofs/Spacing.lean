import Recolor.Proofs.LongestMatch
import Recolor.Proofs.PlacelessPrograms

/-!
# Layout does not matter

A script is `Relaid` if the blanks between its tokens, in front of the first and behind the last are
replaced by other ones; between two tokens there have to be blanks in both scripts or in none. Then
both are cut into tokens of the same kinds (`Respaced.cut`), and the parser makes the same of both.

The longest match at some place is found in both scripts (`Lexeme.longest?_relaid`): a string ends
at its quote whatever comes behind it, and all other pieces are free of blanks, so they are found in
the characters up to the next blank, which are the same (`Respaced.untilBlank_eq`).
-/

set_option autoImplicit false

namespace Recolor

open Text

/-! ## Blanks -/

/-- Blanks are spaces, tabulators, carriage returns and line feeds. -/
theorem isBlank_eq_true {c : Char} :
    isBlank c = true ↔ c = ' ' ∨ c = '\t' ∨ c = '\r' ∨ c = '\n' := by
  simp [isBlank, or_assoc]

/-- What passes a test that no blank passes is no blank. -/
theorem isBlank_eq_false_of {p : Char → Bool} (hp : [' ', '\t', '\r', '\n'].any p = false)
    {c : Char} (h : p c = true) : isBlank c = false := by
  rw [← Bool.not_eq_true, isBlank_eq_true]
  rintro (rfl | rfl | rfl | rfl) <;> simp [h] at hp

/-- The characters up to the next blank. -/
def untilBlank (cs : List Char) : List Char := cs.takeWhile fun c => !isBlank c

/-- Nothing stands in front of the first blank of blanks. -/
theorem untilBlank_of_blank {gap : List Char} (hgap : ∀ c ∈ gap, isBlank c = true) :
    untilBlank gap = [] := by
  cases gap with
  | nil => rfl
  | cons c gap =>
    have hc : isBlank c = true := hgap c List.mem_cons_self
    simp [untilBlank, hc]

/-- Nothing stands in front of the first blank of a text that begins with one. -/
theorem untilBlank_blank_append {gap : List Char} (hgap : ∀ c ∈ gap, isBlank c = true)
    (hne : gap ≠ []) (cs : List Char) : untilBlank (gap ++ cs) = [] := by
  have hnil := untilBlank_of_blank hgap
  unfold untilBlank at hnil ⊢
  rw [List.takeWhile_append, hnil, if_neg]
  exact fun h => hne (List.length_eq_zero_iff.1 h.symm)

/-- What stands in front of the first blank is the same behind a common beginning. -/
theorem untilBlank_append_congr {cs cs' : List Char} (h : untilBlank cs = untilBlank cs')
    (text : List Char) : untilBlank (text ++ cs) = untilBlank (text ++ cs') := by
  induction text with
  | nil => exact h
  | cons c text ih =>
    unfold untilBlank at ih ⊢
    rw [List.cons_append, List.cons_append, List.takeWhile_cons, List.takeWhile_cons, ih]

/-- A text is cut at a number of bytes in one way only. -/
theorem append_inj_of_byteLength {xs ys xs' ys' : List Char} (h : xs ++ ys = xs' ++ ys')
    (hlength : byteLength xs = byteLength xs') : xs = xs' ∧ ys = ys' := by
  have hnil : ∀ zs : List Char, byteLength zs = 0 → zs = [] := by
    intro zs hzero
    by_contra hne
    have hpos := byteLength_pos hne
    omega
  rcases List.append_eq_append_iff.1 h with ⟨more, hxs, hys⟩ | ⟨more, hxs, hys⟩
  · rw [hxs, byteLength_append] at hlength
    have hmore := hnil more (by omega)
    rw [hmore] at hxs hys
    exact ⟨by rw [hxs, List.append_nil], hys⟩
  · rw [hxs, byteLength_append] at hlength
    have hmore := hnil more (by omega)
    rw [hmore] at hxs hys
    exact ⟨by rw [hxs, List.append_nil], hys.symm⟩

/-! ## Pieces -/

namespace Lexeme

variable {text rest rest' : List Char} {piece : Lexeme} {n : Nat}

/-- A digit is no blank. -/
theorem not_blank_of_isDigit {c : Char} (h : c.isDigit = true) : isBlank c = false :=
  isBlank_eq_false_of (by decide) h

/-- There are no blanks in a name. -/
theorem not_blank_of_mem_name (h : text ∈ name) : ∀ c ∈ text, isBlank c = false := by
  obtain ⟨c, more, hc, hmore, rfl⟩ := mem_name.1 h
  have hstart : isBlank c = false := isBlank_eq_false_of (by decide) hc
  have hrest : ∀ d ∈ more, isBlank d = false := fun d hd =>
    isBlank_eq_false_of (by decide) (hmore d hd)
  simpa [hstart] using hrest

/-- There are blanks in no piece but in strings. -/
theorem not_blank_of_mem (hstring : piece ≠ .string) (hopen : piece ≠ .openString)
    (h : text ∈ piece.pattern) : ∀ c ∈ text, isBlank c = false := by
  cases piece with
  | number =>
    rcases mem_number.1 h with hdigits | ⟨whole, fraction, hwhole, hfraction, rfl⟩
    · intro c hc
      exact not_blank_of_isDigit ((mem_digits.1 hdigits).2 c hc)
    · intro c hc
      rcases List.mem_append.1 hc with hc | hc
      · exact not_blank_of_isDigit (hwhole c hc)
      · rcases List.mem_cons.1 hc with rfl | hc
        · decide
        · exact not_blank_of_isDigit ((mem_digits.1 hfraction).2 c hc)
  | string => exact absurd rfl hstring
  | openString => exact absurd rfl hopen
  | scalar =>
    obtain ⟨word, hword, rfl⟩ := mem_scalar.1 h
    have hdollar : isBlank '$' = false := by decide
    simpa [hdollar] using not_blank_of_mem_name hword
  | vector =>
    obtain ⟨word, hword, rfl⟩ := mem_vector.1 h
    have hdollar : isBlank '$' = false := by decide
    simpa [hdollar] using not_blank_of_mem_name hword
  | word => exact not_blank_of_mem_name h
  | symbol s =>
    have every : (spellings.all fun entry => entry.1.all fun c => !isBlank c) = true := by decide
    have hall := List.all_eq_true.1 every _ h
    intro c hc
    simpa using List.all_eq_true.1 hall c hc

/-- What begins with a quote is a string, closed or open. -/
theorem piece_of_quote {quote : Char} {cs : List Char} (hquote : quote = '\'' ∨ quote = '"')
    (h : longest? (quote :: cs) = some (piece, n)) : piece = .string ∨ piece = .openString := by
  rw [longest?_quote hquote, stringAfter] at h
  split at h <;> cases h
  · exact .inl rfl
  · exact .inr rfl

/-- A string, closed or open, begins with a quote. -/
theorem head_quote_of_mem {piece : Lexeme} (hpiece : piece = .string ∨ piece = .openString)
    (h : text ∈ piece.pattern) :
    ∃ quote more, (quote = '\'' ∨ quote = '"') ∧ text = quote :: more := by
  rcases hpiece with rfl | rfl
  · obtain ⟨quote, inner, hquote, -, rfl⟩ := mem_string.1 h
    exact ⟨quote, inner ++ [quote], hquote, rfl⟩
  · obtain ⟨quote, inner, hquote, -, rfl⟩ := mem_openString.1 h
    exact ⟨quote, inner, hquote, rfl⟩

/-- The longest piece at some place remains the longest if other blanks stand behind it. An open
string does not: it goes on over the blanks. -/
theorem longest?_relaid (h : longest? (text ++ rest) = some (piece, text.length))
    (hopen : piece ≠ .openString) (hrest : untilBlank rest = untilBlank rest') :
    longest? (text ++ rest') = some (piece, text.length) := by
  have hmatch := longest?_eq_some_iff.1 h
  by_cases hstring : piece = .string
  · subst hstring
    obtain ⟨quote, inner, hquote, hinner, rfl⟩ := mem_string.1 hmatch.mem
    have hslash : quote ≠ '\\' := by rcases hquote with rfl | rfl <;> decide
    rw [List.cons_append, List.cons_append, List.append_assoc, longest?_quote hquote]
    refine congrArg some ((stringAfter_closed hslash hinner rest').trans ?_)
    simp
  · refine longest?_eq_some_iff.2 ⟨List.prefix_append text rest', hmatch.ne_nil, hmatch.mem, ?_⟩
    intro other w hw hother
    obtain ⟨later, hw⟩ := hw
    rcases List.append_eq_append_iff.1 hw with ⟨more, rfl, -⟩ | ⟨more, rfl, hlater⟩
    · simp
    · -- what is longer begins with the same character, so it is no string either
      have hpiece : ¬(other = .string ∨ other = .openString) := by
        intro hcase
        obtain ⟨quote, inner, hquote, hw⟩ := head_quote_of_mem hcase hother
        obtain ⟨c, tail, htext⟩ := List.exists_cons_of_ne_nil hmatch.ne_nil
        rw [htext] at hw h
        obtain ⟨rfl, -⟩ := List.cons.inj hw
        rcases piece_of_quote hquote h with hpiece | hpiece
        · exact hstring hpiece
        · exact hopen hpiece
      have hfree : ∀ c ∈ more, isBlank c = false := fun c hc =>
        not_blank_of_mem (fun h => hpiece (.inl h)) (fun h => hpiece (.inr h)) hother c
          (List.mem_append_right _ hc)
      -- so it ends in front of the next blank, and is found in the other text too
      have huntil : untilBlank rest = more ++ untilBlank later := by
        rw [hrest, hlater, untilBlank, List.takeWhile_append_of_pos (by simpa using hfree)]
        rfl
      have hbegins : more <+: rest := by
        have hprefix : untilBlank rest <+: rest := List.takeWhile_prefix _
        rw [huntil] at hprefix
        exact (List.prefix_append _ _).trans hprefix
      exact hmatch.longest other _ (List.prefix_append_right_inj _ |>.2 hbegins) hother

/-- The kind of a token does not depend on where its text stands. -/
theorem item_relaid {span span' : Span} {t : Token} (h : piece.item text span = .ok t) :
    piece.item text span' = .ok ⟨t.kind, span'⟩ := by
  cases piece with
  | word =>
    simp only [item] at h ⊢
    split at h
    · cases h
      rfl
    · cases h
  | openString => cases h
  | _ =>
    cases h
    rfl

end Lexeme

/-- A token is made in both scripts of the same text. -/
theorem ScriptItem.Made.relaid {text rest rest' : List Char} {span span' : Span} {t : Token}
    (h : Made text rest span (.ok t)) (hrest : untilBlank rest = untilBlank rest') :
    Made text rest' span' (.ok ⟨t.kind, span'⟩) := by
  generalize hi : (Except.ok t : ScriptItem) = i at h
  cases h with
  | @piece _ _ _ piece hlongest =>
    have hopen : piece ≠ .openString := by
      rintro rfl
      cases hi
    rw [← Lexeme.item_relaid hi.symm]
    exact .piece (Lexeme.longest?_relaid hlongest hopen hrest)
  | illegal => cases hi

/-! ## One cut only -/

namespace ScriptItem

variable {text rest text' rest' : List Char} {span span' : Span} {i i' : ScriptItem}

/-- An item is made of as many characters as the longest piece has, or of one. -/
theorem Made.length_eq (h : Made text rest span i) :
    text.length = ((Lexeme.longest? (text ++ rest)).map Prod.snd).getD 1 := by
  cases h with
  | piece h => rw [h, Option.map_some, Option.getD_some]
  | illegal h =>
    rw [List.singleton_append, h, Option.map_none, Option.getD_none, List.length_singleton]

/-- The longest piece decides what item is made. -/
theorem Made.item_eq (h : Made text rest span i) :
    i = ((Lexeme.longest? (text ++ rest)).map (·.1.item text span)).getD
      (.error (Lexeme.illegalCharacter text span)) := by
  cases h with
  | piece h => rw [h, Option.map_some, Option.getD_some]
  | illegal h => rw [List.singleton_append, h, Option.map_none, Option.getD_none]

/-- Of the same characters, items are made of the same text. -/
theorem Made.inj (h : Made text rest span i) (h' : Made text' rest' span' i')
    (heq : text ++ rest = text' ++ rest') : text = text' ∧ rest = rest' := by
  refine List.append_inj heq ?_
  rw [h.length_eq, h'.length_eq, heq]

/-- Of the same text at the same place, one item is made only. -/
theorem Made.unique (h : Made text rest span i) (h' : Made text rest span i') : i = i' := by
  rw [h.item_eq, h'.item_eq]

end ScriptItem

/-- The blanks in front of a text that begins with none are all of its leading blanks. -/
theorem takeWhile_isBlank {gap cs : List Char} (hgap : ∀ c ∈ gap, isBlank c = true)
    (hhead : ∀ c ∈ cs.head?, isBlank c = false) : (gap ++ cs).takeWhile isBlank = gap := by
  rw [List.takeWhile_append_of_pos hgap]
  cases cs with
  | nil => simp
  | cons c cs =>
    have hc : isBlank c = false := hhead c rfl
    simp [hc]

/-- Blanks and what stands behind them are told apart. -/
theorem append_inj_of_isBlank {gap gap' cs cs' : List Char} (hgap : ∀ c ∈ gap, isBlank c = true)
    (hgap' : ∀ c ∈ gap', isBlank c = true) (hhead : ∀ c ∈ cs.head?, isBlank c = false)
    (hhead' : ∀ c ∈ cs'.head?, isBlank c = false) (h : gap ++ cs = gap' ++ cs') :
    gap = gap' ∧ cs = cs' := by
  have hsame : gap = gap' := by
    rw [← takeWhile_isBlank hgap hhead, h, takeWhile_isBlank hgap' hhead']
  rw [hsame] at h
  exact ⟨hsame, List.append_cancel_left h⟩

/-- A text is cut in one way only. -/
theorem Cut.unique {lines : LineIndex} {offset : Nat} {cs : List Char}
    {items items' : List ScriptItem} (h : Cut lines offset cs items)
    (h' : Cut lines offset cs items') : items = items' := by
  induction h generalizing items' with
  | @blank offset gap hgap =>
    generalize hs : gap = s at h'
    cases h' with
    | blank => rfl
    | @item _ gap' text rest i items hgap' hhead hmade hrest =>
      rw [← List.append_nil gap] at hs
      obtain ⟨-, hnil⟩ := append_inj_of_isBlank hgap hgap' (by simp) hhead hs
      exact absurd (List.append_eq_nil_iff.1 hnil.symm).1 hmade.ne_nil
  | @item offset gap text rest i items hgap hhead hmade hrest ih =>
    generalize hs : gap ++ (text ++ rest) = s at h'
    cases h' with
    | blank hblank =>
      rw [← List.append_nil s] at hs
      obtain ⟨-, hnil⟩ := append_inj_of_isBlank hgap hblank hhead (by simp) hs
      exact absurd (List.append_eq_nil_iff.1 hnil).1 hmade.ne_nil
    | @item _ gap' text' rest' i' items' hgap' hhead' hmade' hrest' =>
      obtain ⟨rfl, htext⟩ := append_inj_of_isBlank hgap hgap' hhead hhead' hs
      obtain ⟨rfl, rfl⟩ := hmade.inj hmade' htext
      rw [hmade.unique hmade', ih hrest']

/-! ## Scripts of other layout -/

/-- The tokens of a text that begins at the given offset stand in the other text as well, with
blanks between two of them in both texts or in none. -/
inductive Respaced : Nat → List Token → List Char → List Char → Prop where
  | blank {offset : Nat} {gap gap' : List Char} (hgap : ∀ c ∈ gap, isBlank c = true)
      (hgap' : ∀ c ∈ gap', isBlank c = true) : Respaced offset [] gap gap'
  | token {offset : Nat} {t : Token} {ts : List Token} {gap gap' text rest rest' : List Char}
      (hgap : ∀ c ∈ gap, isBlank c = true) (hgap' : ∀ c ∈ gap', isBlank c = true)
      (hboth : gap = [] ↔ gap' = []) (hstart : t.span.start.offset = offset + byteLength gap)
      (hstop : t.span.stop.offset = offset + byteLength gap + byteLength text)
      (hrest : Respaced (offset + byteLength gap + byteLength text) ts rest rest') :
      Respaced offset (t :: ts) (gap ++ (text ++ rest)) (gap' ++ (text ++ rest'))

/-- The other script comes from the first one by other blanks between its tokens, in front of them
and behind them. -/
def Relaid (source other : String) : Prop :=
  ∃ front front' text text', source.toList = front ++ text ∧ other.toList = front' ++ text' ∧
    (∀ c ∈ front, isBlank c = true) ∧ (∀ c ∈ front', isBlank c = true) ∧
      Respaced (byteLength front) (tokenize source).tokens text text'

/-- Up to the next blank the texts are the same. -/
theorem Respaced.untilBlank_eq {offset : Nat} {ts : List Token} {cs cs' : List Char}
    (h : Respaced offset ts cs cs') : untilBlank cs = untilBlank cs' := by
  induction h with
  | blank hgap hgap' => rw [untilBlank_of_blank hgap, untilBlank_of_blank hgap']
  | @token offset t ts gap gap' text rest rest' hgap hgap' hboth hstart hstop hrest ih =>
    by_cases hnil : gap = []
    · rw [hnil, hboth.1 hnil]
      exact untilBlank_append_congr ih text
    · rw [untilBlank_blank_append hgap hnil, untilBlank_blank_append hgap' (mt hboth.2 hnil)]

/-- Both texts are cut into tokens of the same kinds, if the first one is cut into those given. -/
theorem Respaced.cut {start : Nat} {ts : List Token} {cs cs' : List Char}
    (h : Respaced start ts cs cs') {lines : LineIndex} {offset : Nat} {front front' : List Char}
    (hfront' : ∀ c ∈ front', isBlank c = true) (hstart : start = offset + byteLength front)
    (hfit : offset + byteLength (front ++ cs) ≤ byteLength lines.text)
    (hcut : Cut lines offset (front ++ cs) (ts.map .ok)) (lines' : LineIndex) (offset' : Nat) :
    ∃ us : List Token, Cut lines' offset' (front' ++ cs') (us.map .ok) ∧ SameKinds ts us := by
  induction h generalizing offset offset' front front' with
  | blank hgap hgap' =>
    exact ⟨[], .blank (List.forall_mem_append.2 ⟨hfront', hgap'⟩), .nil⟩
  | @token start t ts gap gap' text rest rest' hgap hgap' hboth hfirst hlast hrest ih =>
    generalize hs : front ++ (gap ++ (text ++ rest)) = s at hfit hcut
    rw [List.map_cons] at hcut
    cases hcut with
    | @item _ blanks piece tail _ _ hblanks hhead hmade htail =>
      -- the token stands where its span says, so the text is split in the same way
      simp only [byteLength_append] at hfit
      obtain ⟨hfrom, hto⟩ := hmade.offsets (by omega) (by omega)
      rw [ScriptItem.span] at hfrom hto
      rw [← List.append_assoc] at hs
      have hblank : byteLength (front ++ gap) = byteLength blanks := by
        rw [byteLength_append]
        omega
      obtain ⟨rfl, htext⟩ := append_inj_of_byteLength hs hblank
      rw [byteLength_append] at hfrom hto
      obtain ⟨rfl, rfl⟩ := append_inj_of_byteLength htext (by omega)
      have hblanks' : ∀ c ∈ front' ++ gap', isBlank c = true :=
        List.forall_mem_append.2 ⟨hfront', hgap'⟩
      have hhead' : ∀ c ∈ (text ++ rest').head?, isBlank c = false := by
        intro c hc
        apply hhead
        rw [List.head?_append_of_ne_nil _ hmade.ne_nil] at hc ⊢
        exact hc
      have hend : start + byteLength gap + byteLength text =
          offset + byteLength (front ++ gap) + byteLength text + byteLength [] := by
        simp only [byteLength_append, byteLength]
        omega
      have hfit' : offset + byteLength (front ++ gap) + byteLength text + byteLength ([] ++ rest) ≤
          byteLength lines.text := by
        rw [List.nil_append]
        omega
      obtain ⟨us, hus, hkinds⟩ := @ih _ [] [] (by simp) hend hfit' htail
        (offset' + byteLength (front' ++ gap') + byteLength text)
      let u : Token := ⟨t.kind, lines'.span (offset' + byteLength (front' ++ gap'))
        (offset' + byteLength (front' ++ gap') + byteLength text)⟩
      refine ⟨u :: us, ?_, .cons rfl hkinds⟩
      rw [← List.append_assoc]
      exact .item hblanks' hhead' (hmade.relaid hrest.untilBlank_eq) hus

namespace Lexed

/-- Items without diagnostics are the tokens among them. -/
theorem eq_map_of_diagnostics {items : List ScriptItem} (h : (ofItems items).diagnostics = []) :
    items = (ofItems items).tokens.map .ok := by
  induction items with
  | nil => rfl
  | cons i items ih =>
    cases i with
    | ok t =>
      have hrest := ih h
      simp only [ofItems, List.map_cons]
      rw [← hrest]
    | error d => cases h

/-- Items that are all tokens have no diagnostics. -/
theorem ofItems_map_ok (ts : List Token) : ofItems (ts.map .ok) = ⟨ts, []⟩ := by
  induction ts with
  | nil => rfl
  | cons t ts ih => simp only [List.map_cons, ofItems, ih]

end Lexed

/-- Layout does not matter. If a script has no diagnostics on its text, a script with other blanks
at the ends and between tokens has none either, and has tokens of the same kinds. The parser reads
the same program from both, or it fails on both with faults that differ in their places at most,
whatever lengths of vectors are known beforehand. -/
theorem agree_of_relaid {source other : String} (hclean : (tokenize source).diagnostics = [])
    (h : Relaid source other) :
    (tokenize other).diagnostics = [] ∧
      SameKinds (tokenize source).tokens (tokenize other).tokens ∧
      ∀ lengths, Agree (fun x y => x.1 = y.1) (Program.parse (tokenize source).tokens lengths)
        (Program.parse (tokenize other).tokens lengths) := by
  obtain ⟨front, front', text, text', hsource, hother, hfront, hfront', hspaced⟩ := h
  have hitems : scriptItems source = (tokenize source).tokens.map .ok :=
    Lexed.eq_map_of_diagnostics hclean
  have hcut := cut_scriptItems source
  rw [hitems, hsource] at hcut
  have hfit : 0 + byteLength (front ++ text) ≤ byteLength (LineIndex.ofString source).text := by
    rw [Nat.zero_add, ← hsource]
    exact Nat.le_refl _
  obtain ⟨us, hus, hkinds⟩ := hspaced.cut hfront' (Nat.zero_add _).symm hfit hcut
    (LineIndex.ofString other) 0
  rw [← hother] at hus
  have hlexed : tokenize other = ⟨us, []⟩ := by
    rw [tokenize, (cut_scriptItems other).unique hus, Lexed.ofItems_map_ok]
  rw [hlexed]
  exact ⟨rfl, hkinds, fun lengths => Program.agree_parse hkinds lengths⟩

/-- A line broken over three, with the semicolon still at its number. -/
theorem agree_of_relaid_lines :
    (tokenize "$a = 1;").diagnostics = [] ∧ Relaid "$a = 1;" "\n$a\t=\r\n1; " ∧
      (tokenize "\n$a\t=\r\n1; ").diagnostics = [] ∧
      SameKinds (tokenize "$a = 1;").tokens (tokenize "\n$a\t=\r\n1; ").tokens ∧
      ∀ lengths, Agree (fun x y => x.1 = y.1) (Program.parse (tokenize "$a = 1;").tokens lengths)
        (Program.parse (tokenize "\n$a\t=\r\n1; ").tokens lengths) := by
  have hclean : (tokenize "$a = 1;").diagnostics = [] := by
    have hempty : (tokenize "$a = 1;").diagnostics.isEmpty = true := by decide +kernel
    exact List.isEmpty_iff.1 hempty
  have hspans : (tokenize "$a = 1;").tokens.map
      (fun t => (t.span.start.offset, t.span.stop.offset)) = [(0, 2), (3, 4), (5, 6), (6, 7)] := by
    decide +kernel
  have hrelaid : Relaid "$a = 1;" "\n$a\t=\r\n1; " := by
    refine ⟨[], ['\n'], ['$', 'a', ' ', '=', ' ', '1', ';'],
      ['$', 'a', '\t', '=', '\r', '\n', '1', ';', ' '], rfl, rfl, by simp, by simp [isBlank], ?_⟩
    generalize (tokenize "$a = 1;").tokens = ts at hspans
    obtain ⟨name, ts, rfl, hname, hspans⟩ := List.map_eq_cons_iff.1 hspans
    obtain ⟨sign, ts, rfl, hsign, hspans⟩ := List.map_eq_cons_iff.1 hspans
    obtain ⟨number, ts, rfl, hnumber, hspans⟩ := List.map_eq_cons_iff.1 hspans
    obtain ⟨close, ts, rfl, hclose, hspans⟩ := List.map_eq_cons_iff.1 hspans
    obtain rfl := List.map_eq_nil_iff.1 hspans
    obtain ⟨h₁, h₂⟩ := Prod.mk.inj hname
    obtain ⟨h₃, h₄⟩ := Prod.mk.inj hsign
    obtain ⟨h₅, h₆⟩ := Prod.mk.inj hnumber
    obtain ⟨h₇, h₈⟩ := Prod.mk.inj hclose
    have hend : Respaced 7 [] [] [' '] := .blank (by simp) (by simp [isBlank])
    have hlast : Respaced 6 [close] ([] ++ ([';'] ++ [])) ([] ++ ([';'] ++ [' '])) :=
      .token (by simp [isBlank]) (by simp [isBlank]) (by simp) h₇ h₈ hend
    have hvalue : Respaced 4 [number, close] ([' '] ++ (['1'] ++ [';']))
        (['\r', '\n'] ++ (['1'] ++ [';', ' '])) :=
      .token (by simp [isBlank]) (by simp [isBlank]) (by simp) h₅ h₆ hlast
    have hequal : Respaced 2 [sign, number, close] ([' '] ++ (['='] ++ [' ', '1', ';']))
        (['\t'] ++ (['='] ++ ['\r', '\n', '1', ';', ' '])) :=
      .token (by simp [isBlank]) (by simp [isBlank]) (by simp) h₃ h₄ hvalue
    have hline : Respaced 0 [name, sign, number, close]
        ([] ++ (['$', 'a'] ++ [' ', '=', ' ', '1', ';']))
        ([] ++ (['$', 'a'] ++ ['\t', '=', '\r', '\n', '1', ';', ' '])) :=
      .token (by simp [isBlank]) (by simp [isBlank]) (by simp) h₁ h₂ hequal
    exact hline
  exact ⟨hclean, hrelaid, agree_of_relaid hclean hrelaid⟩

end Recolor
