import Mathlib.Data.List.DropRight
import Mathlib.Data.Prod.Lex
import Mathlib.Order.Monotone.Basic
import Recolor.Proofs.Pieces

/-!
# Line and column by a scan

A `LineIndex` finds the line of an offset among the precomputed starts of lines, and the column by
counting from there. For an offset between two characters this gives what a scan of the text in
front of it gives (`LineIndex.location_append`): one line more than there are line feeds, and one
column more than there are characters behind the last of them.

The starts ascend, so that those up to an offset are the first ones, and whatever search finds where
they end finds the line (`LineIndex.le_iff_lt_line`).
-/

set_option autoImplicit false

namespace Recolor

namespace Text

/-! ## Bytes in front of a place -/

/-- Behind the bytes of a first character there are those of the others. -/
theorem byteLength_cons_eq_succ (c : Char) (cs : List Char) :
    ∃ n, byteLength (c :: cs) = n + 1 ∧ ¬n + 1 < c.utf8Size ∧
      n + 1 - c.utf8Size = byteLength cs := by
  have hpos := c.utf8Size_pos
  refine ⟨c.utf8Size - 1 + byteLength cs, ?_, ?_, ?_⟩
  · rw [byteLength]
    omega
  · omega
  · omega

/-- Dropping as many bytes as a text in front has leaves what stands behind it. -/
theorem dropBytes?_append (before after : List Char) :
    dropBytes? (before ++ after) (byteLength before) = some after := by
  induction before with
  | nil => cases after <;> rfl
  | cons c before ih =>
    obtain ⟨n, hlength, hfits, hrest⟩ := byteLength_cons_eq_succ c before
    rw [hlength, List.cons_append, dropBytes?, if_neg hfits, hrest, ih]

/-- Taking as many bytes as a text in front has takes that text. -/
theorem takeBytes?_append (before after : List Char) :
    takeBytes? (before ++ after) (byteLength before) = some before := by
  induction before with
  | nil => cases after <;> rfl
  | cons c before ih =>
    obtain ⟨n, hlength, hfits, hrest⟩ := byteLength_cons_eq_succ c before
    rw [hlength, List.cons_append, takeBytes?, if_neg hfits, hrest, ih, Option.map_some]

/-! ## Lines -/

/-- The characters behind the last line feed. -/
def lastLine (text : List Char) : List Char := text.rtakeWhile (· ≠ '\n')

/-- More text without a line break lengthens the last line. -/
theorem lastLine_append {text more : List Char} (h : '\n' ∉ more) :
    lastLine (text ++ more) = lastLine text ++ more := by
  have hall : ∀ c ∈ more.reverse, decide (c ≠ '\n') = true := by
    intro c hc
    refine decide_eq_true ?_
    rintro rfl
    exact h (List.mem_reverse.1 hc)
  simp only [lastLine, List.rtakeWhile, List.reverse_append, List.takeWhile_append_of_pos hall,
    List.reverse_reverse]

/-- In front of the last line there is nothing, or a line feed. -/
theorem exists_lastLine (text : List Char) :
    ∃ lines, text = lines ++ lastLine text ∧ '\n' ∉ lastLine text ∧
      (lines = [] ∨ ∃ more, lines = more ++ ['\n']) := by
  refine ⟨text.rdropWhile (· ≠ '\n'), List.rdropWhile_append_rtakeWhile.symm, fun h => ?_, ?_⟩
  · have hne := List.mem_rtakeWhile_imp h
    simp at hne
  · by_cases hnil : text.rdropWhile (· ≠ '\n') = []
    · exact .inl hnil
    · have hlast := List.rdropWhile_last_not _ text hnil
      have hfeed : (text.rdropWhile (· ≠ '\n')).getLast hnil = '\n' := by simpa using hlast
      have hsplit := List.dropLast_append_getLast hnil
      rw [hfeed] at hsplit
      exact .inr ⟨_, hsplit.symm⟩

end Text

open Text

namespace LineIndex

/-! ## The starts of lines -/

/-- The starts of lines in a text are those in its parts, the second counted on from the first. -/
theorem startsFrom_append (offset : Nat) (before after : List Char) :
    startsFrom offset (before ++ after) =
      startsFrom offset before ++ startsFrom (offset + byteLength before) after := by
  induction before generalizing offset with
  | nil => rfl
  | cons c before ih =>
    by_cases hc : c = '\n'
    · have hsize : c.utf8Size = 1 := by rw [hc]; rfl
      simp only [List.cons_append, startsFrom, if_pos hc, ih, byteLength, hsize, Nat.add_assoc]
    · simp only [List.cons_append, startsFrom, if_neg hc, ih, byteLength, Nat.add_assoc]

/-- There is one more line than line feeds. -/
theorem length_startsFrom (offset : Nat) (text : List Char) :
    (startsFrom offset text).length = text.count '\n' := by
  induction text generalizing offset with
  | nil => rfl
  | cons c text ih =>
    by_cases hc : c = '\n'
    · simp [startsFrom, hc, ih]
    · simp [startsFrom, hc, ih]

/-- Text without a line break starts no line. -/
theorem startsFrom_of_not_mem {text : List Char} (h : '\n' ∉ text) (offset : Nat) :
    startsFrom offset text = [] := by
  rw [← List.length_eq_zero_iff, length_startsFrom, List.count_eq_zero]
  exact h

/-- Lines start behind a line feed, and within the text or at its end. -/
theorem bounds_of_mem_startsFrom {offset start : Nat} {text : List Char}
    (h : start ∈ startsFrom offset text) : offset < start ∧ start ≤ offset + byteLength text := by
  induction text generalizing offset with
  | nil => cases h
  | cons c text ih =>
    have hpos := c.utf8Size_pos
    rw [byteLength]
    by_cases hc : c = '\n'
    · rw [startsFrom, if_pos hc] at h
      rcases List.mem_cons.1 h with rfl | h
      · omega
      · have hrest := ih h
        omega
    · rw [startsFrom, if_neg hc] at h
      have hrest := ih h
      omega

/-- Lines start one behind another. -/
theorem pairwise_startsFrom (offset : Nat) (text : List Char) :
    (startsFrom offset text).Pairwise (· < ·) := by
  induction text generalizing offset with
  | nil => exact .nil
  | cons c text ih =>
    rw [startsFrom]
    split
    · exact .cons (fun start h => (bounds_of_mem_startsFrom h).1) (ih _)
    · exact ih _

/-- The starts of lines are in strictly rising order. -/
theorem pairwise_starts (text : List Char) : (ofText text).starts.Pairwise (· < ·) :=
  .cons (fun _ h => (bounds_of_mem_startsFrom h).1) (pairwise_startsFrom 0 text)

end LineIndex

/-- In an ascending list the numbers up to a bound are the first ones. -/
theorem le_iff_lt_length_takeWhile {xs : List Nat} (h : xs.Pairwise (· < ·)) {k x : Nat}
    (hx : xs[k]? = some x) (bound : Nat) :
    x ≤ bound ↔ k < (xs.takeWhile (· ≤ bound)).length := by
  induction xs generalizing k with
  | nil => simp at hx
  | cons y ys ih =>
    obtain ⟨hy, hys⟩ := List.pairwise_cons.1 h
    by_cases hle : y ≤ bound
    · cases k with
      | zero =>
        obtain rfl : y = x := by simpa using hx
        simp [hle]
      | succ k =>
        have hrest := ih hys (by simpa using hx)
        simpa [hle] using hrest
    · have hlt : y ≤ x := by
        cases k with
        | zero => exact Nat.le_of_eq (by simpa using hx)
        | succ k => exact Nat.le_of_lt (hy x (List.mem_of_getElem? (by simpa using hx)))
      simp only [List.takeWhile_cons, decide_eq_true_eq, if_neg hle, List.length_nil]
      omega

namespace LineIndex

/-! ## Locations -/

/-- The lines up to that of an offset are those that start at the offset or in front of it. -/
theorem le_iff_lt_line {text : List Char} {k start : Nat}
    (h : (ofText text).starts[k]? = some start) (offset : Nat) :
    start ≤ min offset (byteLength text) ↔ k < ((ofText text).location offset).line :=
  le_iff_lt_length_takeWhile (pairwise_starts text) h _

/-- The line in which a text ends starts where its last line does. -/
theorem getLastD_starts {lines : List Char} (h : lines = [] ∨ ∃ more, lines = more ++ ['\n']) :
    (0 :: startsFrom 0 lines).getLastD 0 = byteLength lines := by
  rcases h with rfl | ⟨more, rfl⟩
  · rfl
  · have hstarts : startsFrom 0 (more ++ ['\n']) = startsFrom 0 more ++ [byteLength more + 1] := by
      rw [startsFrom_append, Nat.zero_add]
      rfl
    rw [hstarts, byteLength_append, List.getLastD_cons, List.getLastD_concat]
    rfl

/-- The lines that start up to a place are those that start in the text before it. -/
theorem takeWhile_starts (before after : List Char) :
    (ofText (before ++ after)).starts.takeWhile (· ≤ byteLength before) =
      0 :: startsFrom 0 before := by
  have hsplit : (ofText (before ++ after)).starts =
      (0 :: startsFrom 0 before) ++ startsFrom (byteLength before) after := by
    rw [ofText, startsFrom_append, Nat.zero_add, List.cons_append]
  have hfront : ∀ start ∈ 0 :: startsFrom 0 before, decide (start ≤ byteLength before) = true := by
    intro start hstart
    refine decide_eq_true ?_
    rcases List.mem_cons.1 hstart with rfl | hstart
    · exact Nat.zero_le _
    · have hle := (bounds_of_mem_startsFrom hstart).2
      omega
  have hback : (startsFrom (byteLength before) after).takeWhile (· ≤ byteLength before) = [] := by
    cases hlater : startsFrom (byteLength before) after with
    | nil => rfl
    | cons start later =>
      have hlt := (bounds_of_mem_startsFrom (hlater ▸ List.mem_cons_self)).1
      simp [hlt]
  rw [hsplit, List.takeWhile_append_of_pos hfront, hback, List.append_nil]

/-- The distance of two places in a text is the number of characters between them. -/
theorem distance_append (before between after : List Char) :
    (ofText (before ++ between ++ after)).distance (byteLength before)
      (byteLength (before ++ between)) = between.length := by
  have htext : (ofText (before ++ between ++ after)).text = before ++ (between ++ after) :=
    List.append_assoc ..
  have hrest : byteLength (before ++ between) - byteLength before = byteLength between := by
    rw [byteLength_append]
    omega
  simp only [distance, htext, dropBytes?_append, hrest, Option.bind_some, takeBytes?_append]

/-- The location of a place between two characters is found by a scan of the text before it. -/
theorem location_append (before after : List Char) :
    (ofText (before ++ after)).location (byteLength before) =
      ⟨byteLength before, before.count '\n' + 1, (lastLine before).length + 1⟩ := by
  have hmin : min (byteLength before) (byteLength (before ++ after)) = byteLength before := by
    rw [byteLength_append]
    omega
  obtain ⟨lines, hlines, hfree, hends⟩ := exists_lastLine before
  have hlast : (0 :: startsFrom 0 before).getLastD 0 = byteLength lines := by
    rw [hlines, startsFrom_append, startsFrom_of_not_mem hfree, List.append_nil]
    exact getLastD_starts hends
  have hdistance : (ofText (before ++ after)).distance (byteLength lines) (byteLength before) =
      (lastLine before).length := by
    have hbetween := distance_append lines (lastLine before) after
    rwa [← hlines] at hbetween
  have htext : (ofText (before ++ after)).text = before ++ after := rfl
  simp only [location, htext, hmin, takeWhile_starts, hlast, hdistance, List.length_cons,
    length_startsFrom]

/-! ## Order -/

/-- Further on in a text the line is a later one, or it is the same and the column is greater. -/
theorem scan_lt {before more : List Char} (h : more ≠ []) :
    before.count '\n' < (before ++ more).count '\n' ∨
      before.count '\n' = (before ++ more).count '\n' ∧
        (lastLine before).length < (lastLine (before ++ more)).length := by
  have hmore := List.length_pos_iff.2 h
  rw [List.count_append]
  by_cases hfeed : '\n' ∈ more
  · have hpos := List.count_pos_iff.2 hfeed
    omega
  · rw [List.count_eq_zero.2 hfeed, lastLine_append hfeed, List.length_append]
    omega

/-- Of two places of a text the later one has all that is in front of the earlier one in front of
it, and more. -/
theorem exists_more {before after before' after' : List Char}
    (h : before ++ after = before' ++ after') (hlt : byteLength before < byteLength before') :
    ∃ more, more ≠ [] ∧ before' = before ++ more := by
  rcases List.append_eq_append_iff.1 h with ⟨more, hmore, -⟩ | ⟨more, hmore, -⟩
  · refine ⟨more, ?_, hmore⟩
    rintro rfl
    rw [hmore, List.append_nil] at hlt
    exact Nat.lt_irrefl _ hlt
  · rw [hmore, byteLength_append] at hlt
    omega

/-- Lookup of line and column agrees with a scan of the text. At an offset between two characters
or past the end, the line is one more than there are line feeds in front of it, and the column is
one more than there are characters behind the last of them. The lines are those whose start is not
behind the offset, so that any search that finds where these end finds the line. From one place of
the text to a later one, line and column increase. -/
theorem location_scan (source : String) :
    (∀ offset, IsBoundary source.toList offset ∨ byteLength source.toList ≤ offset →
      ∃ before after, source.toList = before ++ after ∧
        byteLength before = min offset (byteLength source.toList) ∧
        (ofString source).location offset = ⟨min offset (byteLength source.toList),
          before.count '\n' + 1, (lastLine before).length + 1⟩) ∧
    (∀ offset k start, (ofString source).starts[k]? = some start →
      (start ≤ min offset (byteLength source.toList) ↔
        k < ((ofString source).location offset).line)) ∧
    Set.InjOn (ofString source).location {offset | IsBoundary source.toList offset} ∧
    StrictMonoOn (fun offset => toLex (((ofString source).location offset).line,
      ((ofString source).location offset).column)) {offset | IsBoundary source.toList offset} := by
  have hscan : ∀ before after, source.toList = before ++ after →
      (ofString source).location (byteLength before) =
        ⟨byteLength before, before.count '\n' + 1, (lastLine before).length + 1⟩ := by
    intro before after htext
    rw [ofString, htext]
    exact location_append before after
  refine ⟨fun offset hoffset => ?_, fun offset k start hstart => le_iff_lt_line hstart offset,
    fun a ha b hb hab => ?_, fun a ha b hb hab => ?_⟩
  · obtain ⟨before, after, htext, hbefore⟩ : ∃ before after, source.toList = before ++ after ∧
        byteLength before = min offset (byteLength source.toList) := by
      rcases hoffset with ⟨before, after, htext, hbefore⟩ | hend
      · refine ⟨before, after, htext, ?_⟩
        rw [htext, byteLength_append]
        omega
      · exact ⟨source.toList, [], (List.append_nil _).symm, (Nat.min_eq_right hend).symm⟩
    have hclamp : (ofString source).location offset =
        (ofString source).location (byteLength before) := by
      have htext : (ofString source).text = source.toList := rfl
      simp only [location, htext, hbefore, Nat.min_assoc, Nat.min_self]
    refine ⟨before, after, htext, hbefore, ?_⟩
    rw [hclamp, hscan before after htext, hbefore]
  · obtain ⟨before, after, htext, rfl⟩ := ha
    obtain ⟨before', after', htext', rfl⟩ := hb
    rw [hscan before after htext, hscan before' after' htext'] at hab
    exact congrArg Location.offset hab
  · obtain ⟨before, after, htext, rfl⟩ := ha
    obtain ⟨before', after', htext', rfl⟩ := hb
    obtain ⟨more, hmore, rfl⟩ := exists_more (htext.symm.trans htext') hab
    simp only [hscan before after htext, hscan _ after' htext', Prod.Lex.toLex_lt_toLex]
    have hlt := @scan_lt before more hmore
    omega

/-- Behind an empty line and a character of two bytes. -/
theorem location_scan_emptyLine :
    IsBoundary "é\n\nab".toList 5 ∧
      ∃ before after, "é\n\nab".toList = before ++ after ∧ byteLength before = 5 ∧
        (ofString "é\n\nab").location 5 =
          ⟨5, before.count '\n' + 1, (lastLine before).length + 1⟩ := by
  have hplace : IsBoundary "é\n\nab".toList 5 := ⟨['é', '\n', '\n', 'a'], ['b'], rfl, rfl⟩
  have hmin : min 5 (byteLength "é\n\nab".toList) = 5 := by decide
  have hlookup := (location_scan "é\n\nab").1 5 (.inl hplace)
  rw [hmin] at hlookup
  exact ⟨hplace, hlookup⟩

end LineIndex

end Recolor
