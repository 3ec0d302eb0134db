import Recolor.Proofs.ProgramParser

/-!
# The parser makes progress

The tokens that a production leaves over are the last ones of those that it was given, and fewer. So
a parser that moves along a list of tokens, and starts a production at a position of the list, finds
itself at a later position whenever the production answers, and never past the end (`Advances`).
This holds for each level of the grammar of expressions, for what stands in brackets, and for the
productions for statements.

That the levels call each other without consuming a token is harmless: a level calls the one below
it, and only behind an opening bracket does everything start again. `Expr.parseWithin` reads
expressions up to a given depth of such brackets. With as many as there are tokens the bound is
never reached (`Expr.parseWithin_eq`).
-/

set_option autoImplicit false

namespace Recolor

/-! ## Positions -/

section Positions

variable {α : Type} {tokens : List Token} {p : Nat}

/-- At whatever position of the tokens the production answers, it has come to a later one. -/
def Advances {P : List Token → Prop} (tokens : List Token)
    (produce : (ts : List Token) → P ts → Parsed α ts) : Prop :=
  ∀ p bound a rest, produce (tokens.drop p) bound = .ok (a, rest) →
    ∃ q, p < q ∧ q ≤ tokens.length ∧ rest.1 = tokens.drop q

/-- The last of the tokens from some position on are those from a later position on. -/
theorem exists_position {rest : List Token} (hp : p ≤ tokens.length)
    (h : rest <:+ tokens.drop p) :
    ∃ q, p ≤ q ∧ q ≤ tokens.length ∧ rest = tokens.drop q := by
  obtain ⟨pre, hpre⟩ := h
  have hlength := congrArg List.length hpre
  simp only [List.length_append, List.length_drop] at hlength
  refine ⟨p + pre.length, by omega, by omega, ?_⟩
  rw [← List.drop_drop, ← hpre, List.drop_left]

/-- A production that leaves over the last tokens of those it is given advances. -/
theorem advances_of_suffix {P : List Token → Prop}
    {produce : (ts : List Token) → P ts → Parsed α ts}
    (h : ∀ ts a rest, Reads produce ts a rest → rest <:+ ts) : Advances tokens produce := by
  rintro p bound a ⟨rest, less⟩ hread
  have hsuffix := h _ a rest ⟨bound, less, hread⟩
  rw [List.length_drop] at less
  obtain ⟨q, -, hend, hrest⟩ := exists_position (by omega) hsuffix
  rw [hrest, List.length_drop] at less
  exact ⟨q, by omega, hend, hrest⟩

end Positions

/-! ## Expressions -/

namespace Expr

variable {scope : Scope} {n : Nat} {tokens ts rest : List Token} {e : Expr}

/-- The levels of the grammar, from that of the loosest operators to that of operands. -/
def levels (scope : Scope) (nested : Nested n) : List (Level n) :=
  let primary := primary scope nested
  let indexed := indexed scope nested primary
  let signed := signed indexed
  let product := joined scope product? signed
  let sum := joined scope sum? product
  let range := ranged scope sum
  let comparison := compared scope range
  let conjunction := joined scope conjunction? comparison
  [joined scope disjunction? conjunction, conjunction, comparison, range, sum, product, signed,
    indexed, primary]

/-- The first of the levels is the one that expressions are read by. -/
theorem fullLevel_mem_levels (nested : Nested n) :
    fullLevel scope nested ∈ levels scope nested := List.mem_cons_self

/-- Nested expressions are read as the grammar derives them. -/
theorem sound_nest : Sound scope.lengths .disjunction (nest scope n) :=
  fun _ _ _ h => sound_parse (reads_nest.1 h).2

/-- Each level reads what the grammar derives. -/
theorem sound_levels :
    ∀ level ∈ levels scope (nest scope n), ∃ l, Sound scope.lengths l level := by
  have hnested : Sound scope.lengths .disjunction (nest scope n) := sound_nest
  have hprimary := sound_primary hnested
  have hindexed := sound_indexed hnested hprimary
  have hsigned := sound_signed hindexed
  have hproduct := sound_joined (show Nonterminal.product.below? = some _ from rfl)
    recognises_product hsigned
  have hsum := sound_joined (show Nonterminal.sum.below? = some _ from rfl) recognises_sum hproduct
  have hrange := sound_ranged hsum
  have hcomparison := sound_compared hrange
  have hconjunction := sound_joined (show Nonterminal.conjunction.below? = some _ from rfl)
    recognises_conjunction hcomparison
  have hdisjunction := sound_joined (show Nonterminal.disjunction.below? = some _ from rfl)
    recognises_disjunction hconjunction
  simp only [levels, List.forall_mem_cons]
  exact ⟨⟨_, hdisjunction⟩, ⟨_, hconjunction⟩, ⟨_, hcomparison⟩, ⟨_, hrange⟩, ⟨_, hsum⟩,
    ⟨_, hproduct⟩, ⟨_, hsigned⟩, ⟨_, hindexed⟩, ⟨_, hprimary⟩, List.forall_mem_nil _⟩

/-- What a production leaves over is the end of the tokens that it was given, if it reads as the
grammar derives. -/
theorem suffix_of_sound {l : Nonterminal} {P : List Token → Prop}
    {Q : List Token → List Token → Prop}
    {p : (ts : List Token) → P ts → Except Fault (Expr × { rest : List Token // Q ts rest })}
    (hp : Sound scope.lengths l p) (h : Reads p ts e rest) : rest <:+ ts := by
  obtain ⟨pre, hts, -⟩ := hp _ _ _ h
  exact ⟨pre, hts.symm⟩

/-- Each level of operators consumes a token, at any position. -/
theorem advances_levels :
    ∀ level ∈ levels scope (nest scope n), Advances tokens level := by
  intro level hlevel
  obtain ⟨l, hsound⟩ := sound_levels level hlevel
  exact advances_of_suffix fun _ _ _ h => suffix_of_sound hsound h

/-- A nested expression consumes a token, at any position. -/
theorem advances_nest (scope : Scope) : Advances tokens (nest scope n) :=
  advances_of_suffix fun _ _ _ h => suffix_of_sound sound_nest h

/-- What stands between brackets consumes a token, at any position. -/
theorem advances_position (scope : Scope) : Advances tokens (position (nest scope n)) :=
  advances_of_suffix fun _ _ _ h => suffix_of_sound (sound_position sound_nest) h

/-- The elements of a vector consume a token, at any position. -/
theorem advances_elements (scope : Scope) : Advances tokens (elements scope (nest scope n)) := by
  apply advances_of_suffix
  intro ts items rest h
  obtain ⟨pre, close, -, hts, -⟩ := derived_elements sound_nest h
  exact ⟨pre ++ [close], by rw [hts, List.append_assoc]; rfl⟩

/-- A vector consumes a token, at any position. -/
theorem advances_vectorLiteral (scope : Scope) :
    Advances tokens (vectorLiteral scope (nest scope n)) := by
  apply advances_of_suffix
  intro ts e rest h
  cases ts with
  | nil => exact absurd h not_reads_vectorLiteral_nil
  | cons t ts =>
    rcases (reads_vectorLiteral_cons h.1).1 h with ⟨-, -, rfl⟩ | ⟨-, items, hitems, -⟩
    · exact List.suffix_cons t rest
    · obtain ⟨pre, close, -, hts, -⟩ := derived_elements sound_nest hitems
      exact ⟨pre ++ [close], by rw [hts, List.append_assoc]; rfl⟩

/-- An expression is read by the first of the levels. -/
theorem advances_parse (tokens : List Token) (scope : Scope) :
    Advances tokens fun ts (_ : True) => parse scope ts := by
  intro p _ e rest hread
  have hread : parse scope (tokens.drop p) = .ok (e, rest) := hread
  rw [parse] at hread
  exact advances_levels _ (fullLevel_mem_levels _) p (Nat.le_refl _) e rest hread

end Expr

/-! ## Statements -/

section Statements

variable {scope : Scope} {ts rest : List Token}

/-- An assignment consumes a token, at any position. -/
theorem Assignment.advances_parse (tokens : List Token) (scope : Scope) (inBlock : Bool) :
    Advances tokens fun ts (_ : True) => parse scope inBlock ts := by
  apply advances_of_suffix
  rintro ts answer rest ⟨_, h⟩
  obtain ⟨⟨pre, hts, -⟩, -⟩ := yields_parse_iff_spelled.1 h
  exact ⟨pre, hts.symm⟩

/-- A directive consumes a token, at any position. -/
theorem AlphaPolicy.advances_parse (tokens : List Token) (scope : Scope) (first : Token) :
    Advances tokens fun ts (_ : True) => parse scope first ts := by
  apply advances_of_suffix
  rintro ts ⟨policy, span⟩ rest ⟨_, h⟩
  obtain ⟨word, close, hts, -⟩ := yields_parse.1 h
  exact ⟨[word, close], hts.symm⟩

/-- Assignments may be none, so that no token need be consumed. -/
theorem Rule.suffix_assignments {statements : List Assignment}
    (h : Yields (assignments scope ts) statements rest) : rest <:+ ts := by
  obtain ⟨⟨pre, hts, -⟩, -⟩ := yields_assignments_iff_spelled.1 h
  exact ⟨pre, hts.symm⟩

/-- The blocks of a rule consume a token, at any position. -/
theorem Rule.advances_sections (tokens : List Token) (scope : Scope) :
    Advances tokens fun ts (_ : True) => sections scope ts := by
  apply advances_of_suffix
  rintro ts blocks rest ⟨_, h⟩
  obtain ⟨pre, finish, hts, -⟩ := yields_sections_iff_spelled.1 h
  exact ⟨pre ++ [finish], by rw [hts, List.append_assoc]; rfl⟩

/-- A rule consumes a token, at any position. -/
theorem Rule.advances_parse (tokens : List Token) (scope : Scope) :
    Advances tokens fun ts (_ : True) => parse scope ts := by
  apply advances_of_suffix
  rintro ts r rest ⟨_, h⟩
  -- the word in front of the tokens is part of what spells the rule
  let on : Token := ⟨.keyword .on, ⟨.nowhere, .nowhere⟩⟩
  obtain ⟨pre, hts, -⟩ := (yields_parse_iff_spelled (show on.kind = .keyword .on from rfl)).1 h
  cases pre with
  | nil =>
    have hlength := congrArg List.length hts
    have hless : rest.length < ts.length := h.1
    simp only [List.length_cons, List.nil_append] at hlength
    omega
  | cons t pre => exact ⟨pre, (List.cons.inj hts).2.symm⟩

/-- A statement consumes a token, at any position. -/
theorem Statement.advances_parse (tokens : List Token) (finish : Location) (s : ReadState) :
    Advances tokens fun ts (_ : True) => parse finish s ts := by
  apply advances_of_suffix
  rintro ts ⟨statement, next⟩ rest ⟨_, h⟩
  obtain ⟨⟨pre, hts, -⟩, -⟩ := spelled_of_yields_parse h
  exact ⟨pre, hts.symm⟩

end Statements

/-! ## Depth -/

namespace Expr

variable {scope : Scope} {ts : List Token} {depth : Nat}

/-- Reads an expression in which expressions stand inside each other to less than the given depth.
The fault `out` is answered where one stands deeper. -/
def parseWithin (out : Fault) (scope : Scope) : Nat → (ts : List Token) → Parsed Expr ts
  | 0, _ => .error out
  | depth + 1, ts =>
    let n := ts.length
    fullLevel scope (fun inner _less => parseWithin out scope depth inner) ts (Nat.le_refl n)

/-- No expression goes deeper than there are tokens, so the bound on the depth is never felt. -/
theorem parseWithin_eq (out : Fault) (hdepth : ts.length < depth) :
    parseWithin out scope depth ts = parse scope ts := by
  induction depth generalizing ts with
  | zero => omega
  | succ depth ih =>
    have hnested : (fun inner _less => parseWithin out scope depth inner) =
        nest scope ts.length := by
      funext inner less
      exact ih (by omega)
    rw [parseWithin, hnested, parse]
    rfl

end Expr

end Recolor
