import Recolor.Expr.Check
import Recolor.Script.Token

/-!
# The grammar of expressions

`Derives l ts e` is the grammar without a parser: the kinds of tokens `ts` are an expression of
level `l` with the tree `e`. Which operators belong to which level is said by tables (`below?`,
`operator?`), so that the levels that associate to the left share their two rules.

`Expr.WellShaped` says that all nodes of a tree work on shapes that they can work on, as far as
these are known without evaluating anything.
-/

set_option autoImplicit false

namespace Recolor

/-! ## Levels and their operators -/

/-- The levels of the grammar, from that of the loosest operators to that of operands, and what
stands between brackets: the position of an index, and the elements of a vector. -/
inductive Nonterminal where
  | disjunction
  | conjunction
  | comparison
  | range
  | sum
  | product
  | signed
  | indexed
  | primary
  | position
  | elements
deriving DecidableEq, Repr

namespace Nonterminal

/-- The level whose expressions are the operands of a level. -/
def below? : Nonterminal → Option Nonterminal
  | .disjunction => some .conjunction
  | .conjunction => some .comparison
  | .comparison => some .range
  | .range => some .sum
  | .sum => some .product
  | .product => some .signed
  | .signed => some .indexed
  | .indexed => some .primary
  | .primary | .position | .elements => none

/-- What stands between brackets is no level of its own. -/
theorem ne_position_of_below? {l m : Nonterminal} (h : l.below? = some m) : m ≠ .position := by
  rintro rfl
  cases l <;> cases h

/-- The operators of the levels that associate to the left. -/
def operator? : Nonterminal → Symbol → Option BinaryOp
  | .disjunction, .or => some (.connective .or)
  | .disjunction, .xor => some (.connective .xor)
  | .conjunction, .and => some (.connective .and)
  | .sum, .plus => some (.arithmetic .add)
  | .sum, .minus => some (.arithmetic .sub)
  | .product, .star => some (.arithmetic .mul)
  | .product, .slash => some (.arithmetic .div)
  | .product, .percent => some (.arithmetic .mod)
  | _, _ => none

end Nonterminal

namespace TokenKind

/-- The comparisons, none of which chains. -/
def comparison? : TokenKind → Option BinaryOp
  | .symbol .lt => some (.comparison .lt)
  | .symbol .le => some (.comparison .le)
  | .symbol .gt => some (.comparison .gt)
  | .symbol .ge => some (.comparison .ge)
  | .symbol .eq => some (.comparison .eq)
  | .symbol .ne => some (.comparison .ne)
  | .keyword .inWord => some .within
  | _ => Option.none

/-- The prefix signs. -/
def sign? : TokenKind → Option UnaryOp
  | .symbol .minus => some .negate
  | .symbol .tilde => some .invert
  | _ => Option.none

/-- The expression that a token is all by itself. -/
def literal? : TokenKind → Option Expr
  | .number x => some (.number x)
  | .boolean b => some (.boolean b)
  | .none => some .none
  | .variable v => some (.variable v)
  | _ => Option.none

end TokenKind

/-! ## Derivations -/

/-- The kinds of tokens are an expression of a level, or what may stand between brackets, with the
given tree. The parts of a slice may be left out, and its second colon if there is no third part. -/
inductive Derives : Nonterminal → List TokenKind → Expr → Prop where
  | lower {l m : Nonterminal} {ts : List TokenKind} {e : Expr}
      (hm : l.below? = some m) (he : Derives m ts e) : Derives l ts e
  | join {l m : Nonterminal} {s : Symbol} {op : BinaryOp} {ts us : List TokenKind}
      {left right : Expr} (hm : l.below? = some m) (hop : l.operator? s = some op)
      (hleft : Derives l ts left) (hright : Derives m us right) :
      Derives l (ts ++ .symbol s :: us) (.binary op left right)
  | compare {k : TokenKind} {op : BinaryOp} {ts us : List TokenKind} {left right : Expr}
      (hop : k.comparison? = some op) (hleft : Derives .range ts left)
      (hright : Derives .range us right) :
      Derives .comparison (ts ++ k :: us) (.binary op left right)
  | interval {ts us : List TokenKind} {low high : Expr} (hlow : Derives .sum ts low)
      (hhigh : Derives .sum us high) :
      Derives .range (ts ++ .symbol .dotDot :: us) (.range low high false false)
  | tolerance {ts us : List TokenKind} {center tolerance : Expr} (hcenter : Derives .sum ts center)
      (htolerance : Derives .sum us tolerance) :
      Derives .range (ts ++ .symbol .plusMinus :: us)
        (.range (.binary (.arithmetic .sub) center tolerance)
          (.binary (.arithmetic .add) center tolerance) false false)
  | sign {k : TokenKind} {op : UnaryOp} {ts : List TokenKind} {e : Expr} (hop : k.sign? = some op)
      (he : Derives .signed ts e) : Derives .signed (k :: ts) (.unary op e)
  | index {ts us : List TokenKind} {vector position : Expr} (hvector : Derives .indexed ts vector)
      (hposition : Derives .position us position) :
      Derives .indexed (ts ++ .symbol .leftBracket :: (us ++ [.symbol .rightBracket]))
        (.index vector position)
  | literal {k : TokenKind} {e : Expr} (h : k.literal? = some e) : Derives .primary [k] e
  | parenthesised {ts : List TokenKind} {e : Expr} (he : Derives .disjunction ts e) :
      Derives .primary (.symbol .leftParen :: (ts ++ [.symbol .rightParen])) e
  | saturated {ts : List TokenKind} {e : Expr} (he : Derives .disjunction ts e) :
      Derives .primary
        (.symbol .leftParen :: .symbol .or :: (ts ++ [.symbol .or, .symbol .rightParen]))
        (.saturated e)
  | empty : Derives .primary [.symbol .leftBracket, .symbol .rightBracket] (.vector [])
  | vector {ts : List TokenKind} {items : List Expr}
      (hitems : Derives .elements ts (.vector items)) :
      Derives .primary (.symbol .leftBracket :: (ts ++ [.symbol .rightBracket])) (.vector items)
  | element {ts : List TokenKind} {e : Expr} (he : Derives .disjunction ts e) :
      Derives .elements ts (.vector [e])
  | elements {ts us : List TokenKind} {e : Expr} {items : List Expr}
      (he : Derives .disjunction ts e) (hitems : Derives .elements us (.vector items)) :
      Derives .elements (ts ++ .symbol .comma :: us) (.vector (e :: items))
  | place {ts : List TokenKind} {e : Expr} (he : Derives .disjunction ts e) : Derives .position ts e
  | slice {ts us : List TokenKind} {start stop : Option Expr}
      (hts : start = none → ts = []) (hstart : ∀ e, start = some e → Derives .disjunction ts e)
      (hus : stop = none → us = []) (hstop : ∀ e, stop = some e → Derives .disjunction us e) :
      Derives .position (ts ++ .symbol .colon :: us) (.slice start stop none)
  | steppedSlice {ts us vs : List TokenKind} {start stop step : Option Expr}
      (hts : start = none → ts = []) (hstart : ∀ e, start = some e → Derives .disjunction ts e)
      (hus : stop = none → us = []) (hstop : ∀ e, stop = some e → Derives .disjunction us e)
      (hvs : step = none → vs = []) (hstep : ∀ e, step = some e → Derives .disjunction vs e) :
      Derives .position (ts ++ .symbol .colon :: (us ++ .symbol .colon :: vs))
        (.slice start stop step)

/-! ## First tokens -/

/-- The token can stand at the start of an operand. -/
def TokenKind.startsOperand : TokenKind → Bool
  | .symbol .leftParen | .symbol .leftBracket => true
  | k => k.literal?.isSome

/-- The token can stand at the start of an expression. -/
def TokenKind.starts (k : TokenKind) : Bool := k.sign?.isSome || k.startsOperand

/-- No sign stands at the start of an operand. -/
theorem TokenKind.sign?_of_startsOperand {k : TokenKind} (h : k.startsOperand = true) :
    k.sign? = Option.none := by
  unfold startsOperand at h
  split at h
  · rfl
  · rfl
  · unfold literal? at h
    split at h
    · rfl
    · rfl
    · rfl
    · rfl
    · cases h

/-- What comes behind a list does not change how it starts. -/
theorem exists_cons_append {p : TokenKind → Bool} {ts : List TokenKind} (us : List TokenKind)
    (h : ∃ k ms, ts = k :: ms ∧ p k = true) : ∃ k ms, ts ++ us = k :: ms ∧ p k = true := by
  obtain ⟨k, ms, rfl, hk⟩ := h
  exact ⟨k, ms ++ us, rfl, hk⟩

namespace Derives

variable {l : Nonterminal} {ts : List TokenKind} {e : Expr}

/-- The first token of an operand. -/
theorem exists_startsOperand (h : Derives l ts e) (hl : l = .indexed ∨ l = .primary) :
    ∃ k us, ts = k :: us ∧ k.startsOperand = true := by
  induction h with
  | lower hm he ih =>
    refine ih ?_
    rcases hl with rfl | rfl
    · exact .inr (Option.some.inj hm).symm
    · cases hm
  | join hm hop hleft hright ih _ =>
    rcases hl with rfl | rfl <;> cases hop
  | index hvector hposition ih _ => exact exists_cons_append _ (ih (.inl rfl))
  | literal h =>
    refine ⟨_, [], rfl, ?_⟩
    unfold TokenKind.startsOperand
    split
    · rfl
    · rfl
    · simp [h]
  | parenthesised _ _ => exact ⟨_, _, rfl, rfl⟩
  | saturated _ _ => exact ⟨_, _, rfl, rfl⟩
  | empty => exact ⟨_, _, rfl, rfl⟩
  | vector _ _ => exact ⟨_, _, rfl, rfl⟩
  | _ => simp at hl

/-- A token that starts an operand starts an expression. -/
theorem starts_of_startsOperand {k : TokenKind} (h : k.startsOperand = true) :
    k.starts = true := by
  simp [TokenKind.starts, h]

/-- The first token of an expression, or of the elements of a vector. -/
theorem exists_starts (h : Derives l ts e) (hl : l ≠ .position) :
    ∃ k us, ts = k :: us ∧ k.starts = true := by
  induction h with
  | lower hm he ih => exact ih (Nonterminal.ne_position_of_below? hm)
  | join _ _ _ _ ih _ => exact exists_cons_append _ (ih hl)
  | compare _ _ _ ih _ => exact exists_cons_append _ (ih (by decide))
  | interval _ _ ih _ => exact exists_cons_append _ (ih (by decide))
  | tolerance _ _ ih _ => exact exists_cons_append _ (ih (by decide))
  | sign hop _ _ => exact ⟨_, _, rfl, by simp [TokenKind.starts, hop]⟩
  | index hvector hposition _ _ =>
    obtain ⟨k, us, hk, hstarts⟩ :=
      exists_startsOperand (Derives.index hvector hposition) (.inl rfl)
    exact ⟨k, us, hk, starts_of_startsOperand hstarts⟩
  | literal h =>
    obtain ⟨k, us, hk, hstarts⟩ := exists_startsOperand (Derives.literal h) (.inr rfl)
    exact ⟨k, us, hk, starts_of_startsOperand hstarts⟩
  | parenthesised _ _ => exact ⟨_, _, rfl, rfl⟩
  | saturated _ _ => exact ⟨_, _, rfl, rfl⟩
  | empty => exact ⟨_, _, rfl, rfl⟩
  | vector _ _ => exact ⟨_, _, rfl, rfl⟩
  | element _ ih => exact ih (by decide)
  | elements _ _ ih _ => exact exists_cons_append _ (ih (by decide))
  | place _ _ => exact absurd rfl hl
  | slice _ _ _ _ _ _ => exact absurd rfl hl
  | steppedSlice _ _ _ _ _ _ _ _ _ => exact absurd rfl hl

end Derives

/-! ## Shapes -/

/-- All nodes of the tree pass the checks of shapes. -/
inductive Expr.WellShaped (lengths : Lengths) : Expr → Prop where
  | number (x : Number) : WellShaped lengths (.number x)
  | boolean (b : Bool) : WellShaped lengths (.boolean b)
  | none : WellShaped lengths .none
  | variable (v : Variable) : WellShaped lengths (.variable v)
  | binary {op : BinaryOp} {left right : Expr} (hleft : WellShaped lengths left)
      (hright : WellShaped lengths right)
      (hop : checkOperands op (left.shape lengths) (right.shape lengths) = .ok ()) :
      WellShaped lengths (.binary op left right)
  | unary {op : UnaryOp} {operand : Expr} (h : WellShaped lengths operand) :
      WellShaped lengths (.unary op operand)
  | range {min max : Expr} {strictMin strictMax : Bool} (hmin : WellShaped lengths min)
      (hmax : WellShaped lengths max) (hminShape : (min.shape lengths).isVector = false)
      (hmaxShape : (max.shape lengths).isVector = false) :
      WellShaped lengths (.range min max strictMin strictMax)
  | slice {start stop step : Option Expr} (hstart : ∀ e, start = some e → WellShaped lengths e)
      (hstop : ∀ e, stop = some e → WellShaped lengths e)
      (hstep : ∀ e, step = some e → WellShaped lengths e) :
      WellShaped lengths (.slice start stop step)
  | vector {items : List Expr} (h : ∀ e ∈ items, WellShaped lengths e)
      (hshape : ∀ e ∈ items, (e.shape lengths).isVector = false) :
      WellShaped lengths (.vector items)
  | index {vector position : Expr} (hvector : WellShaped lengths vector)
      (hposition : WellShaped lengths position) (hshape : (vector.shape lengths).isVector = true) :
      WellShaped lengths (.index vector position)
  | saturated {inner : Expr} (h : WellShaped lengths inner) : WellShaped lengths (.saturated inner)

namespace Expr

variable {lengths : Lengths}

/-- A shape that is no vector is the plain one. -/
theorem shape_of_isVector_eq_false {e : Expr} (h : (e.shape lengths).isVector = false) :
    e.shape lengths = .plain := by
  cases hs : e.shape lengths with
  | plain => rfl
  | vector n => simp [hs, Shape.isVector] at h

/-- A literal is well shaped, whatever lengths are known. -/
theorem wellShaped_of_literal? {k : TokenKind} {e : Expr} (h : k.literal? = some e) :
    e.WellShaped lengths := by
  unfold TokenKind.literal? at h
  split at h <;> cases h
  · exact .number _
  · exact .boolean _
  · exact .none
  · exact .variable _

/-- The two ends of a tolerance pass their checks if both of its parts do and are no vectors. -/
theorem wellShaped_tolerance {center tolerance : Expr} :
    (Expr.tolerance center tolerance).WellShaped lengths ↔
      (center.WellShaped lengths ∧ tolerance.WellShaped lengths) ∧
        (center.shape lengths).isVector = false ∧ (tolerance.shape lengths).isVector = false := by
  constructor
  · intro h
    cases h with | range hmin hmax hshape hmaxShape
    cases hmin with | binary hcenter htolerance hop
    refine ⟨⟨hcenter, htolerance⟩, ?_⟩
    -- a sum with a vector among its operands is a vector
    simp only [shape] at hshape
    cases hc : center.shape lengths with
    | plain => exact ⟨rfl, by simpa [hc] using hshape⟩
    | vector n => simp [hc, Shape.isVector] at hshape
  · rintro ⟨⟨hcenter, htolerance⟩, hc, ht⟩
    have hcplain := shape_of_isVector_eq_false hc
    have htplain := shape_of_isVector_eq_false ht
    refine .range (.binary hcenter htolerance ?_) (.binary hcenter htolerance ?_) ?_ ?_
    · rw [hcplain, htplain]
      rfl
    · rw [hcplain, htplain]
      rfl
    · simp [shape, hcplain, htplain, Shape.isVector]
    · simp [shape, hcplain, htplain, Shape.isVector]

end Expr

end Recolor
