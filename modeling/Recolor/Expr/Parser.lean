import Recolor.Expr.Check

/-!
# Reading expressions

The grammar, lowest precedence first; all operators of one level associate to the left, but
comparisons and ranges do not chain:

* `|` and `^`, then `&`
* one of `<`, `<=`, `>`, `>=`, `==`, `!=` and `in`
* one of `..` and `+-`
* `+` and `-`, then `*`, `/` and `%`
* the prefix signs `-` and `~`
* an index `[position]` or `[start:stop:step]` behind an operand
* literals, variables, `( )`, `(| |)` and `[ , ]`

A production takes the tokens at hand and answers what it read with the tokens left over, which
are fewer (`Rest`). Every level is a function of the level below it, and `Expr.parse` ties the knot:
nested expressions are read from strictly fewer tokens.
-/

set_option autoImplicit false

namespace Recolor

/-- What is left of tokens after at least one of them was read. -/
abbrev Rest (ts : List Token) := { rest : List Token // rest.length < ts.length }

/-- What is left of tokens after any number of them was read. -/
abbrev RestOrAll (ts : List Token) := { rest : List Token // rest.length ≤ ts.length }

/-- The tokens behind the first. -/
abbrev Rest.tail (t : Token) (rest : List Token) : Rest (t :: rest) :=
  ⟨rest, Nat.lt_succ_self _⟩

/-- All tokens, none having been read. -/
abbrev RestOrAll.all (ts : List Token) : RestOrAll ts := ⟨ts, Nat.le_refl _⟩

/-- What a production reads, and the tokens behind it. -/
abbrev Parsed (α : Type) (ts : List Token) := Except Fault (α × Rest ts)

/-- What the grammar has to know about the place at which it reads: the lengths of the vectors in
sight, and where the script ends. -/
structure Scope where
  lengths : Lengths
  finish : Location

/-- A production for expressions on up to `n` tokens. -/
abbrev Level (n : Nat) := (ts : List Token) → ts.length ≤ n → Parsed Expr ts

/-- A production for expressions on fewer than `n` tokens. -/
abbrev Nested (n : Nat) := (ts : List Token) → ts.length < n → Parsed Expr ts

/-- The fault of a script that ends too early. -/
def Scope.endOfScript (scope : Scope) (expected : Expected) : Fault :=
  .grammar (.endOfScript expected) scope.finish

/-- The fault of a token at which something else is needed. -/
def Token.unexpected (t : Token) (expected : Expected) : Fault :=
  .grammar (.unexpected t.kind expected) t.span.start

/-- The next token is the given sign. -/
def nextIs (s : Symbol) : List Token → Bool
  | [] => false
  | t :: _ => t.kind.isSymbol s

/-- Reads the given sign. -/
def expectSymbol (scope : Scope) (s : Symbol) (expected : Expected) :
    (ts : List Token) → Parsed Unit ts
  | [] => .error (scope.endOfScript expected)
  | t :: rest =>
    if t.kind.isSymbol s then .ok ((), .tail t rest) else .error (t.unexpected expected)

namespace Expr

/-- The operator of the lowest level at the head of tokens. In `|)` the sign closes a saturation. -/
def disjunction? (t : Token) (rest : List Token) : Option BinaryOp :=
  match t.kind with
  | .symbol .or => if nextIs .rightParen rest then Option.none else some (.connective .or)
  | .symbol .xor => some (.connective .xor)
  | _ => Option.none

/-- The operator `&` at the head of tokens. -/
def conjunction? (t : Token) (_ : List Token) : Option BinaryOp :=
  match t.kind with
  | .symbol .and => some (.connective .and)
  | _ => Option.none

/-- The comparison operator that a token is. -/
def comparison? (t : Token) : Option BinaryOp :=
  match t.kind with
  | .symbol .lt => some (.comparison .lt)
  | .symbol .le => some (.comparison .le)
  | .symbol .gt => some (.comparison .gt)
  | .symbol .ge => some (.comparison .ge)
  | .symbol .eq => some (.comparison .eq)
  | .symbol .ne => some (.comparison .ne)
  | .keyword .inWord => some .within
  | _ => Option.none

/-- The node builder of a range operator that a token is. -/
def rangeOperator? (t : Token) : Option (Expr → Expr → Expr) :=
  match t.kind with
  | .symbol .dotDot => some fun low high => .range low high false false
  | .symbol .plusMinus => some tolerance
  | _ => Option.none

/-- The additive operator at the head of tokens. -/
def sum? (t : Token) (_ : List Token) : Option BinaryOp :=
  match t.kind with
  | .symbol .plus => some (.arithmetic .add)
  | .symbol .minus => some (.arithmetic .sub)
  | _ => Option.none

/-- The multiplicative operator at the head of tokens. -/
def product? (t : Token) (_ : List Token) : Option BinaryOp :=
  match t.kind with
  | .symbol .star => some (.arithmetic .mul)
  | .symbol .slash => some (.arithmetic .div)
  | .symbol .percent => some (.arithmetic .mod)
  | _ => Option.none

/-- The operator that a prefix sign is. -/
def prefixSign? (t : Token) : Option UnaryOp :=
  match t.kind with
  | .symbol .minus => some .negate
  | .symbol .tilde => some .invert
  | _ => Option.none

section Levels

variable (scope : Scope) {n : Nat}

/-- Reads operators of one level with their right operands, as long as there are any, and builds
the tree from the left. -/
def chain (operator? : Token → List Token → Option BinaryOp) (operand : Level n) (left : Expr) :
    (ts : List Token) → ts.length ≤ n → Except Fault (Expr × RestOrAll ts)
  | [], _ => .ok (left, .all [])
  | t :: rest, bound =>
    match operator? t rest with
    | Option.none => .ok (left, .all (t :: rest))
    | some op => do
      have bound' : rest.length ≤ n := by simp only [List.length_cons] at bound; omega
      let (right, ⟨after, less⟩) ← operand rest bound'
      let node ← binary? scope.lengths op left right
      let (tree, ⟨final, le⟩) ← chain operator? operand node after (by omega)
      return (tree, ⟨final, by simp only [List.length_cons]; omega⟩)
termination_by ts => ts.length

/-- Operands of the level below joined by operators of one level. -/
def joined (operator? : Token → List Token → Option BinaryOp) (operand : Level n) : Level n :=
  fun ts bound => do
    let (left, ⟨after, less⟩) ← operand ts bound
    let (tree, ⟨final, le⟩) ← chain scope operator? operand left after (by omega)
    return (tree, ⟨final, by omega⟩)

/-- One comparison, or an operand of the level below. -/
def compared (operand : Level n) : Level n :=
  fun ts bound => do
    let (left, ⟨after, less⟩) ← operand ts bound
    match after, less with
    | [], less => return (left, ⟨[], less⟩)
    | t :: rest, less =>
      match comparison? t with
      | Option.none => return (left, ⟨t :: rest, less⟩)
      | some op =>
        have bound' : rest.length < ts.length := by simp only [List.length_cons] at less; omega
        let (right, ⟨final, less'⟩) ← operand rest (by omega)
        if let some next := final.head? then
          if (comparison? next).isSome then
            throw (.grammar .chainedComparison next.span.start)
        let node ← binary? scope.lengths op left right
        return (node, ⟨final, by omega⟩)

/-- One range, or an operand of the level below. The ends of a range are no vectors. -/
def ranged (operand : Level n) : Level n :=
  fun ts bound => do
    let (left, ⟨after, less⟩) ← operand ts bound
    match after, less with
    | [], less => return (left, ⟨[], less⟩)
    | t :: rest, less =>
      match rangeOperator? t with
      | Option.none => return (left, ⟨t :: rest, less⟩)
      | some build =>
        have bound' : rest.length < ts.length := by simp only [List.length_cons] at less; omega
        let (right, ⟨final, less'⟩) ← operand rest (by omega)
        if (left.shape scope.lengths).isVector || (right.shape scope.lengths).isVector then
          throw (.type .vectorRangeBound)
        return (build left right, ⟨final, by omega⟩)

/-- Prefix signs in front of an operand of the level below. -/
def signed (operand : Level n) : Level n
  | [], bound => operand [] bound
  | t :: rest, bound =>
    match prefixSign? t with
    | Option.none => operand (t :: rest) bound
    | some op => do
      have bound' : rest.length ≤ n := by simp only [List.length_cons] at bound; omega
      let (inner, ⟨after, less⟩) ← signed operand rest bound'
      return (.unary op inner, ⟨after, by simp only [List.length_cons]; omega⟩)

/-- An expression, unless the next token is one of the given signs. -/
def optional (nested : Nested n) (stops : List Symbol) (ts : List Token) (bound : ts.length < n) :
    Except Fault (Option Expr × RestOrAll ts) :=
  if stops.any (nextIs · ts) then .ok (Option.none, .all ts)
  else do
    let (e, ⟨after, less⟩) ← nested ts bound
    return (some e, ⟨after, by omega⟩)

/-- The tokens behind a colon, if that is the next token. -/
def afterColon? : (ts : List Token) → Option (Rest ts)
  | [] => Option.none
  | t :: rest => if t.kind.isSymbol .colon then some (.tail t rest) else Option.none

/-- The part of a slice behind its first colon. -/
def sliceTail (nested : Nested n) (start : Option Expr) (ts : List Token) (bound : ts.length < n) :
    Except Fault (Expr × RestOrAll ts) := do
  let (stop, ⟨after, le⟩) ← optional nested [.colon, .rightBracket] ts bound
  match afterColon? after with
  | Option.none => return (.slice start stop Option.none, ⟨after, le⟩)
  | some ⟨rest, less⟩ =>
    let (step, ⟨final, le'⟩) ← optional nested [.rightBracket] rest (by omega)
    return (.slice start stop step, ⟨final, by omega⟩)

/-- What stands between the brackets of an index: an expression or a slice. -/
def position (nested : Nested n) (ts : List Token) (bound : ts.length < n) : Parsed Expr ts :=
  match afterColon? ts with
  | some ⟨rest, less⟩ => do
    let (tail, ⟨final, le⟩) ← sliceTail nested Option.none rest (by omega)
    return (tail, ⟨final, by omega⟩)
  | Option.none => do
    let (start, ⟨after, less⟩) ← nested ts bound
    match afterColon? after with
    | Option.none => return (start, ⟨after, less⟩)
    | some ⟨rest, less'⟩ =>
      let (tail, ⟨final, le⟩) ← sliceTail nested (some start) rest (by omega)
      return (tail, ⟨final, by omega⟩)

/-- Indices behind an operand. -/
def indices (nested : Nested n) (operand : Expr) :
    (ts : List Token) → ts.length ≤ n → Except Fault (Expr × RestOrAll ts)
  | [], _ => .ok (operand, .all [])
  | t :: rest, bound =>
    if t.kind.isSymbol .leftBracket then do
      have bound' : rest.length < n := by simp only [List.length_cons] at bound; omega
      let (place, ⟨after, less⟩) ← position nested rest bound'
      let ((), ⟨closed, less'⟩) ← expectSymbol scope .rightBracket (.symbol .rightBracket) after
      let node ← index? scope.lengths operand place
      let (tree, ⟨final, le⟩) ← indices nested node closed (by omega)
      return (tree, ⟨final, by simp only [List.length_cons]; omega⟩)
    else .ok (operand, .all (t :: rest))
termination_by ts => ts.length

/-- An operand of the level below with any number of indices. -/
def indexed (nested : Nested n) (operand : Level n) : Level n :=
  fun ts bound => do
    let (e, ⟨after, less⟩) ← operand ts bound
    let (tree, ⟨final, le⟩) ← indices scope nested e after (by omega)
    return (tree, ⟨final, by omega⟩)

/-- The elements of a vector literal, of which there is at least one, up to the closing bracket. -/
def elements (nested : Nested n) (ts : List Token) (bound : ts.length < n) :
    Parsed (List Expr) ts := do
  let (e, ⟨after, less⟩) ← nested ts bound
  if (e.shape scope.lengths).isVector then throw (.type .nestedVector)
  match after, less with
  | [], _ => throw (scope.endOfScript .itemEnd)
  | t :: rest, less =>
    have less' : rest.length < ts.length := by simp only [List.length_cons] at less; omega
    if t.kind.isSymbol .comma then
      let (more, ⟨final, less''⟩) ← elements nested rest (by omega)
      return (e :: more, ⟨final, by omega⟩)
    else if t.kind.isSymbol .rightBracket then return ([e], ⟨rest, less'⟩)
    else throw (t.unexpected .itemEnd)
termination_by ts.length

/-- A vector literal behind its opening bracket. -/
def vectorLiteral (nested : Nested n) (ts : List Token) (bound : ts.length < n) :
    Parsed Expr ts :=
  match ts with
  | [] => do
    let (items, rest) ← elements scope nested [] bound
    return (.vector items, rest)
  | t :: rest =>
    if t.kind.isSymbol .rightBracket then .ok (.vector [], .tail t rest)
    else do
      let (items, final) ← elements scope nested (t :: rest) bound
      return (.vector items, final)

/-- What stands between parentheses, behind the opening one: an expression, or a saturated
expression between bars. -/
def parenthesised (nested : Nested n) (ts : List Token) (bound : ts.length < n) :
    Parsed Expr ts :=
  match ts with
  | [] => do
    let (e, ⟨after, less⟩) ← nested [] bound
    let ((), ⟨final, less'⟩) ← expectSymbol scope .rightParen (.symbol .rightParen) after
    return (e, ⟨final, by omega⟩)
  | t :: rest =>
    if t.kind.isSymbol .or then do
      have bound' : rest.length < n := by simp only [List.length_cons] at bound; omega
      let (e, ⟨after, less⟩) ← nested rest bound'
      let ((), ⟨barred, less'⟩) ← expectSymbol scope .or .saturationEnd after
      let ((), ⟨final, less''⟩) ← expectSymbol scope .rightParen (.symbol .rightParen) barred
      return (.saturated e, ⟨final, by simp only [List.length_cons]; omega⟩)
    else do
      let (e, ⟨after, less⟩) ← nested (t :: rest) bound
      let ((), ⟨final, less'⟩) ← expectSymbol scope .rightParen (.symbol .rightParen) after
      return (e, ⟨final, by omega⟩)

/-- A literal, a variable, or an expression in parentheses or brackets. -/
def primary (nested : Nested n) : Level n
  | [], _ => .error (scope.endOfScript .expression)
  | t :: rest, bound =>
    have bound' : rest.length < n := by simp only [List.length_cons] at bound; omega
    match t.kind with
    | .number x => .ok (.number x, .tail t rest)
    | .boolean b => .ok (.boolean b, .tail t rest)
    | .none => .ok (.none, .tail t rest)
    | .variable v => .ok (.variable v, .tail t rest)
    | .symbol .leftParen => do
      let (e, ⟨final, less⟩) ← parenthesised scope nested rest bound'
      return (e, ⟨final, by simp only [List.length_cons]; omega⟩)
    | .symbol .leftBracket => do
      let (e, ⟨final, less⟩) ← vectorLiteral scope nested rest bound'
      return (e, ⟨final, by simp only [List.length_cons]; omega⟩)
    | .string _ => .error (.grammar .stringInExpression t.span.start)
    | _ => .error (t.unexpected .expression)

/-- All levels of the grammar, given how nested expressions are read. -/
def fullLevel (nested : Nested n) : Level n :=
  let operand := signed (indexed scope nested (primary scope nested))
  let sums := joined scope sum? (joined scope product? operand)
  let comparisons := compared scope (ranged scope sums)
  joined scope disjunction? (joined scope conjunction? comparisons)

end Levels

/-- Reads an expression from the start of tokens. -/
def parse (scope : Scope) (ts : List Token) : Parsed Expr ts :=
  fullLevel scope (fun inner _less => parse scope inner) ts (Nat.le_refl _)
termination_by ts.length

end Expr

/-- The end of the last token. -/
def endLocation (ts : List Token) : Location :=
  match ts.getLast? with
  | some t => t.span.stop
  | none => .nowhere

/-- Reads an expression that takes up all tokens, no vector lengths being known. -/
def parseExpression (ts : List Token) : Except Fault Expr := do
  let (e, rest) ← Expr.parse ⟨[], endLocation ts⟩ ts
  match rest.val with
  | [] => return e
  | t :: _ => throw (t.unexpected .expressionEnd)

end Recolor
