import Mathlib.Data.List.Forall2
import Recolor.Proofs.Outcome
import Recolor.Script.Parser

/-!
# The parser does not depend on places

Two lists of tokens have the `SameKinds` if they differ at most in where their tokens stand. A
production reads the same from both and leaves tokens of the same kinds over, or it fails on both
with faults that differ at most in their places: the outcomes `Agree`. Productions agree if those
that they are made of do (`Agree.bind`), level by level up to expressions (`Expr.agree_parse`) and
from there up to programs (`Program.agree_parse`).

What the parser knows besides the tokens, the lengths of vectors, has to be the same; the place at
which the script ends need not be.
-/

set_option autoImplicit false

namespace Recolor

/-! ## Faults without their places -/

/-- The fault with its place in the script forgotten. -/
def Fault.unplaced : Fault → Fault
  | .lexical cause _ advice => .lexical cause .nowhere advice
  | .grammar cause _ => .grammar cause .nowhere
  | fault => fault

/-- Both outcomes are answers which the relation holds of, or both are faults that differ in
their places at most. -/
inductive Agree {α β : Type} (R : α → β → Prop) : Except Fault α → Except Fault β → Prop where
  | ok {a : α} {b : β} (h : R a b) : Agree R (.ok a) (.ok b)
  | error {e f : Fault} (h : e.unplaced = f.unplaced) : Agree R (.error e) (.error f)

section Agree

variable {α β γ δ : Type} {R : α → β → Prop} {S : γ → δ → Prop}

/-- Outcomes agree one after another. -/
theorem Agree.bind {x : Except Fault α} {y : Except Fault β} {f : α → Except Fault γ}
    {g : β → Except Fault δ} (h : Agree R x y) (hnext : ∀ a b, R a b → Agree S (f a) (g b)) :
    Agree S (x >>= f) (y >>= g) := by
  cases h with
  | ok hab => exact hnext _ _ hab
  | error hfault => exact .error hfault

/-- Outcomes agree behind one and the same step. -/
theorem Agree.step (x : Except Fault α) {f : α → Except Fault γ} {g : α → Except Fault δ}
    (hnext : ∀ a, Agree S (f a) (g a)) : Agree S (x >>= f) (x >>= g) := by
  cases x with
  | ok a => exact hnext a
  | error e => exact .error rfl

end Agree

/-! ## Tokens without their places -/

/-- Tokens of the same kinds one after another, wherever they stand. -/
abbrev SameKinds : List Token → List Token → Prop := List.Forall₂ fun t u => t.kind = u.kind

/-- The same is read, as far as the relation tells, and the tokens behind it have the same
kinds. -/
inductive SameRead {α β : Type} {P Q : List Token → Prop} (R : α → β → Prop) :
    α × { rest : List Token // P rest } → β × { rest : List Token // Q rest } → Prop where
  | intro {a : α} {b : β} {rest final : List Token} {hrest : P rest} {hfinal : Q final}
      (h : R a b) (hkinds : SameKinds rest final) :
      SameRead R (a, ⟨rest, hrest⟩) (b, ⟨final, hfinal⟩)

/-- Two productions read the same from tokens of the same kinds. -/
def ReadAlike {α : Type} {P P' : List Token → Prop} {Q Q' : List Token → List Token → Prop}
    (p : (ts : List Token) → P ts → Except Fault (α × { rest : List Token // Q ts rest }))
    (q : (ts : List Token) → P' ts → Except Fault (α × { rest : List Token // Q' ts rest })) :
    Prop :=
  ∀ ts us hts hus, SameKinds ts us → Agree (SameRead Eq) (p ts hts) (q us hus)

/-- Outcomes agree behind productions that read the same. -/
theorem Agree.behind {α γ δ : Type} {P P' : List Token → Prop} {S : γ → δ → Prop}
    {x : Except Fault (α × { rest : List Token // P rest })}
    {y : Except Fault (α × { rest : List Token // P' rest })}
    {f : α × { rest : List Token // P rest } → Except Fault γ}
    {g : α × { rest : List Token // P' rest } → Except Fault δ}
    (h : Agree (SameRead Eq) x y)
    (hnext : ∀ a rest rest' hrest hrest', SameKinds rest rest' →
      Agree S (f (a, ⟨rest, hrest⟩)) (g (a, ⟨rest', hrest'⟩))) :
    Agree S (x >>= f) (y >>= g) := by
  refine h.bind ?_
  rintro ⟨a, rest, hrest⟩ ⟨_, rest', hrest'⟩ ⟨rfl, hkinds⟩
  exact hnext a rest rest' hrest hrest' hkinds

section Tokens

variable {t u : Token} {ts us : List Token} {scope scope' : Scope}

/-- Unexpected tokens of one kind are reported alike, but for their places. -/
theorem unplaced_unexpected (h : t.kind = u.kind) (expected : Expected) :
    (t.unexpected expected).unplaced = (u.unexpected expected).unplaced := by
  simp only [Token.unexpected, Fault.unplaced, h]

/-- The end of a script is reported alike, wherever it is. -/
theorem unplaced_endOfScript (scope scope' : Scope) (expected : Expected) :
    (scope.endOfScript expected).unplaced = (scope'.endOfScript expected).unplaced := rfl

/-- Whether a symbol comes next depends on the kinds of tokens. -/
theorem nextIs_eq (h : SameKinds ts us) (s : Symbol) : nextIs s ts = nextIs s us := by
  cases h with
  | nil => rfl
  | cons ht hrest => simp only [nextIs, ht]

/-- A symbol is expected alike of tokens of the same kinds. -/
theorem agree_expectSymbol (scope scope' : Scope) (s : Symbol) (expected : Expected)
    (h : SameKinds ts us) :
    Agree (SameRead Eq) (expectSymbol scope s expected ts) (expectSymbol scope' s expected us) := by
  cases h with
  | nil => exact .error (unplaced_endOfScript scope scope' expected)
  | cons ht hrest =>
    simp only [expectSymbol, ht]
    split
    · exact .ok ⟨rfl, hrest⟩
    · exact .error (unplaced_unexpected ht expected)

end Tokens

namespace Expr

/-! ## Operators -/

section Levels

variable {scope scope' : Scope} {n m : Nat} {operand : Level n} {operand' : Level m}
  {nested : Nested n} {nested' : Nested m}

/-- The operators of a level are found by kinds. -/
def ByKinds (operator? : Token → List Token → Option BinaryOp) : Prop :=
  ∀ t u ts us, t.kind = u.kind → SameKinds ts us → operator? t ts = operator? u us

/-- Disjunctions are told by the kinds of tokens. -/
theorem byKinds_disjunction? : ByKinds disjunction? := by
  intro t u ts us ht h
  simp only [disjunction?, ht, nextIs_eq h]

/-- Conjunctions are told by the kinds of tokens. -/
theorem byKinds_conjunction? : ByKinds conjunction? := by
  intro t u ts us ht h
  simp only [conjunction?, ht]

/-- Sums are told by the kinds of tokens. -/
theorem byKinds_sum? : ByKinds sum? := by
  intro t u ts us ht h
  simp only [sum?, ht]

/-- Products are told by the kinds of tokens. -/
theorem byKinds_product? : ByKinds product? := by
  intro t u ts us ht h
  simp only [product?, ht]

/-- A chain goes on where it finds an operator, which it does in both lists or in none. -/
theorem readAlike_chain {operator? : Token → List Token → Option BinaryOp}
    (hscope : scope.lengths = scope'.lengths) (hop : ByKinds operator?)
    (hoperand : ReadAlike operand operand') (left : Expr) :
    ReadAlike (chain scope operator? operand left) (chain scope' operator? operand' left) := by
  intro ts
  induction hk : ts.length using Nat.strongRecOn generalizing left ts with
  | ind k ih =>
    intro us hts hus h
    cases h with
    | nil =>
      rw [chain, chain]
      exact .ok ⟨rfl, .nil⟩
    | @cons t u rest rest' ht hrest =>
      rw [chain, chain, hop t u rest rest' ht hrest]
      cases operator? u rest' with
      | none => exact .ok ⟨rfl, .cons ht hrest⟩
      | some op =>
        refine (hoperand _ _ _ _ hrest).behind ?_
        intro right after after' hless hless' hafter
        have hlt : after.length < k := by
          rw [← hk, List.length_cons]
          omega
        rw [hscope]
        refine .step _ fun node => ?_
        exact (ih _ hlt node after rfl _ _ _ hafter).behind fun _ _ _ _ _ hfinal =>
          .ok ⟨rfl, hfinal⟩

/-- Operators that associate to the left are read alike if their operands are. -/
theorem readAlike_joined {operator? : Token → List Token → Option BinaryOp}
    (hscope : scope.lengths = scope'.lengths) (hop : ByKinds operator?)
    (hoperand : ReadAlike operand operand') :
    ReadAlike (joined scope operator? operand) (joined scope' operator? operand') := by
  intro ts us hts hus h
  refine (hoperand _ _ _ _ h).behind ?_
  intro left after after' hless hless' hafter
  exact (readAlike_chain hscope hop hoperand left _ _ _ _ hafter).behind fun _ _ _ _ _ hfinal =>
    .ok ⟨rfl, hfinal⟩

/-- A comparison is told by the kind of its sign. -/
theorem comparison?_eq {t u : Token} (h : t.kind = u.kind) : comparison? t = comparison? u := by
  simp only [comparison?, h]

/-- A range is told by the kind of its sign. -/
theorem rangeOperator?_eq {t u : Token} (h : t.kind = u.kind) :
    rangeOperator? t = rangeOperator? u := by
  simp only [rangeOperator?, h]

/-- A sign in front of an operand is told by its kind. -/
theorem prefixSign?_eq {t u : Token} (h : t.kind = u.kind) : prefixSign? t = prefixSign? u := by
  simp only [prefixSign?, h]

/-- Comparisons are read alike if their operands are. -/
theorem readAlike_compared (hscope : scope.lengths = scope'.lengths)
    (hoperand : ReadAlike operand operand') :
    ReadAlike (compared scope operand) (compared scope' operand') := by
  intro ts us hts hus h
  refine (hoperand _ _ _ _ h).behind ?_
  intro left after after' hless hless' hafter
  cases hafter with
  | nil => exact .ok ⟨rfl, .nil⟩
  | cons ht hrest =>
    dsimp only
    rw [comparison?_eq ht]
    split
    next => exact .ok ⟨rfl, .cons ht hrest⟩
    next op hop =>
      refine (hoperand _ _ _ _ hrest).behind ?_
      intro right final final' hfinal hfinal' hrest
      rw [hscope]
      cases hrest with
      | nil => exact .step _ fun node => .ok ⟨rfl, .nil⟩
      | cons hnext hmore =>
        dsimp only [List.head?_cons]
        rw [comparison?_eq hnext]
        split
        · exact .error rfl
        · exact .step _ fun node => .ok ⟨rfl, .cons hnext hmore⟩

/-- Ranges are read alike if their bounds are. -/
theorem readAlike_ranged (hscope : scope.lengths = scope'.lengths)
    (hoperand : ReadAlike operand operand') :
    ReadAlike (ranged scope operand) (ranged scope' operand') := by
  intro ts us hts hus h
  refine (hoperand _ _ _ _ h).behind ?_
  intro left after after' hless hless' hafter
  cases hafter with
  | nil => exact .ok ⟨rfl, .nil⟩
  | cons ht hrest =>
    dsimp only
    rw [rangeOperator?_eq ht]
    split
    next => exact .ok ⟨rfl, .cons ht hrest⟩
    next build hbuild =>
      refine (hoperand _ _ _ _ hrest).behind ?_
      intro right final final' hfinal hfinal' hrest
      dsimp only
      rw [hscope]
      split
      · exact .error rfl
      · exact .ok ⟨rfl, hrest⟩

/-- Signs are read alike if their operands are. -/
theorem readAlike_signed (hoperand : ReadAlike operand operand') :
    ReadAlike (signed operand) (signed operand') := by
  intro ts us hts hus h
  induction h with
  | nil => exact hoperand _ _ _ _ .nil
  | cons ht hrest ih =>
    rw [signed, signed, prefixSign?_eq ht]
    split
    next => exact hoperand _ _ _ _ (.cons ht hrest)
    next op hop =>
      exact (ih _ _).behind fun _ _ _ _ _ hafter => .ok ⟨rfl, hafter⟩

/-! ## Indices -/

/-- Bounds that may be left out are read alike if bounds are. -/
theorem readAlike_optional (hnested : ReadAlike nested nested') (stops : List Symbol) :
    ReadAlike (optional nested stops) (optional nested' stops) := by
  intro ts us hts hus h
  have hstops : stops.any (nextIs · ts) = stops.any (nextIs · us) := by simp only [nextIs_eq h]
  rw [optional, optional, hstops]
  split
  · exact .ok ⟨rfl, h⟩
  · exact (hnested _ _ _ _ h).behind fun _ _ _ _ _ hafter => .ok ⟨rfl, hafter⟩

/-- A colon is there in both lists or in none. -/
theorem afterColon?_cases {ts us : List Token} (h : SameKinds ts us) :
    (afterColon? ts = Option.none ∧ afterColon? us = Option.none) ∨
      ∃ rest rest', afterColon? ts = some rest ∧ afterColon? us = some rest' ∧
        SameKinds rest.val rest'.val := by
  cases h with
  | nil => exact .inl ⟨rfl, rfl⟩
  | cons ht hrest =>
    simp only [afterColon?, ht]
    split
    · exact .inr ⟨_, _, rfl, rfl, hrest⟩
    · exact .inl ⟨rfl, rfl⟩

/-- The rest of a slice is read alike if its bounds are. -/
theorem readAlike_sliceTail (hnested : ReadAlike nested nested') (start : Option Expr) :
    ReadAlike (sliceTail nested start) (sliceTail nested' start) := by
  intro ts us hts hus h
  refine (readAlike_optional hnested _ _ _ _ _ h).behind ?_
  intro stop after after' hle hle' hafter
  dsimp only
  rcases afterColon?_cases hafter with ⟨hnone, hnone'⟩ | ⟨rest, rest', hcolon, hcolon', hrest⟩
  · rw [hnone, hnone']
    exact .ok ⟨rfl, hafter⟩
  · rw [hcolon, hcolon']
    exact (readAlike_optional hnested _ _ _ _ _ hrest).behind fun _ _ _ _ _ hfinal =>
      .ok ⟨rfl, hfinal⟩

/-- What stands between brackets is read alike if expressions are. -/
theorem readAlike_position (hnested : ReadAlike nested nested') :
    ReadAlike (position nested) (position nested') := by
  intro ts us hts hus h
  rw [position, position]
  rcases afterColon?_cases h with ⟨hnone, hnone'⟩ | ⟨rest, rest', hcolon, hcolon', hrest⟩
  · rw [hnone, hnone']
    refine (hnested _ _ _ _ h).behind ?_
    intro start after after' hless hless' hafter
    dsimp only
    rcases afterColon?_cases hafter with ⟨hnone, hnone'⟩ | ⟨rest, rest', hcolon, hcolon', hrest⟩
    · rw [hnone, hnone']
      exact .ok ⟨rfl, hafter⟩
    · rw [hcolon, hcolon']
      exact (readAlike_sliceTail hnested _ _ _ _ _ hrest).behind fun _ _ _ _ _ hfinal =>
        .ok ⟨rfl, hfinal⟩
  · rw [hcolon, hcolon']
    exact (readAlike_sliceTail hnested _ _ _ _ _ hrest).behind fun _ _ _ _ _ hfinal =>
      .ok ⟨rfl, hfinal⟩

/-- Indices are read alike if expressions are. -/
theorem readAlike_indices (hscope : scope.lengths = scope'.lengths)
    (hnested : ReadAlike nested nested') (e : Expr) :
    ReadAlike (indices scope nested e) (indices scope' nested' e) := by
  intro ts
  induction hk : ts.length using Nat.strongRecOn generalizing e ts with
  | ind k ih =>
    intro us hts hus h
    cases h with
    | nil =>
      rw [indices, indices]
      exact .ok ⟨rfl, .nil⟩
    | @cons t u rest rest' ht hrest =>
      rw [indices, indices, ht]
      split
      · refine (readAlike_position hnested _ _ _ _ hrest).behind ?_
        intro place after after' hless hless' hafter
        refine (agree_expectSymbol scope scope' _ _ hafter).behind ?_
        intro u closed closed' hclosed hclosed' hrest
        have hlt : closed.length < k := by
          rw [← hk, List.length_cons]
          omega
        rw [hscope]
        refine .step _ fun node => ?_
        exact (ih _ hlt node closed rfl _ _ _ hrest).behind fun _ _ _ _ _ hfinal =>
          .ok ⟨rfl, hfinal⟩
      · exact .ok ⟨rfl, .cons ht hrest⟩

/-- An expression with indices is read alike if its parts are. -/
theorem readAlike_indexed (hscope : scope.lengths = scope'.lengths)
    (hnested : ReadAlike nested nested') (hoperand : ReadAlike operand operand') :
    ReadAlike (indexed scope nested operand) (indexed scope' nested' operand') := by
  intro ts us hts hus h
  refine (hoperand _ _ _ _ h).behind ?_
  intro e after after' hless hless' hafter
  exact (readAlike_indices hscope hnested e _ _ _ _ hafter).behind fun _ _ _ _ _ hfinal =>
    .ok ⟨rfl, hfinal⟩

/-! ## Operands -/

/-- The elements of a vector are read alike if expressions are. -/
theorem readAlike_elements (hscope : scope.lengths = scope'.lengths)
    (hnested : ReadAlike nested nested') :
    ReadAlike (elements scope nested) (elements scope' nested') := by
  intro ts
  induction hk : ts.length using Nat.strongRecOn generalizing ts with
  | ind k ih =>
    intro us hts hus h
    rw [elements, elements]
    refine (hnested _ _ _ _ h).behind ?_
    intro e after after' hless hless' hafter
    dsimp only
    rw [hscope]
    split
    · exact .error rfl
    cases hafter with
    | nil => exact .error rfl
    | @cons t u rest rest' ht hrest =>
      have hlt : rest.length < k := by
        rw [← hk]
        exact Nat.lt_of_succ_lt hless
      dsimp only [pure_bind]
      rw [ht]
      split
      · exact (ih _ hlt rest rfl _ _ _ hrest).behind fun _ _ _ _ _ hfinal => .ok ⟨rfl, hfinal⟩
      · split
        · exact .ok ⟨rfl, hrest⟩
        · exact .error (unplaced_unexpected ht _)

/-- A vector is read alike if its elements are. -/
theorem readAlike_vectorLiteral (hscope : scope.lengths = scope'.lengths)
    (hnested : ReadAlike nested nested') :
    ReadAlike (vectorLiteral scope nested) (vectorLiteral scope' nested') := by
  intro ts us hts hus h
  cases h with
  | nil =>
    exact (readAlike_elements hscope hnested _ _ _ _ .nil).behind fun _ _ _ _ _ hfinal =>
      .ok ⟨rfl, hfinal⟩
  | cons ht hrest =>
    simp only [vectorLiteral]
    rw [ht]
    split
    · exact .ok ⟨rfl, hrest⟩
    · exact (readAlike_elements hscope hnested _ _ _ _ (.cons ht hrest)).behind
        fun _ _ _ _ _ hfinal => .ok ⟨rfl, hfinal⟩

/-- Parentheses are read alike if what they enclose is. -/
theorem readAlike_parenthesised (hnested : ReadAlike nested nested') :
    ReadAlike (parenthesised scope nested) (parenthesised scope' nested') := by
  intro ts us hts hus h
  cases h with
  | nil =>
    refine (hnested _ _ _ _ .nil).behind ?_
    intro e after after' hless hless' hafter
    exact (agree_expectSymbol scope scope' _ _ hafter).behind fun _ _ _ _ _ hfinal =>
      .ok ⟨rfl, hfinal⟩
  | cons ht hrest =>
    simp only [parenthesised]
    rw [ht]
    split
    · refine (hnested _ _ _ _ hrest).behind ?_
      intro e after after' hless hless' hafter
      refine (agree_expectSymbol scope scope' _ _ hafter).behind ?_
      intro _ barred barred' hbarred hbarred' hrest
      exact (agree_expectSymbol scope scope' _ _ hrest).behind fun _ _ _ _ _ hfinal =>
        .ok ⟨rfl, hfinal⟩
    · refine (hnested _ _ _ _ (.cons ht hrest)).behind ?_
      intro e after after' hless hless' hafter
      exact (agree_expectSymbol scope scope' _ _ hafter).behind fun _ _ _ _ _ hfinal =>
        .ok ⟨rfl, hfinal⟩

/-- An operand begins with a token that says of what kind it is. -/
theorem readAlike_primary (hscope : scope.lengths = scope'.lengths)
    (hnested : ReadAlike nested nested') :
    ReadAlike (primary scope nested) (primary scope' nested') := by
  intro ts us hts hus h
  cases h with
  | nil => exact .error (unplaced_endOfScript scope scope' _)
  | @cons t u rest rest' ht hrest =>
    simp only [primary]
    rw [ht]
    split
    -- literals and variables are one token
    next => exact .ok ⟨rfl, hrest⟩
    next => exact .ok ⟨rfl, hrest⟩
    next => exact .ok ⟨rfl, hrest⟩
    next => exact .ok ⟨rfl, hrest⟩
    next =>
      exact (readAlike_parenthesised hnested _ _ _ _ hrest).behind fun _ _ _ _ _ hfinal =>
        .ok ⟨rfl, hfinal⟩
    next =>
      exact (readAlike_vectorLiteral hscope hnested _ _ _ _ hrest).behind fun _ _ _ _ _ hfinal =>
        .ok ⟨rfl, hfinal⟩
    next => exact .error rfl
    next => exact .error (unplaced_unexpected ht _)

/-! ## Expressions -/

/-- A whole expression is read alike if nested ones are. -/
theorem readAlike_fullLevel (hscope : scope.lengths = scope'.lengths)
    (hnested : ReadAlike nested nested') :
    ReadAlike (fullLevel scope nested) (fullLevel scope' nested') := by
  have hoperand := readAlike_signed
    (readAlike_indexed hscope hnested (readAlike_primary hscope hnested))
  have hsums := readAlike_joined hscope byKinds_sum?
    (readAlike_joined hscope byKinds_product? hoperand)
  have hcomparisons := readAlike_compared hscope (readAlike_ranged hscope hsums)
  exact readAlike_joined hscope byKinds_disjunction?
    (readAlike_joined hscope byKinds_conjunction? hcomparisons)

/-- Expressions are read alike from tokens of the same kinds. -/
theorem agree_parse (hscope : scope.lengths = scope'.lengths) {ts us : List Token}
    (h : SameKinds ts us) : Agree (SameRead Eq) (parse scope ts) (parse scope' us) := by
  rw [parse, parse]
  refine readAlike_fullLevel hscope ?_ _ _ _ _ h
  intro inner inner' hless hless' hinner
  exact agree_parse hscope hinner
termination_by ts.length

end Levels

end Expr

end Recolor
