import Recolor.Expr.Parser
import Recolor.Proofs.Grammar
import Recolor.Proofs.Outcome

/-!
# What productions read

`Reads p ts e rest` says that a production reads `e` from the tokens `ts` and leaves `rest` over.
For each level of the grammar and for each of its other productions there is one lemma that says
when it reads what, in terms of the productions that it is made of. What is proved of the parser
from these does not look into the productions any more.
-/

set_option autoImplicit false

namespace Recolor

section Outcomes

variable {α β : Type} {P Q : List Token → Prop} {rest final : List Token}

/-- The outcome of a production is `a`, with the tokens `rest` left over. -/
def Yields (outcome : Except Fault (α × { rest : List Token // P rest })) (a : α)
    (rest : List Token) : Prop :=
  ∃ h : P rest, outcome = .ok (a, ⟨rest, h⟩)

/-- What is answered is yielded, and nothing else. -/
@[simp] theorem yields_ok {a b : α} {h : P rest} :
    Yields (Except.ok (a, (⟨rest, h⟩ : { rest : List Token // P rest }))) b final ↔
      b = a ∧ final = rest := by
  constructor
  · rintro ⟨h', heq⟩
    cases heq
    exact ⟨rfl, rfl⟩
  · rintro ⟨rfl, rfl⟩
    exact ⟨h, rfl⟩

/-- A fault yields nothing. -/
@[simp] theorem not_yields_error {fault : Fault} {a : α} :
    ¬Yields (.error fault : Except Fault (α × { rest : List Token // P rest })) a rest := by
  rintro ⟨_, heq⟩
  cases heq

/-- The outcome of two productions after one another. -/
theorem yields_bind {p : Except Fault (α × { rest : List Token // P rest })}
    {f : α × { rest : List Token // P rest } → Except Fault (β × { rest : List Token // Q rest })}
    {b : β} :
    Yields (p >>= f) b final ↔
      ∃ a rest, ∃ h : P rest, Yields p a rest ∧ Yields (f (a, ⟨rest, h⟩)) b final := by
  constructor
  · rintro ⟨hfinal, heq⟩
    obtain ⟨⟨a, rest, h⟩, hp, hf⟩ := bind_eq_ok.1 heq
    exact ⟨a, rest, h, ⟨h, hp⟩, hfinal, hf⟩
  · rintro ⟨a, rest, h, ⟨_, hp⟩, hfinal, hf⟩
    exact ⟨hfinal, bind_eq_ok.2 ⟨_, hp, hf⟩⟩

/-- A production behind a step that reads no tokens. -/
theorem yields_step {x : Except Fault β}
    {f : β → Except Fault (α × { rest : List Token // P rest })} {a : α} :
    Yields (x >>= f) a final ↔ ∃ b, x = .ok b ∧ Yields (f b) a final := by
  cases x with
  | ok b => simp
  | error fault => simp

/-- What is yielded is answered. -/
theorem exists_yields {p : Except Fault (α × { rest : List Token // P rest })} {b : α} :
    (∃ a rest, ∃ _ : P rest, Yields p a rest ∧ b = a ∧ final = rest) ↔ Yields p b final := by
  constructor
  · rintro ⟨a, rest, h, hp, rfl, rfl⟩
    exact hp
  · intro hp
    exact ⟨b, final, hp.1, hp, rfl, rfl⟩

/-- What is yielded is answered in another form. -/
theorem exists_yields_map {p : Except Fault (α × { rest : List Token // P rest })} {b : β}
    {g : α → β} :
    (∃ a rest, ∃ _ : P rest, Yields p a rest ∧ b = g a ∧ final = rest) ↔
      ∃ a, Yields p a final ∧ b = g a := by
  constructor
  · rintro ⟨a, rest, h, hp, rfl, rfl⟩
    exact ⟨a, hp, rfl⟩
  · rintro ⟨a, hp, rfl⟩
    exact ⟨a, final, hp.1, hp, rfl, rfl⟩

variable {lengths : Lengths} {a : α} {f : Expr → Except Fault (α × { rest : List Token // P rest })}

/-- A node of an operator is built if its operands have shapes that the operator takes. -/
theorem yields_binary? {op : BinaryOp} {left right : Expr} :
    Yields (Expr.binary? lengths op left right >>= f) a final ↔
      checkOperands op (left.shape lengths) (right.shape lengths) = .ok () ∧
        Yields (f (.binary op left right)) a final := by
  unfold Expr.binary?
  cases checkOperands op (left.shape lengths) (right.shape lengths) with
  | ok u => simp
  | error fault => simp

/-- A node of an index is built if a vector is indexed. -/
theorem yields_index? {vector position : Expr} :
    Yields (Expr.index? lengths vector position >>= f) a final ↔
      (vector.shape lengths).isVector = true ∧ Yields (f (.index vector position)) a final := by
  unfold Expr.index?
  split
  next h => simp [h]
  next h => simp [h]

/-- The test of a sign succeeds on the token of that sign only. -/
@[simp] theorem TokenKind.isSymbol_eq_true {kind : TokenKind} {s : Symbol} :
    kind.isSymbol s = true ↔ kind = .symbol s := by
  cases kind <;> simp [isSymbol]

/-- A sign is read if it comes next. -/
theorem yields_expectSymbol {scope : Scope} {s : Symbol} {expected : Expected} {ts : List Token}
    {u : Unit} :
    Yields (expectSymbol scope s expected ts) u rest ↔
      ∃ t, t.kind = .symbol s ∧ ts = t :: rest := by
  cases ts with
  | nil => simp [expectSymbol]
  | cons t more =>
    simp only [expectSymbol]
    split
    next h =>
      rw [TokenKind.isSymbol_eq_true] at h
      simp only [yields_ok, true_and, List.cons.injEq]
      constructor
      · rintro rfl
        exact ⟨t, h, rfl, rfl⟩
      · rintro ⟨_, -, -, rfl⟩
        rfl
    next h =>
      rw [TokenKind.isSymbol_eq_true] at h
      simp only [not_yields_error, List.cons.injEq, false_iff]
      rintro ⟨_, hkind, rfl, -⟩
      exact h hkind

end Outcomes

/-- The production reads `a` from the tokens `ts`, of which there are not too many for it, and
leaves `rest` over. -/
def Reads {α : Type} {P : List Token → Prop} {Q : List Token → List Token → Prop}
    (p : (ts : List Token) → P ts → Except Fault (α × { rest : List Token // Q ts rest }))
    (ts : List Token) (a : α) (rest : List Token) : Prop :=
  ∃ bound : P ts, Yields (p ts bound) a rest

namespace Expr

section Levels

variable {scope : Scope} {n : Nat} {operator? : Token → List Token → Option BinaryOp}
  {operand : Level n} {nested : Nested n} {t : Token} {ts rest final : List Token}
  {e left tree : Expr}

/-! ## Operators -/

/-- Without tokens, a chain of operators is what stands on its left. -/
theorem reads_chain_nil :
    Reads (chain scope operator? operand left) [] tree rest ↔ tree = left ∧ rest = [] := by
  simp [Reads, chain]

/-- A chain of operators stops at a token that is no operator of its level; otherwise it goes on
with the node of that operator. -/
theorem reads_chain_cons (bound : (t :: ts).length ≤ n) :
    Reads (chain scope operator? operand left) (t :: ts) tree final ↔
      (operator? t ts = Option.none ∧ tree = left ∧ final = t :: ts) ∨
        ∃ op right rest, operator? t ts = some op ∧ Reads operand ts right rest ∧
          checkOperands op (left.shape scope.lengths) (right.shape scope.lengths) = .ok () ∧
            Reads (chain scope operator? operand (.binary op left right)) rest tree final := by
  simp only [Reads, bound, exists_true_left]
  rw [chain]
  split
  next h => simp [h]
  next op h =>
    have hts : ts.length ≤ n := Nat.le_of_succ_le bound
    simp only [h, hts, yields_bind, yields_binary?, pure_eq_ok, yields_ok, exists_yields,
      exists_true_left, reduceCtorEq, false_and, false_or]
    constructor
    · rintro ⟨right, rest, hless, hright, hcheck, htree⟩
      exact ⟨op, right, rest, rfl, hright, hcheck, by omega, htree⟩
    · rintro ⟨_, right, rest, hop, hright, hcheck, _, htree⟩
      cases hop
      exact ⟨right, rest, hright.1, hright, hcheck, htree⟩

/-- A level that associates to the left is its first operand and a chain behind it. -/
theorem reads_joined :
    Reads (joined scope operator? operand) ts tree final ↔
      ∃ left rest, Reads operand ts left rest ∧
        Reads (chain scope operator? operand left) rest tree final := by
  simp only [Reads, joined, yields_bind, pure_eq_ok, yields_ok, exists_yields]
  constructor
  · rintro ⟨bound, left, rest, hless, hleft, htree⟩
    exact ⟨left, rest, ⟨bound, hleft⟩, by omega, htree⟩
  · rintro ⟨left, rest, ⟨bound, hleft⟩, _, htree⟩
    exact ⟨bound, left, rest, hleft.1, hleft, htree⟩

/-- The level of comparisons reads one operand or a comparison of two, if no comparison comes
behind that. -/
theorem reads_compared :
    Reads (compared scope operand) ts tree final ↔
      (Reads operand ts tree final ∧ final.head?.bind comparison? = Option.none) ∨
        ∃ left t rest op right, Reads operand ts left (t :: rest) ∧ comparison? t = some op ∧
          Reads operand rest right final ∧ final.head?.bind comparison? = Option.none ∧
            checkOperands op (left.shape scope.lengths) (right.shape scope.lengths) = .ok () ∧
              tree = .binary op left right := by
  constructor
  · rintro ⟨bound, h⟩
    simp only [compared, yields_bind] at h
    obtain ⟨left, rest, hless, hleft, h⟩ := h
    cases rest with
    | nil =>
      obtain ⟨rfl, rfl⟩ := yields_ok.1 h
      exact .inl ⟨⟨bound, hleft⟩, rfl⟩
    | cons t rest =>
      cases hop : comparison? t with
      | none =>
        simp only [hop, pure_eq_ok, yields_ok] at h
        obtain ⟨rfl, rfl⟩ := h
        exact .inl ⟨⟨bound, hleft⟩, hop⟩
      | some op =>
        simp only [hop, yields_bind] at h
        obtain ⟨right, after, hless', hright, h⟩ := h
        have hnext : after.head?.bind comparison? = Option.none ∧
            checkOperands op (left.shape scope.lengths) (right.shape scope.lengths) = .ok () ∧
              tree = .binary op left right ∧ final = after := by
          cases hhead : after.head? with
          | none => simpa [hhead, yields_binary?] using h
          | some next =>
            cases hnext : comparison? next with
            | none => simpa [hhead, hnext, yields_binary?] using h
            | some op' => simp [hhead, hnext] at h
        obtain ⟨hnone, hcheck, rfl, rfl⟩ := hnext
        exact .inr ⟨left, t, rest, op, right, ⟨bound, hleft⟩, hop, ⟨_, hright⟩, hnone, hcheck, rfl⟩
  · rintro (⟨⟨bound, hleft⟩, hnone⟩ |
      ⟨left, t, rest, op, right, ⟨bound, hleft⟩, hop, ⟨_, hright⟩, hnone, hcheck, rfl⟩)
    · refine ⟨bound, ?_⟩
      simp only [compared, yields_bind]
      refine ⟨tree, final, hleft.1, hleft, ?_⟩
      cases final with
      | nil => exact yields_ok.2 ⟨rfl, rfl⟩
      | cons t rest =>
        have hop : comparison? t = Option.none := hnone
        simp [hop]
    · refine ⟨bound, ?_⟩
      simp only [compared, yields_bind]
      refine ⟨left, t :: rest, hleft.1, hleft, ?_⟩
      simp only [hop, yields_bind]
      refine ⟨right, final, hright.1, hright, ?_⟩
      cases hhead : final.head? with
      | none => simp [yields_binary?, hcheck]
      | some next =>
        have hnext : comparison? next = Option.none := by simpa [hhead] using hnone
        simp [hnext, yields_binary?, hcheck]

/-- The level of ranges reads one operand, or two that are no vectors with an operator between
them. What follows the second is not looked at. -/
theorem reads_ranged :
    Reads (ranged scope operand) ts tree final ↔
      (Reads operand ts tree final ∧ (final.head?.bind rangeOperator?).isNone = true) ∨
        ∃ left t rest build right, Reads operand ts left (t :: rest) ∧
          rangeOperator? t = some build ∧ Reads operand rest right final ∧
            (left.shape scope.lengths).isVector = false ∧
              (right.shape scope.lengths).isVector = false ∧ tree = build left right := by
  constructor
  · rintro ⟨bound, h⟩
    simp only [ranged, yields_bind] at h
    obtain ⟨left, rest, hless, hleft, h⟩ := h
    cases rest with
    | nil =>
      obtain ⟨rfl, rfl⟩ := yields_ok.1 h
      exact .inl ⟨⟨bound, hleft⟩, rfl⟩
    | cons t rest =>
      cases hop : rangeOperator? t with
      | none =>
        simp only [hop, pure_eq_ok, yields_ok] at h
        obtain ⟨rfl, rfl⟩ := h
        exact .inl ⟨⟨bound, hleft⟩, by simp [hop]⟩
      | some build =>
        simp only [hop, yields_bind] at h
        obtain ⟨right, after, hless', hright, h⟩ := h
        cases hl : (left.shape scope.lengths).isVector with
        | true => simp [hl] at h
        | false =>
          cases hr : (right.shape scope.lengths).isVector with
          | true => simp [hl, hr] at h
          | false =>
            simp only [hl, hr, Bool.or_self, Bool.false_eq_true, if_false, pure_eq_ok,
              yields_ok] at h
            obtain ⟨rfl, rfl⟩ := h
            exact .inr ⟨left, t, rest, build, right, ⟨bound, hleft⟩, hop, ⟨_, hright⟩, hl, hr, rfl⟩
  · rintro (⟨⟨bound, hleft⟩, hnone⟩ |
      ⟨left, t, rest, build, right, ⟨bound, hleft⟩, hop, ⟨_, hright⟩, hl, hr, rfl⟩)
    · refine ⟨bound, ?_⟩
      simp only [ranged, yields_bind]
      refine ⟨tree, final, hleft.1, hleft, ?_⟩
      cases final with
      | nil => exact yields_ok.2 ⟨rfl, rfl⟩
      | cons t rest =>
        have hop : rangeOperator? t = Option.none := by simpa using hnone
        simp [hop]
    · refine ⟨bound, ?_⟩
      simp only [ranged, yields_bind]
      refine ⟨left, t :: rest, hleft.1, hleft, ?_⟩
      simp only [hop, yields_bind]
      exact ⟨right, final, hright.1, hright, by simp [hl, hr]⟩

/-- Without tokens there is no sign, and what is read is the operand. -/
theorem reads_signed_nil :
    Reads (signed operand) [] tree final ↔ Reads operand [] tree final := by
  simp only [Reads, signed]

/-- The level of signs reads a sign and what it applies to, or an operand. -/
theorem reads_signed_cons (bound : (t :: ts).length ≤ n) :
    Reads (signed operand) (t :: ts) tree final ↔
      (prefixSign? t = Option.none ∧ Reads operand (t :: ts) tree final) ∨
        ∃ op inner, prefixSign? t = some op ∧ Reads (signed operand) ts inner final ∧
          tree = .unary op inner := by
  simp only [Reads, bound, exists_true_left]
  rw [signed]
  split
  next h => simp [h]
  next op h =>
    have hts : ts.length ≤ n := Nat.le_of_succ_le bound
    simp only [h, hts, yields_bind, pure_eq_ok, yields_ok, exists_yields_map, exists_true_left,
      reduceCtorEq, false_and, false_or, Option.some.injEq]
    constructor
    · rintro ⟨inner, hinner⟩
      exact ⟨op, inner, rfl, hinner⟩
    · rintro ⟨_, inner, rfl, hinner⟩
      exact ⟨inner, hinner⟩

/-! ## Indices -/

/-- A sign comes next exactly if the first token is of its kind. -/
theorem nextIs_cons {s : Symbol} : nextIs s (t :: rest) = false ↔ t.kind ≠ .symbol s := by
  rw [nextIs, ← Bool.not_eq_true, TokenKind.isSymbol_eq_true]

/-- What stands behind a colon, if the first token is one. -/
theorem afterColon?_of_eq (h : t.kind = .symbol .colon) :
    afterColon? (t :: rest) = some (.tail t rest) := by
  simp [afterColon?, h]

/-- Nothing stands behind a colon, if the first token is none. -/
theorem afterColon?_of_ne (h : t.kind ≠ .symbol .colon) :
    afterColon? (t :: rest) = Option.none := by
  simp [afterColon?, h]

/-- An optional part is not there if one of the signs that stop it comes next. -/
theorem reads_optional {stops : List Symbol} {o : Option Expr} (bound : ts.length < n) :
    Reads (optional nested stops) ts o final ↔
      (stops.any (nextIs · ts) = true ∧ o = Option.none ∧ final = ts) ∨
        stops.any (nextIs · ts) = false ∧ ∃ e, Reads nested ts e final ∧ o = some e := by
  simp only [Reads, bound, exists_true_left]
  rw [optional]
  split
  next h => simp [h]
  next h =>
    simp only [h, yields_bind, pure_eq_ok, yields_ok, exists_yields_map]
    simp

/-- Behind the first colon of a slice there may be its second part, and then a second colon with
the third. -/
theorem reads_sliceTail {start : Option Expr} :
    Reads (sliceTail nested start) ts tree final ↔
      ∃ stop after, Reads (optional nested [.colon, .rightBracket]) ts stop after ∧
        ((nextIs .colon after = false ∧ tree = .slice start stop Option.none ∧ final = after) ∨
          ∃ t rest step, t.kind = .symbol .colon ∧ after = t :: rest ∧
            Reads (optional nested [.rightBracket]) rest step final ∧
              tree = .slice start stop step) := by
  constructor
  · rintro ⟨bound, h⟩
    simp only [sliceTail, yields_bind] at h
    obtain ⟨stop, after, hle, hstop, h⟩ := h
    refine ⟨stop, after, ⟨bound, hstop⟩, ?_⟩
    cases after with
    | nil =>
      obtain ⟨rfl, rfl⟩ := yields_ok.1 h
      exact .inl ⟨rfl, rfl, rfl⟩
    | cons t rest =>
      by_cases hcolon : t.kind = .symbol .colon
      · simp only [afterColon?_of_eq hcolon, yields_bind, pure_eq_ok, yields_ok,
          exists_yields_map] at h
        obtain ⟨step, hstep, rfl⟩ := h
        exact .inr ⟨t, rest, step, hcolon, rfl, ⟨_, hstep⟩, rfl⟩
      · simp only [afterColon?_of_ne hcolon, pure_eq_ok, yields_ok] at h
        obtain ⟨rfl, rfl⟩ := h
        exact .inl ⟨nextIs_cons.2 hcolon, rfl, rfl⟩
  · rintro ⟨stop, after, ⟨bound, hstop⟩, h⟩
    refine ⟨bound, ?_⟩
    simp only [sliceTail, yields_bind]
    refine ⟨stop, after, hstop.1, hstop, ?_⟩
    rcases h with ⟨hcolon, rfl, rfl⟩ | ⟨t, rest, step, hcolon, rfl, ⟨_, hstep⟩, rfl⟩
    · cases final with
      | nil => exact yields_ok.2 ⟨rfl, rfl⟩
      | cons t rest =>
        simp only [afterColon?_of_ne (nextIs_cons.1 hcolon), pure_eq_ok, yields_ok, and_self]
    · simp only [afterColon?_of_eq hcolon, yields_bind, pure_eq_ok, yields_ok, exists_yields_map]
      exact ⟨step, hstep, rfl⟩

/-- Without tokens there is no position. -/
theorem not_reads_position_nil : ¬Reads (position nested) [] tree final := by
  rintro ⟨bound, hless, -⟩
  cases hless

/-- A position is a slice without a first part, or an expression, or a slice from there on. -/
theorem reads_position_cons (bound : (t :: ts).length < n) :
    Reads (position nested) (t :: ts) tree final ↔
      (t.kind = .symbol .colon ∧ Reads (sliceTail nested Option.none) ts tree final) ∨
        t.kind ≠ .symbol .colon ∧ ∃ start after, Reads nested (t :: ts) start after ∧
          ((nextIs .colon after = false ∧ tree = start ∧ final = after) ∨
            ∃ u rest, u.kind = .symbol .colon ∧ after = u :: rest ∧
              Reads (sliceTail nested (some start)) rest tree final) := by
  have hts : ts.length < n := Nat.lt_of_succ_lt bound
  by_cases hcolon : t.kind = .symbol .colon
  · simp only [Reads, position, bound, hts, exists_true_left, afterColon?_of_eq hcolon, hcolon,
      yields_bind, pure_eq_ok, yields_ok, exists_yields, ne_eq, not_true_eq_false, false_and,
      or_false, true_and]
  · simp only [hcolon, false_and, false_or, ne_eq, not_false_eq_true, true_and]
    constructor
    · rintro ⟨_, h⟩
      simp only [position, afterColon?_of_ne hcolon, yields_bind] at h
      obtain ⟨start, after, hless, hstart, h⟩ := h
      refine ⟨start, after, ⟨bound, hstart⟩, ?_⟩
      cases after with
      | nil =>
        obtain ⟨rfl, rfl⟩ := yields_ok.1 h
        exact .inl ⟨rfl, rfl, rfl⟩
      | cons u rest =>
        by_cases hcolon' : u.kind = .symbol .colon
        · simp only [afterColon?_of_eq hcolon', yields_bind, pure_eq_ok, yields_ok,
            exists_yields] at h
          exact .inr ⟨u, rest, hcolon', rfl, ⟨_, h⟩⟩
        · simp only [afterColon?_of_ne hcolon', pure_eq_ok, yields_ok] at h
          obtain ⟨rfl, rfl⟩ := h
          exact .inl ⟨nextIs_cons.2 hcolon', rfl, rfl⟩
    · rintro ⟨start, after, ⟨_, hstart⟩, h⟩
      refine ⟨bound, ?_⟩
      simp only [position, afterColon?_of_ne hcolon, yields_bind]
      refine ⟨start, after, hstart.1, hstart, ?_⟩
      rcases h with ⟨hcolon', rfl, rfl⟩ | ⟨u, rest, hcolon', rfl, ⟨_, h⟩⟩
      · cases final with
        | nil => exact yields_ok.2 ⟨rfl, rfl⟩
        | cons u rest =>
          simp only [afterColon?_of_ne (nextIs_cons.1 hcolon'), pure_eq_ok, yields_ok, and_self]
      · simp only [afterColon?_of_eq hcolon', yields_bind, pure_eq_ok, yields_ok, exists_yields]
        exact h

/-- Without tokens no index follows an operand. -/
theorem reads_indices_nil {operand : Expr} :
    Reads (indices scope nested operand) [] tree final ↔ tree = operand ∧ final = [] := by
  simp [Reads, indices]

/-- Indices stop at a token that opens no bracket; otherwise they go on with the node of the
index. -/
theorem reads_indices_cons {operand : Expr} (bound : (t :: ts).length ≤ n) :
    Reads (indices scope nested operand) (t :: ts) tree final ↔
      (t.kind ≠ .symbol .leftBracket ∧ tree = operand ∧ final = t :: ts) ∨
        t.kind = .symbol .leftBracket ∧ ∃ place u rest, u.kind = .symbol .rightBracket ∧
          Reads (position nested) ts place (u :: rest) ∧
            (operand.shape scope.lengths).isVector = true ∧
              Reads (indices scope nested (.index operand place)) rest tree final := by
  have hts : ts.length < n := bound
  simp only [Reads, bound, exists_true_left]
  rw [indices]
  split
  next h =>
    rw [TokenKind.isSymbol_eq_true] at h
    simp only [h, hts, yields_bind, yields_index?, pure_eq_ok, yields_ok, exists_yields,
      yields_expectSymbol, exists_true_left, ne_eq, not_true_eq_false, false_and, false_or,
      true_and]
    constructor
    · rintro ⟨place, after, hless, hplace, ⟨⟩, closed, hless', ⟨u, hu, rfl⟩, hvector, htree⟩
      simp only [List.length_cons] at hless hless'
      exact ⟨place, u, closed, hu, hplace, hvector, by omega, htree⟩
    · rintro ⟨place, u, closed, hu, hplace, hvector, _, htree⟩
      exact ⟨place, u :: closed, hplace.1, hplace, (), closed, Nat.lt_succ_self _, ⟨u, hu, rfl⟩,
        hvector, htree⟩
  next h =>
    rw [TokenKind.isSymbol_eq_true] at h
    simp [h]

/-- The level of indices is its operand and the indices behind it. -/
theorem reads_indexed :
    Reads (indexed scope nested operand) ts tree final ↔
      ∃ e rest, Reads operand ts e rest ∧ Reads (indices scope nested e) rest tree final := by
  simp only [Reads, indexed, yields_bind, pure_eq_ok, yields_ok, exists_yields]
  constructor
  · rintro ⟨bound, e, rest, hless, he, htree⟩
    exact ⟨e, rest, ⟨bound, he⟩, by omega, htree⟩
  · rintro ⟨e, rest, ⟨bound, he⟩, _, htree⟩
    exact ⟨bound, e, rest, he.1, he, htree⟩

/-! ## Operands -/

/-- Elements are one that is no vector, and the closing bracket or a comma with more of them. -/
theorem reads_elements {items : List Expr} :
    Reads (elements scope nested) ts items final ↔
      ∃ e t rest, Reads nested ts e (t :: rest) ∧ (e.shape scope.lengths).isVector = false ∧
        ((t.kind = .symbol .rightBracket ∧ items = [e] ∧ final = rest) ∨
          t.kind = .symbol .comma ∧
            ∃ more, Reads (elements scope nested) rest more final ∧ items = e :: more) := by
  have hends : (Symbol.rightBracket == Symbol.comma) = false := rfl
  constructor
  · rintro ⟨bound, h⟩
    rw [elements, yields_bind] at h
    obtain ⟨e, rest, hless, he, h⟩ := h
    cases hvector : (e.shape scope.lengths).isVector with
    | true => simp [hvector] at h
    | false =>
      simp only [hvector, Bool.false_eq_true, if_false] at h
      cases rest with
      | nil => simp at h
      | cons t rest =>
        refine ⟨e, t, rest, ⟨bound, he⟩, hvector, ?_⟩
        by_cases hcomma : t.kind = .symbol .comma
        · simp only [TokenKind.isSymbol_eq_true.2 hcomma, yields_bind, if_true, pure_eq_ok,
            yields_ok, exists_yields_map] at h
          obtain ⟨more, hmore, rfl⟩ := h
          exact .inr ⟨hcomma, more, ⟨_, hmore⟩, rfl⟩
        · simp only [if_neg (mt TokenKind.isSymbol_eq_true.1 hcomma)] at h
          by_cases hclosed : t.kind = .symbol .rightBracket
          · simp only [TokenKind.isSymbol_eq_true.2 hclosed, if_true, pure_eq_ok, yields_ok] at h
            exact .inl ⟨hclosed, h.1, h.2⟩
          · simp [if_neg (mt TokenKind.isSymbol_eq_true.1 hclosed)] at h
  · rintro ⟨e, t, rest, ⟨bound, he⟩, hvector, h⟩
    refine ⟨bound, ?_⟩
    rw [elements, yields_bind]
    refine ⟨e, t :: rest, he.1, he, ?_⟩
    simp only [hvector, Bool.false_eq_true, if_false]
    rcases h with ⟨hclosed, rfl, rfl⟩ | ⟨hcomma, more, ⟨_, hmore⟩, rfl⟩
    · simp [hclosed, TokenKind.isSymbol, hends]
    · simp only [TokenKind.isSymbol_eq_true.2 hcomma, yields_bind, if_true, pure_eq_ok,
        yields_ok, exists_yields_map]
      exact ⟨more, hmore, rfl⟩

/-- A vector is not read from no tokens. -/
theorem not_reads_vectorLiteral_nil : ¬Reads (vectorLiteral scope nested) [] tree final := by
  rintro ⟨bound, hless, -⟩
  cases hless

/-- A vector has no elements if it is closed at once. -/
theorem reads_vectorLiteral_cons (bound : (t :: ts).length < n) :
    Reads (vectorLiteral scope nested) (t :: ts) tree final ↔
      (t.kind = .symbol .rightBracket ∧ tree = .vector [] ∧ final = ts) ∨
        t.kind ≠ .symbol .rightBracket ∧
          ∃ items, Reads (elements scope nested) (t :: ts) items final ∧ tree = .vector items := by
  simp only [Reads, bound, exists_true_left]
  rw [vectorLiteral]
  split
  next h =>
    rw [TokenKind.isSymbol_eq_true] at h
    simp [h]
  next h =>
    rw [TokenKind.isSymbol_eq_true] at h
    simp only [h, yields_bind, pure_eq_ok, yields_ok, exists_yields_map, ne_eq, not_false_eq_true,
      true_and, false_and, false_or]

/-- What stands in parentheses is not read from no tokens. -/
theorem not_reads_parenthesised_nil : ¬Reads (parenthesised scope nested) [] tree final := by
  rintro ⟨bound, hless, -⟩
  cases hless

/-- Parentheses with bars saturate the expression between them, and those without stand for it. -/
theorem reads_parenthesised_cons (bound : (t :: ts).length < n) :
    Reads (parenthesised scope nested) (t :: ts) tree final ↔
      (t.kind = .symbol .or ∧ ∃ e u v, u.kind = .symbol .or ∧ v.kind = .symbol .rightParen ∧
        Reads nested ts e (u :: v :: final) ∧ tree = .saturated e) ∨
      t.kind ≠ .symbol .or ∧ ∃ u, u.kind = .symbol .rightParen ∧
        Reads nested (t :: ts) tree (u :: final) := by
  have hts : ts.length < n := Nat.lt_of_succ_lt bound
  simp only [Reads, bound, hts, exists_true_left]
  rw [parenthesised]
  split
  next h =>
    rw [TokenKind.isSymbol_eq_true] at h
    simp only [h, yields_bind, yields_expectSymbol, pure_eq_ok, yields_ok, ne_eq,
      not_true_eq_false, true_and, false_and, or_false]
    constructor
    · rintro ⟨e, _, _, he, ⟨⟩, _, _, ⟨u, hu, rfl⟩, ⟨⟩, _, _, ⟨v, hv, rfl⟩, rfl, rfl⟩
      exact ⟨e, u, v, hu, hv, he, rfl⟩
    · rintro ⟨e, u, v, hu, hv, he, rfl⟩
      exact ⟨e, u :: v :: final, he.1, he, (), v :: final, Nat.lt_succ_self _, ⟨u, hu, rfl⟩, (),
        final, Nat.lt_succ_self _, ⟨v, hv, rfl⟩, rfl, rfl⟩
  next h =>
    rw [TokenKind.isSymbol_eq_true] at h
    simp only [h, yields_bind, yields_expectSymbol, pure_eq_ok, yields_ok, ne_eq,
      not_false_eq_true, true_and, false_and, false_or]
    constructor
    · rintro ⟨e, _, _, he, ⟨⟩, _, _, ⟨u, hu, rfl⟩, rfl, rfl⟩
      exact ⟨u, hu, he⟩
    · rintro ⟨u, hu, he⟩
      exact ⟨tree, u :: final, he.1, he, (), final, Nat.lt_succ_self _, ⟨u, hu, rfl⟩, rfl, rfl⟩

/-- No literal, variable or nested expression is read from no tokens. -/
theorem not_reads_primary_nil : ¬Reads (primary scope nested) [] tree final := by
  rintro ⟨_, h⟩
  simp [primary] at h

/-- An operand is a literal, or what its opening parenthesis or bracket says. -/
theorem reads_primary_cons (bound : (t :: ts).length ≤ n) :
    Reads (primary scope nested) (t :: ts) tree final ↔
      (t.kind.literal? = some tree ∧ final = ts) ∨
        (t.kind = .symbol .leftParen ∧ Reads (parenthesised scope nested) ts tree final) ∨
          t.kind = .symbol .leftBracket ∧ Reads (vectorLiteral scope nested) ts tree final := by
  have hts : ts.length < n := bound
  simp only [Reads, bound, hts, exists_true_left]
  rw [primary]
  cases hkind : t.kind with
  | symbol s =>
    cases s with
    | leftParen =>
      simp only [yields_bind, pure_eq_ok, yields_ok, exists_yields]
      simp [TokenKind.literal?]
    | leftBracket =>
      simp only [yields_bind, pure_eq_ok, yields_ok, exists_yields]
      simp [TokenKind.literal?]
    | _ => simp [TokenKind.literal?]
  | _ => simp [TokenKind.literal?, @eq_comm _ tree]

end Levels

/-! ## Whole expressions -/

/-- The parser as a production for nested expressions. -/
def nest (scope : Scope) (n : Nat) : Nested n := fun ts _ => parse scope ts

variable {scope : Scope} {ts rest : List Token} {e : Expr}

/-- The parser is the lowest level, with the parser itself for nested expressions. -/
theorem yields_parse :
    Yields (parse scope ts) e rest ↔ Reads (fullLevel scope (nest scope ts.length)) ts e rest := by
  rw [parse]
  exact ⟨fun h => ⟨Nat.le_refl _, h⟩, fun ⟨_, h⟩ => h⟩

/-- Nested expressions are those of the parser on fewer tokens. -/
theorem reads_nest {n : Nat} :
    Reads (nest scope n) ts e rest ↔ ts.length < n ∧ Yields (parse scope ts) e rest :=
  ⟨fun ⟨bound, h⟩ => ⟨bound, h⟩, fun ⟨bound, h⟩ => ⟨bound, h⟩⟩

end Expr

end Recolor
