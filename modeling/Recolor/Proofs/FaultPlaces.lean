import Recolor.Proofs.Outcome
import Recolor.Script.Parser

/-!
# Where the faults of the parser point

A fault of the grammar points at the beginning of a token, or at the end of the script; a fault of
the kinds and lengths of operands has no place. So if all tokens begin at some given places, and the
script ends at one, then all faults of reading point to these places: one lemma per production says
so, and that the tokens left over begin there too (`PlacedRead`), level by level up to expressions
(`Expr.placed_parse`) and from there up to programs (`Program.pointsTo_of_parse`).
-/

set_option autoImplicit false

namespace Recolor

/-! ## Faults and their places -/

/-- The fault has a place in the script. -/
@[simp] def Fault.Located (e : Fault) : Prop := e.location?.isSome = true

/-- If the fault has a place, it is one of the given places. -/
def Fault.PointsTo (places : Location → Prop) (e : Fault) : Prop :=
  ∀ l, e.location? = some l → places l

/-- All tokens begin at the given places. -/
def Begin (places : Location → Prop) (ts : List Token) : Prop :=
  ∀ t ∈ ts, places t.span.start

/-- A production fails with a fault that points to the given places, or the tokens that it leaves
over begin there. -/
inductive PlacedRead (places : Location → Prop) {α : Type} {P : List Token → Prop} :
    Except Fault (α × { rest : List Token // P rest }) → Prop where
  | ok {a : α} {rest : List Token} {h : P rest} (hrest : Begin places rest) :
      PlacedRead places (.ok (a, ⟨rest, h⟩))
  | error {e : Fault} (h : e.PointsTo places) : PlacedRead places (.error e)

/-- A production points to the given places if its tokens begin there. -/
def Places (places : Location → Prop) {α : Type} {P : List Token → Prop}
    {Q : List Token → List Token → Prop}
    (p : (ts : List Token) → P ts → Except Fault (α × { rest : List Token // Q ts rest })) :
    Prop :=
  ∀ ts hts, Begin places ts → PlacedRead places (p ts hts)

section Faults

variable {places : Location → Prop} {α β : Type} {P Q : List Token → Prop}

/-- A fault of the grammar points to the place that it carries. -/
theorem Fault.PointsTo.grammar (cause : SyntaxFault) {l : Location} (h : places l) :
    (Fault.grammar cause l).PointsTo places := by
  rintro _ ⟨⟩
  exact h

/-- A fault without a place points nowhere that would not be allowed. -/
theorem Fault.PointsTo.of_not_located {e : Fault} (h : ¬e.Located) : e.PointsTo places := by
  intro l hl
  simp [hl] at h

/-- Behind a production that points to the given places stand tokens that begin there. -/
theorem PlacedRead.behind {x : Except Fault (α × { rest : List Token // P rest })}
    {f : α × { rest : List Token // P rest } → Except Fault (β × { rest : List Token // Q rest })}
    (hx : PlacedRead places x)
    (hnext : ∀ a rest h, Begin places rest → PlacedRead places (f (a, ⟨rest, h⟩))) :
    PlacedRead places (x >>= f) := by
  cases hx with
  | ok hrest => exact hnext _ _ _ hrest
  | error h => exact .error h

/-- A step whose faults have no place can go first. -/
theorem PlacedRead.step {x : Except Fault α}
    {f : α → Except Fault (β × { rest : List Token // Q rest })} (hx : Avoids Fault.Located x)
    (hnext : ∀ a, PlacedRead places (f a)) : PlacedRead places (x >>= f) := by
  cases x with
  | ok a => exact hnext a
  | error e => exact .error (.of_not_located (avoids_error.1 hx))

end Faults

section Tokens

variable {places : Location → Prop} {t : Token} {ts : List Token} {scope : Scope}

/-- The first token begins at one of the places. -/
theorem Begin.head (h : Begin places (t :: ts)) : places t.span.start := h t List.mem_cons_self

/-- The tokens behind the first begin at the places as well. -/
theorem Begin.tail (h : Begin places (t :: ts)) : Begin places ts := fun u hu =>
  h u (List.mem_cons_of_mem t hu)

/-- A missing symbol is reported where the next token begins, or where the script ends. -/
theorem placed_expectSymbol (hfinish : places scope.finish) (s : Symbol) (expected : Expected)
    (h : Begin places ts) : PlacedRead places (expectSymbol scope s expected ts) := by
  cases ts with
  | nil => exact .error (.grammar _ hfinish)
  | cons t rest =>
    rw [expectSymbol]
    split
    · exact .ok h.tail
    · exact .error (.grammar _ h.head)

end Tokens

/-- Operands whose kinds or lengths do not fit are reported without a place. -/
theorem not_located_checkOperands (op : BinaryOp) (left right : Shape) :
    Avoids Fault.Located (checkOperands op left right) := by
  unfold checkOperands
  repeat' split
  all_goals simp [Fault.location?]

namespace Expr

section Levels

variable {places : Location → Prop} {scope : Scope} {n : Nat} {operand : Level n}
  {nested : Nested n}

/-- A binary expression is refused without a place. -/
theorem not_located_binary? (lengths : Lengths) (op : BinaryOp) (left right : Expr) :
    Avoids Fault.Located (binary? lengths op left right) :=
  (not_located_checkOperands _ _ _).bind fun _ _ => avoids_ok _

/-- An indexed expression is refused without a place. -/
theorem not_located_index? (lengths : Lengths) (vector position : Expr) :
    Avoids Fault.Located (index? lengths vector position) := by
  unfold index?
  split <;> simp [Fault.location?]

/-! ## Operators -/

/-- A chain of operators points to the places that its operands point to. -/
theorem places_chain (operator? : Token → List Token → Option BinaryOp)
    (hoperand : Places places operand) (left : Expr) :
    Places places (chain scope operator? operand left) := by
  intro ts
  induction hk : ts.length using Nat.strongRecOn generalizing left ts with
  | ind k ih =>
    intro hts h
    cases ts with
    | nil =>
      rw [chain]
      exact .ok h
    | cons t rest =>
      rw [chain]
      split
      next => exact .ok h
      next op hop =>
        refine (hoperand _ _ h.tail).behind ?_
        intro right after hless hafter
        have hlt : after.length < k := by
          rw [← hk, List.length_cons]
          omega
        refine .step (not_located_binary? _ _ _ _) fun node => ?_
        exact (ih _ hlt node after rfl _ hafter).behind fun _ _ _ hfinal => .ok hfinal

/-- A level of operators that associate to the left points to the places that its operands
point to. -/
theorem places_joined (operator? : Token → List Token → Option BinaryOp)
    (hoperand : Places places operand) : Places places (joined scope operator? operand) := by
  intro ts hts h
  refine (hoperand _ _ h).behind ?_
  intro left after hless hafter
  exact (places_chain operator? hoperand left _ _ hafter).behind fun _ _ _ hfinal => .ok hfinal

/-- Comparisons point to the places that their operands point to. -/
theorem places_compared (hoperand : Places places operand) :
    Places places (compared scope operand) := by
  intro ts hts h
  refine (hoperand _ _ h).behind ?_
  intro left after hless hafter
  cases after with
  | nil => exact .ok hafter
  | cons t rest =>
    dsimp only
    split
    next => exact .ok hafter
    next op hop =>
      refine (hoperand _ _ hafter.tail).behind ?_
      intro right final hfinal hkept
      dsimp only
      cases final with
      | nil => exact .step (not_located_binary? _ _ _ _) fun node => .ok hkept
      | cons next more =>
        dsimp only [List.head?_cons]
        split
        -- a second comparison sign is what the fault points at
        · exact .error (.grammar _ hkept.head)
        · exact .step (not_located_binary? _ _ _ _) fun node => .ok hkept

/-- Ranges point to the places that their bounds point to. -/
theorem places_ranged (hoperand : Places places operand) :
    Places places (ranged scope operand) := by
  intro ts hts h
  refine (hoperand _ _ h).behind ?_
  intro left after hless hafter
  cases after with
  | nil => exact .ok hafter
  | cons t rest =>
    dsimp only
    split
    next => exact .ok hafter
    next build hbuild =>
      refine (hoperand _ _ hafter.tail).behind ?_
      intro right final hfinal hkept
      dsimp only
      split
      · exact .error (.of_not_located (by simp [Fault.location?]))
      · exact .ok hkept

/-- Signs point to the places that their operand points to. -/
theorem places_signed (hoperand : Places places operand) : Places places (signed operand) := by
  intro ts hts h
  induction ts with
  | nil => exact hoperand _ _ h
  | cons t rest ih =>
    rw [signed]
    split
    next => exact hoperand _ _ h
    next op hop => exact (ih _ h.tail).behind fun _ _ _ hafter => .ok hafter

/-! ## Indices -/

/-- A bound that may be left out points to the places that a bound points to. -/
theorem places_optional (hnested : Places places nested) (stops : List Symbol) :
    Places places (optional nested stops) := by
  intro ts hts h
  rw [optional]
  split
  · exact .ok h
  · exact (hnested _ _ h).behind fun _ _ _ hafter => .ok hafter

/-- Behind a colon the tokens begin at the same places. -/
theorem begin_of_afterColon? {ts : List Token} {rest : Rest ts} (h : Begin places ts)
    (hcolon : afterColon? ts = some rest) : Begin places rest.val := by
  cases ts with
  | nil => cases hcolon
  | cons t more =>
    rw [afterColon?] at hcolon
    split at hcolon
    · cases hcolon
      exact h.tail
    · cases hcolon

/-- The rest of a slice points to the places that its bounds point to. -/
theorem places_sliceTail (hnested : Places places nested) (start : Option Expr) :
    Places places (sliceTail nested start) := by
  intro ts hts h
  refine (places_optional hnested _ _ _ h).behind ?_
  intro stop after hle hafter
  dsimp only
  split
  next => exact .ok hafter
  next rest hless hcolon =>
    have hrest := begin_of_afterColon? hafter hcolon
    exact (places_optional hnested _ _ _ hrest).behind fun _ _ _ hfinal => .ok hfinal

/-- What stands between brackets points to the places that expressions point to. -/
theorem places_position (hnested : Places places nested) : Places places (position nested) := by
  intro ts hts h
  rw [position]
  split
  next rest hless hcolon =>
    have hrest := begin_of_afterColon? h hcolon
    exact (places_sliceTail hnested _ _ _ hrest).behind fun _ _ _ hfinal => .ok hfinal
  next =>
    refine (hnested _ _ h).behind ?_
    intro start after hless hafter
    dsimp only
    split
    next => exact .ok hafter
    next rest hless' hcolon =>
      have hrest := begin_of_afterColon? hafter hcolon
      exact (places_sliceTail hnested _ _ _ hrest).behind fun _ _ _ hfinal => .ok hfinal

/-- Any number of indices points to the places that expressions point to. -/
theorem places_indices (hfinish : places scope.finish) (hnested : Places places nested) (e : Expr) :
    Places places (indices scope nested e) := by
  intro ts
  induction hk : ts.length using Nat.strongRecOn generalizing e ts with
  | ind k ih =>
    intro hts h
    cases ts with
    | nil =>
      rw [indices]
      exact .ok h
    | cons t rest =>
      rw [indices]
      split
      · refine (places_position hnested _ _ h.tail).behind ?_
        intro place after hless hafter
        refine (placed_expectSymbol hfinish _ _ hafter).behind ?_
        intro _ closed hclosed hrest
        have hlt : closed.length < k := by
          rw [← hk, List.length_cons]
          omega
        refine .step (not_located_index? _ _ _) fun node => ?_
        exact (ih _ hlt node closed rfl _ hrest).behind fun _ _ _ hfinal => .ok hfinal
      · exact .ok h

/-- An expression with indices points to the places that its parts point to. -/
theorem places_indexed (hfinish : places scope.finish) (hnested : Places places nested)
    (hoperand : Places places operand) : Places places (indexed scope nested operand) := by
  intro ts hts h
  refine (hoperand _ _ h).behind ?_
  intro e after hless hafter
  exact (places_indices hfinish hnested e _ _ hafter).behind fun _ _ _ hfinal => .ok hfinal

/-! ## Operands -/

/-- The elements of a vector point to the places that expressions point to. -/
theorem places_elements (hfinish : places scope.finish) (hnested : Places places nested) :
    Places places (elements scope nested) := by
  intro ts
  induction hk : ts.length using Nat.strongRecOn generalizing ts with
  | ind k ih =>
    intro hts h
    rw [elements]
    refine (hnested _ _ h).behind ?_
    intro e after hless hafter
    dsimp only
    split
    · exact .error (.of_not_located (by simp [Fault.location?]))
    cases after with
    | nil => exact .error (.grammar _ hfinish)
    | cons t rest =>
      have hlt : rest.length < k := by
        rw [← hk]
        exact Nat.lt_of_succ_lt hless
      dsimp only [pure_bind]
      split
      · exact (ih _ hlt rest rfl _ hafter.tail).behind fun _ _ _ hfinal => .ok hfinal
      · split
        · exact .ok hafter.tail
        · exact .error (.grammar _ hafter.head)

/-- A vector points to the places that its elements point to. -/
theorem places_vectorLiteral (hfinish : places scope.finish) (hnested : Places places nested) :
    Places places (vectorLiteral scope nested) := by
  intro ts hts h
  cases ts with
  | nil =>
    exact (places_elements hfinish hnested _ _ h).behind fun _ _ _ hfinal => .ok hfinal
  | cons t rest =>
    rw [vectorLiteral]
    split
    · exact .ok h.tail
    · exact (places_elements hfinish hnested _ _ h).behind fun _ _ _ hfinal => .ok hfinal

/-- Parentheses point to the places that what they enclose points to. -/
theorem places_parenthesised (hfinish : places scope.finish) (hnested : Places places nested) :
    Places places (parenthesised scope nested) := by
  intro ts hts h
  cases ts with
  | nil =>
    refine (hnested _ _ h).behind ?_
    intro e after hless hafter
    exact (placed_expectSymbol hfinish _ _ hafter).behind fun _ _ _ hfinal => .ok hfinal
  | cons t rest =>
    simp only [parenthesised]
    split
    · refine (hnested _ _ h.tail).behind ?_
      intro e after hless hafter
      refine (placed_expectSymbol hfinish _ _ hafter).behind ?_
      intro _ barred hbarred hrest
      exact (placed_expectSymbol hfinish _ _ hrest).behind fun _ _ _ hfinal => .ok hfinal
    · refine (hnested _ _ h).behind ?_
      intro e after hless hafter
      exact (placed_expectSymbol hfinish _ _ hafter).behind fun _ _ _ hfinal => .ok hfinal

/-- The innermost level points to the places that nested expressions point to. -/
theorem places_primary (hfinish : places scope.finish) (hnested : Places places nested) :
    Places places (primary scope nested) := by
  intro ts hts h
  cases ts with
  | nil => exact .error (.grammar _ hfinish)
  | cons t rest =>
    simp only [primary]
    split
    -- literals and variables are one token
    next => exact .ok h.tail
    next => exact .ok h.tail
    next => exact .ok h.tail
    next => exact .ok h.tail
    next =>
      exact (places_parenthesised hfinish hnested _ _ h.tail).behind fun _ _ _ hfinal => .ok hfinal
    next =>
      exact (places_vectorLiteral hfinish hnested _ _ h.tail).behind fun _ _ _ hfinal => .ok hfinal
    next => exact .error (.grammar _ h.head)
    next => exact .error (.grammar _ h.head)

/-! ## Expressions -/

/-- A whole expression points to the places that nested expressions point to. -/
theorem places_fullLevel (hfinish : places scope.finish) (hnested : Places places nested) :
    Places places (fullLevel scope nested) := by
  refine places_joined disjunction? (places_joined conjunction? ?_)
  refine places_compared (places_ranged (places_joined sum? (places_joined product? ?_)))
  exact places_signed (places_indexed hfinish hnested (places_primary hfinish hnested))

/-- The faults of reading an expression point to the given places. -/
theorem placed_parse (hfinish : places scope.finish) {ts : List Token} (h : Begin places ts) :
    PlacedRead places (parse scope ts) := by
  rw [parse]
  refine places_fullLevel hfinish ?_ _ _ h
  intro inner hless hinner
  exact placed_parse hfinish hinner
termination_by ts.length

end Levels

end Expr

/-! ## Assignments and directives -/

section Programs

variable {places : Location → Prop} {scope : Scope} {ts : List Token}

/-- A compound assignment is written out without a fault that has a place. -/
theorem Assignment.not_located_desugar (lengths : Lengths) (target : Variable)
    (op? : Option Arithmetic) (value : Expr) :
    Avoids Fault.Located (desugar lengths target op? value) := by
  cases op? with
  | none => exact avoids_ok _
  | some op => exact Expr.not_located_binary? _ _ _ _

/-- A target that does not suit its value is reported without a place. -/
theorem Assignment.not_located_checkTarget (target : Variable) (shape : Shape) :
    Avoids Fault.Located (checkTarget target shape) := by
  unfold checkTarget
  split <;> simp [Fault.location?]

/-- Reading an assignment points to places where tokens begin, or to the end of the script. -/
theorem Assignment.placed_parse (hfinish : places scope.finish) (inBlock : Bool)
    (h : Begin places ts) : PlacedRead places (parse scope inBlock ts) := by
  match ts, h with
  | [], _ => exact .error (.grammar _ hfinish)
  | [t], h =>
    simp only [parse]
    split
    · exact .error (.grammar _ hfinish)
    · exact .error (.grammar _ h.head)
  | t :: sign :: rest, h =>
    simp only [parse]
    split
    next target =>
      split
      next => exact .error (.grammar _ h.tail.head)
      next op? =>
        split
        · exact .error (.grammar _ h.tail.head)
        · refine (Expr.placed_parse hfinish h.tail.tail).behind ?_
          intro operand after hless hafter
          refine .step (not_located_desugar _ _ _ _) fun value => ?_
          refine (placed_expectSymbol hfinish _ _ hafter).behind ?_
          intro _ final hfinal hrest
          exact .step (not_located_checkTarget _ _) fun _ => .ok hrest
    next => exact .error (.grammar _ h.head)

/-- Reading a directive points to places where tokens begin, or to the end of the script. -/
theorem AlphaPolicy.placed_parse (hfinish : places scope.finish) (first : Token)
    (h : Begin places ts) : PlacedRead places (parse scope first ts) := by
  match ts, h with
  | [], _ => exact .error (.grammar _ hfinish)
  | [t], h =>
    simp only [parse]
    split
    · exact .error (.grammar _ hfinish)
    · exact .error (.grammar _ h.head)
  | t :: close :: rest, h =>
    simp only [parse]
    split
    · split
      · exact .ok h.tail.tail
      · exact .error (.grammar _ h.tail.head)
    · exact .error (.grammar _ h.head)

/-! ## Rules -/

/-- A missing keyword is reported where the next token begins, or where the script ends. -/
theorem placed_expectKeyword (hfinish : places scope.finish) (k : Keyword) (h : Begin places ts) :
    PlacedRead places (expectKeyword scope k ts) := by
  cases ts with
  | nil => exact .error (.grammar _ hfinish)
  | cons t rest =>
    rw [expectKeyword]
    split
    · exact .ok h.tail
    · exact .error (.grammar _ h.head)

/-- Behind the name of a space the tokens begin at the same places. -/
theorem begin_of_spaceName? {name : String} {rest : Rest ts} (h : Begin places ts)
    (hspace : spaceName? ts = some (name, rest)) : Begin places rest.val := by
  cases ts with
  | nil => cases hspace
  | cons t more =>
    rw [spaceName?] at hspace
    split at hspace
    · cases hspace
      exact h.tail
    · cases hspace

/-- The place where a reader stands is that of the next token, or the end of the script. -/
theorem Scope.places_here (hfinish : places scope.finish) (h : Begin places ts) :
    places (scope.here ts) := by
  cases ts with
  | nil => exact hfinish
  | cons t rest => exact h.head

namespace Rule

/-- Reading the statements of a block points to places where tokens begin, or to the end of the
script. -/
theorem placed_assignments {scope : Scope} (hfinish : places scope.finish) {ts : List Token}
    (h : Begin places ts) : PlacedRead places (assignments scope ts) := by
  rw [assignments]
  split
  · refine (Assignment.placed_parse hfinish true h).behind ?_
    rintro ⟨a, lengths⟩ after hless hafter
    have hnext : places ({ scope with lengths := lengths } : Scope).finish := hfinish
    exact (placed_assignments hnext hafter).behind fun _ _ _ hfinal => .ok hfinal
  · exact .ok h
termination_by ts.length

/-- Reading the blocks of a rule points to places where tokens begin, or to the end of the
script. -/
theorem placed_sections (hfinish : places scope.finish) {ts : List Token} (h : Begin places ts) :
    PlacedRead places (sections scope ts) := by
  cases ts with
  | nil =>
    rw [sections]
    exact .error (.grammar _ hfinish)
  | cons t rest =>
    rw [sections]
    split
    · exact .ok h.tail
    · split
      · split
        next => exact .error (.grammar _ (Scope.places_here hfinish h.tail))
        next space named hless hspace =>
          refine (placed_expectSymbol hfinish _ _ (begin_of_spaceName? h.tail hspace)).behind ?_
          intro _ opened hopened hopen
          have hopened' : opened.length < named.length := hopened
          refine (placed_assignments hfinish hopen).behind ?_
          intro statements after hle hafter
          dsimp only
          split
          · exact .error (.grammar _ (Scope.places_here hfinish hafter))
          · exact (placed_sections hfinish hafter).behind fun _ _ _ hfinal => .ok hfinal
      · exact .error (.grammar _ h.head)
termination_by ts.length
decreasing_by
  subst_vars
  rw [List.length_cons]
  omega

/-- Whether or not a space is named, the tokens left over begin at the same places. -/
theorem begin_of_optionalSpace (h : Begin places ts) : Begin places (optionalSpace ts).2.val := by
  unfold optionalSpace
  split
  next hspace => exact begin_of_spaceName? h hspace
  next => exact h

/-- Reading a rule points to places where tokens begin, or to the end of the script. -/
theorem placed_parse (hfinish : places scope.finish) (h : Begin places ts) :
    PlacedRead places (parse scope ts) := by
  have hnamed := begin_of_optionalSpace h
  rw [parse]
  generalize optionalSpace ts = named at *
  obtain ⟨space, named, hle⟩ := named
  refine (placed_expectKeyword hfinish _ hnamed).behind ?_
  intro _ second h₂ hsecond
  refine (placed_expectKeyword hfinish _ hsecond).behind ?_
  intro _ third h₃ hthird
  refine (Expr.placed_parse hfinish hthird).behind ?_
  intro predicate fourth h₄ hfourth
  refine (placed_expectKeyword hfinish _ hfourth).behind ?_
  intro _ body h₅ hbody
  refine (placed_assignments hfinish hbody).behind ?_
  intro leading rest h₆ hrest
  refine (placed_sections hfinish hrest).behind ?_
  intro more closed h₇ hclosed
  exact (placed_expectSymbol hfinish _ _ hclosed).behind fun _ _ _ hfinal => .ok hfinal

end Rule

/-! ## Programs -/

/-- Reading a statement points to places where tokens begin, or to the end of the script. -/
theorem Statement.placed_parse {finish : Location} (hfinish : places finish) (s : ReadState)
    (h : Begin places ts) : PlacedRead places (parse finish s ts) := by
  cases ts with
  | nil => exact .error (.grammar _ hfinish)
  | cons t rest =>
    simp only [parse]
    split
    next =>
      exact (Assignment.placed_parse hfinish false h).behind fun _ _ _ hfinal => .ok hfinal
    next =>
      exact (AlphaPolicy.placed_parse hfinish t h.tail).behind fun _ _ _ hfinal => .ok hfinal
    next => exact (Rule.placed_parse hfinish h.tail).behind fun _ _ _ hfinal => .ok hfinal
    next => exact .error (.grammar _ h.head)

/-- The statements before the one that fails leave tokens over that begin at the given places. -/
theorem Program.pointsTo_of_parseFrom {finish : Location} (hfinish : places finish) {s : ReadState}
    {e : Fault} (h : Begin places ts) (hfault : parseFrom finish s ts = .error e) :
    e.PointsTo places := by
  induction hk : ts.length using Nat.strongRecOn generalizing s ts with
  | ind k ih =>
    cases ts with
    | nil =>
      rw [parseFrom] at hfault
      cases hfault
    | cons t rest =>
      rw [parseFrom] at hfault
      have hstatement := Statement.placed_parse hfinish s h
      generalize Statement.parse finish s (t :: rest) = read at *
      cases hstatement with
      | error he =>
        cases hfault
        exact he
      | @ok first after hless hafter =>
        rw [ok_bind] at hfault
        rcases bind_eq_error.1 hfault with hmore | ⟨_, -, hdone⟩
        · exact ih after.length (hk ▸ hless) hafter hmore rfl
        · cases hdone

/-- The faults of reading a program point to places where tokens begin, or where they end. -/
theorem Program.pointsTo_of_parse {lengths : Lengths} {e : Fault}
    (hfinish : places (endLocation ts)) (h : Begin places ts)
    (hfault : parse ts lengths = .error e) : e.PointsTo places := by
  rcases bind_eq_error.1 hfault with hfault | ⟨_, -, hdone⟩
  · exact pointsTo_of_parseFrom hfinish h hfault
  · cases hdone

/-- Likewise for an expression that has to take up all tokens. -/
theorem pointsTo_of_parseExpression {e : Fault} (hfinish : places (endLocation ts))
    (h : Begin places ts) (hfault : parseExpression ts = .error e) : e.PointsTo places := by
  have hread : PlacedRead places (Expr.parse ⟨[], endLocation ts⟩ ts) :=
    Expr.placed_parse hfinish h
  rw [parseExpression] at hfault
  generalize Expr.parse ⟨[], endLocation ts⟩ ts = read at *
  cases hread with
  | error he =>
    cases hfault
    exact he
  | @ok expr rest hless hrest =>
    cases rest with
    | nil => cases hfault
    | cons t more =>
      cases hfault
      exact .grammar _ hrest.head

end Programs

end Recolor
