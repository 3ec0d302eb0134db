import Recolor.Proofs.ParserProgress

/-!
# The loops of the parser

Each loop of the parser is written out here as the repetition of a round, at positions of a list of
tokens: a round looks at the tokens from its position on, and either stops with an answer or hands
what it gathered so far to another round at another position. `Repeats` says of a loop that it does
nothing but repeat a round, and that a round comes back only at a later position.

Nothing but the number of tokens keeps such a loop from going on for ever. `repeated` runs a round
as often as a budget allows, and as many rounds as there are tokens left, and one more, are enough
for any budget to be the same (`Repeats.halts`).
-/

set_option autoImplicit false

namespace Recolor

/-! ## Rounds -/

/-- What a round of a loop comes to, and the position that it has come to: the loop stops with an
answer, or there is another round with what was gathered so far. -/
inductive Round (σ β : Type) where
  | stop (answer : β) (p : Nat)
  | again (state : σ) (p : Nat)

/-- Goes on by whether there is another round. -/
def Round.elim {σ β γ : Type} (r : Round σ β) (stop : β → Nat → γ) (again : σ → Nat → γ) : γ :=
  match r with
  | .stop answer p => stop answer p
  | .again state p => again state p

/-- Repeats a round, but no more often than the budget allows; `none` says that it was used up. -/
def repeated {σ β : Type} (round : σ → Nat → Except Fault (Round σ β)) :
    Nat → σ → Nat → Except Fault (Option (β × Nat))
  | 0, _, _ => .ok none
  | budget + 1, state, p =>
    round state p >>= fun r =>
      r.elim (fun answer q => .ok (some (answer, q))) (repeated round budget)

/-- The loop repeats the round, and no round comes back without having consumed a token. -/
structure Repeats {σ β : Type} (tokens : List Token) (round : σ → Nat → Except Fault (Round σ β))
    (loop : σ → Nat → Except Fault (β × Nat)) : Prop where
  unfolds : ∀ state p, p ≤ tokens.length →
    loop state p = round state p >>= fun r => r.elim (fun answer q => .ok (answer, q)) loop
  progress : ∀ state p next q, p ≤ tokens.length → round state p = .ok (.again next q) →
    p < q ∧ q ≤ tokens.length

/-- The loop is the repetition of the round. No round comes back without having consumed a token,
and as many rounds as there are tokens left, and one more, are enough for any budget to be the
same. -/
structure Halts {σ β : Type} (tokens : List Token) (round : σ → Nat → Except Fault (Round σ β))
    (loop : σ → Nat → Except Fault (β × Nat)) : Prop where
  progress : ∀ state p next q, p ≤ tokens.length → round state p = .ok (.again next q) →
    p < q ∧ q ≤ tokens.length
  repeated_eq : ∀ budget state p, p ≤ tokens.length → tokens.length - p < budget →
    repeated round budget state p = (loop state p).map some

/-- A loop that repeats a round, and makes progress with each, halts. -/
theorem Repeats.halts {σ β : Type} {tokens : List Token}
    {round : σ → Nat → Except Fault (Round σ β)} {loop : σ → Nat → Except Fault (β × Nat)}
    (h : Repeats tokens round loop) : Halts tokens round loop := by
  refine ⟨h.progress, ?_⟩
  intro budget
  induction budget with
  | zero =>
    intro state p hp hbudget
    omega
  | succ budget ih =>
    intro state p hp hbudget
    rw [repeated, h.unfolds state p hp]
    cases hround : round state p with
    | error fault => rfl
    | ok r =>
      cases r with
      | stop answer q => rfl
      | again next q =>
        obtain ⟨hmore, hend⟩ := h.progress state p next q hp hround
        exact ih next q hend (by omega)

/-! ## Productions at positions -/

section Places

variable {α : Type} {tokens ts rest : List Token} {t : Token} {p q : Nat}

/-- The outcome of a production, with the position of the tokens left over in their place. -/
def placed {P : List Token → Prop} (tokens : List Token)
    (outcome : Except Fault (α × { rest : List Token // P rest })) : Except Fault (α × Nat) :=
  outcome.map fun answer => (answer.1, tokens.length - answer.2.1.length)

/-- A production that leaves over the tokens from a position on has come to that position. -/
theorem placed_ok {P : List Token → Prop} {a : α} {h : P (tokens.drop q)} (hq : q ≤ tokens.length) :
    placed tokens (.ok (a, (⟨tokens.drop q, h⟩ : { rest : List Token // P rest }))) =
      .ok (a, q) := by
  rw [placed, map_ok, List.length_drop, Nat.sub_sub_self hq]

/-- A production that fails does so at positions as well. -/
theorem placed_error {P : List Token → Prop} {fault : Fault} :
    placed tokens (.error fault : Except Fault (α × { rest : List Token // P rest })) =
      .error fault := rfl

/-- Behind any position there are no more tokens than before it. -/
theorem length_drop_lt {n : Nat} (fits : tokens.length < n) (p : Nat) :
    (tokens.drop p).length < n := by
  rw [List.length_drop]
  omega

/-- Behind any position there are no more tokens than in the whole. -/
theorem length_drop_le {n : Nat} (fits : tokens.length < n) (p : Nat) :
    (tokens.drop p).length ≤ n :=
  Nat.le_of_lt (length_drop_lt fits p)

/-- A position at which a token stands is not the end. -/
theorem lt_of_drop_eq_cons (h : tokens.drop p = t :: rest) : p < tokens.length := by
  have hlength := congrArg List.length h
  simp only [List.length_drop, List.length_cons] at hlength
  omega

/-- Behind a token stand the tokens from the next position on. -/
theorem eq_drop_of_drop_eq_cons (h : tokens.drop p = t :: rest) : rest = tokens.drop (p + 1) := by
  rw [← List.tail_drop, h]
  rfl

/-- A production that advances fails, or answers at a later position. -/
theorem Advances.cases {P : List Token → Prop} {produce : (ts : List Token) → P ts → Parsed α ts}
    (h : Advances tokens produce) (p : Nat) (bound : P (tokens.drop p)) :
    (∃ fault, produce (tokens.drop p) bound = .error fault) ∨
      ∃ a q, p < q ∧ q ≤ tokens.length ∧ ∃ less,
        produce (tokens.drop p) bound = .ok (a, ⟨tokens.drop q, less⟩) := by
  cases hread : produce (tokens.drop p) bound with
  | error fault => exact .inl ⟨fault, rfl⟩
  | ok answer =>
    obtain ⟨a, rest, less⟩ := answer
    obtain ⟨q, hq, hend, rfl⟩ := h p bound a ⟨rest, less⟩ hread
    exact .inr ⟨a, q, hq, hend, less, rfl⟩

/-- Where a production that advances is placed. -/
theorem Advances.lt {P : List Token → Prop} {produce : (ts : List Token) → P ts → Parsed α ts}
    (h : Advances tokens produce) {bound : P (tokens.drop p)} {a : α}
    (hread : placed tokens (produce (tokens.drop p) bound) = .ok (a, q)) :
    p < q ∧ q ≤ tokens.length := by
  rcases h.cases p bound with ⟨fault, hfault⟩ | ⟨b, q', hq, hend, less, hok⟩
  · rw [hfault, placed_error] at hread
    cases hread
  · rw [hok, placed_ok hend] at hread
    cases hread
    exact ⟨hq, hend⟩

/-- A production that consumes tokens comes to a later position. -/
theorem Advances.lt_of_placed {produce : (ts : List Token) → Parsed α ts}
    (h : Advances tokens fun ts (_ : True) => produce ts) {a : α}
    (hread : placed tokens (produce (tokens.drop p)) = .ok (a, q)) : p < q ∧ q ≤ tokens.length :=
  @Advances.lt α tokens p q (fun _ => True) (fun ts _ => produce ts) h trivial a hread

/-- The same of a production for any number of tokens. -/
theorem Advances.outcome {produce : (ts : List Token) → Parsed α ts}
    (h : Advances tokens fun ts (_ : True) => produce ts) (p : Nat) :
    (∃ fault, produce (tokens.drop p) = .error fault) ∨
      ∃ a q, p < q ∧ q ≤ tokens.length ∧ ∃ less,
        produce (tokens.drop p) = .ok (a, ⟨tokens.drop q, less⟩) :=
  h.cases p trivial

/-- A sign is one token. -/
theorem advances_expectSymbol (tokens : List Token) (scope : Scope) (s : Symbol)
    (expected : Expected) :
    Advances tokens fun ts (_ : True) => expectSymbol scope s expected ts := by
  apply advances_of_suffix
  rintro ts u rest ⟨_, h⟩
  obtain ⟨t, -, hts⟩ := yields_expectSymbol.1 h
  exact ⟨[t], hts.symm⟩

end Places

/-! ## Loops in expressions -/

namespace Expr

variable {scope : Scope} {n : Nat} {tokens ts : List Token} {p : Nat}

section Chain

variable {operator? : Token → List Token → Option BinaryOp} {operand : Level n}

/-- A round of a chain of operators: an operator and its right operand, if there are any. -/
def chainRound (scope : Scope) (operator? : Token → List Token → Option BinaryOp)
    (operand : Level n) (fits : tokens.length < n) (left : Expr) (p : Nat) :
    Except Fault (Round Expr Expr) :=
  match tokens.drop p with
  | [] => .ok (.stop left p)
  | t :: rest =>
    match operator? t rest with
    | Option.none => .ok (.stop left p)
    | some op => do
      let (right, q) ←
        placed tokens (operand (tokens.drop (p + 1)) (length_drop_le fits (p + 1)))
      let node ← binary? scope.lengths op left right
      return .again node q

/-- The chain of operators at a position, behind a left operand. -/
def chainAt (scope : Scope) (operator? : Token → List Token → Option BinaryOp)
    (operand : Level n) (fits : tokens.length < n) (left : Expr) (p : Nat) :
    Except Fault (Expr × Nat) :=
  placed tokens (chain scope operator? operand left (tokens.drop p) (length_drop_le fits p))

/-- A chain of operators is one round and, if there is another operator, the chain behind it. -/
theorem unfold_chain (hoperand : Advances tokens operand) (fits : tokens.length < n) (left : Expr)
    (hp : p ≤ tokens.length) (hts : tokens.drop p = ts) (bound : ts.length ≤ n) :
    placed tokens (chain scope operator? operand left ts bound) =
      chainRound scope operator? operand fits left p >>= fun r =>
        r.elim (fun e q => .ok (e, q)) (chainAt scope operator? operand fits) := by
  have hhere : tokens.length - ts.length = p := by
    rw [← hts, List.length_drop, Nat.sub_sub_self hp]
  cases ts with
  | nil =>
    simp only [chain, chainRound, hts, placed, map_ok, hhere]
    rfl
  | cons t rest =>
    obtain rfl := eq_drop_of_drop_eq_cons hts
    rw [chain]
    simp only [chainRound, hts]
    cases operator? t (tokens.drop (p + 1)) with
    | none =>
      simp only [placed, map_ok, hhere]
      rfl
    | some op =>
      rcases hoperand.cases (p + 1) (length_drop_le fits (p + 1)) with
        ⟨fault, hfault⟩ | ⟨right, q, -, hend, less, hread⟩
      · simp only [hfault, placed_error, error_bind]
      · simp only [hread, placed_ok hend, ok_bind]
        cases binary? scope.lengths op left right with
        | error fault => rfl
        | ok node =>
          simp only [ok_bind, pure_eq_ok, Round.elim, chainAt]
          cases chain scope operator? operand node (tokens.drop q) (length_drop_le fits q) <;> rfl

/-- A chain of operators repeats a round that consumes an operator. -/
theorem repeats_chain (hoperand : Advances tokens operand) (fits : tokens.length < n) :
    Repeats tokens (chainRound scope operator? operand fits)
      (chainAt scope operator? operand fits) := by
  constructor
  · intro left p hp
    exact unfold_chain hoperand fits left hp rfl _
  · intro left p node q hp hround
    unfold chainRound at hround
    split at hround
    next => cases hround
    next =>
      split at hround
      next => cases hround
      next =>
        obtain ⟨⟨right, q'⟩, hread, hround⟩ := bind_eq_ok.1 hround
        obtain ⟨node', -, hround⟩ := bind_eq_ok.1 hround
        cases hround
        have hlt := hoperand.lt hread
        omega

end Chain

section Indices

/-- A round of the indices behind an operand: a position in brackets, if there is one. -/
def indicesRound (scope : Scope) (fits : tokens.length < n) (vector : Expr) (p : Nat) :
    Except Fault (Round Expr Expr) :=
  match tokens.drop p with
  | [] => .ok (.stop vector p)
  | t :: _ =>
    if t.kind.isSymbol .leftBracket then do
      let (place, q) ← placed tokens
        (position (nest scope n) (tokens.drop (p + 1)) (length_drop_lt fits (p + 1)))
      let ((), q) ← placed tokens
        (expectSymbol scope .rightBracket (.symbol .rightBracket) (tokens.drop q))
      let node ← index? scope.lengths vector place
      return .again node q
    else .ok (.stop vector p)

/-- The indices at a position, behind an operand. -/
def indicesAt (scope : Scope) (fits : tokens.length < n) (vector : Expr) (p : Nat) :
    Except Fault (Expr × Nat) :=
  placed tokens
    (indices scope (nest scope n) vector (tokens.drop p) (length_drop_le fits p))

/-- Indices are one round and, if there is another bracket, the indices behind it. -/
theorem unfold_indices (fits : tokens.length < n) (vector : Expr) (hp : p ≤ tokens.length)
    (hts : tokens.drop p = ts) (bound : ts.length ≤ n) :
    placed tokens (indices scope (nest scope n) vector ts bound) =
      indicesRound scope fits vector p >>= fun r =>
        r.elim (fun e q => .ok (e, q)) (indicesAt scope fits) := by
  have hhere : tokens.length - ts.length = p := by
    rw [← hts, List.length_drop, Nat.sub_sub_self hp]
  cases ts with
  | nil =>
    simp only [indices, indicesRound, hts, placed, map_ok, hhere]
    rfl
  | cons t rest =>
    obtain rfl := eq_drop_of_drop_eq_cons hts
    rw [indices]
    simp only [indicesRound, hts]
    split
    next hopen =>
      rcases (advances_position scope).cases (p + 1) (length_drop_lt fits (p + 1)) with
        ⟨fault, hfault⟩ | ⟨place, q, -, hend, less, hread⟩
      · simp only [hfault, placed_error, error_bind]
      · simp only [hread, placed_ok hend, ok_bind]
        have hcloses := advances_expectSymbol tokens scope .rightBracket (.symbol .rightBracket)
        rcases hcloses.outcome q with ⟨fault, hfault⟩ | ⟨_, q', -, hend', less', hclose⟩
        · simp only [hfault, placed_error, error_bind]
        · simp only [hclose, placed_ok hend', ok_bind]
          cases index? scope.lengths vector place with
          | error fault => rfl
          | ok node =>
            simp only [ok_bind, pure_eq_ok, Round.elim, indicesAt]
            cases indices scope (nest scope n) node (tokens.drop q') (length_drop_le fits q')
            all_goals rfl
    next hopen =>
      simp only [placed, map_ok, hhere]
      rfl

/-- Indices repeat a round that consumes a bracket. -/
theorem repeats_indices (fits : tokens.length < n) :
    Repeats tokens (indicesRound scope fits) (indicesAt scope fits) := by
  constructor
  · intro vector p hp
    exact unfold_indices fits vector hp rfl _
  · intro vector p node q hp hround
    unfold indicesRound at hround
    split at hround
    next => cases hround
    next =>
      split at hround
      next =>
        obtain ⟨⟨place, q₁⟩, hread, hround⟩ := bind_eq_ok.1 hround
        obtain ⟨⟨_, q₂⟩, hclose, hround⟩ := bind_eq_ok.1 hround
        obtain ⟨node', -, hround⟩ := bind_eq_ok.1 hround
        cases hround
        have hlt := (advances_position scope).lt hread
        have hlt' := (advances_expectSymbol _ scope _ _).lt_of_placed hclose
        omega
      next => cases hround

end Indices

section Elements

/-- A round of the elements of a vector: an element, and the sign behind it. -/
def elementsRound (scope : Scope) (fits : tokens.length < n) (items : List Expr) (p : Nat) :
    Except Fault (Round (List Expr) (List Expr)) := do
  let (e, q) ← placed tokens (nest scope n (tokens.drop p) (length_drop_lt fits p))
  if (e.shape scope.lengths).isVector then throw (.type .nestedVector)
  match tokens.drop q with
  | [] => throw (scope.endOfScript .itemEnd)
  | t :: _ =>
    if t.kind.isSymbol .comma then return .again (items ++ [e]) (q + 1)
    else if t.kind.isSymbol .rightBracket then return .stop (items ++ [e]) (q + 1)
    else throw (t.unexpected .itemEnd)

/-- The elements of a vector at a position, behind others. -/
def elementsAt (scope : Scope) (fits : tokens.length < n) (items : List Expr) (p : Nat) :
    Except Fault (List Expr × Nat) :=
  (placed tokens
    (elements scope (nest scope n) (tokens.drop p) (length_drop_lt fits p))).map
      fun (more, q) => (items ++ more, q)

/-- The elements of a vector are one round and, if a comma follows, the elements behind it. -/
theorem unfold_elements (fits : tokens.length < n) (items : List Expr) (p : Nat) :
    elementsAt scope fits items p =
      elementsRound scope fits items p >>= fun r =>
        r.elim (fun e q => .ok (e, q)) (elementsAt scope fits) := by
  unfold elementsAt elementsRound
  rw [elements]
  rcases (advances_nest scope).cases p (length_drop_lt fits p) with
    ⟨fault, hfault⟩ | ⟨e, q, -, hend, less, hread⟩
  · simp only [hfault, placed_error, error_bind]
    rfl
  · simp only [hread, placed_ok hend, ok_bind]
    clear hread
    cases (e.shape scope.lengths).isVector with
    | true => rfl
    | false =>
      simp only [Bool.false_eq_true, if_false]
      generalize hus : tokens.drop q = us at less ⊢
      cases us with
      | nil => rfl
      | cons t rest =>
        obtain rfl := eq_drop_of_drop_eq_cons hus
        have hlt := lt_of_drop_eq_cons hus
        dsimp only
        split
        next hcomma =>
          simp only [pure_eq_ok, ok_bind, Round.elim]
          have less := length_drop_lt fits (q + 1)
          cases elements scope (nest scope n) (tokens.drop (q + 1)) less with
          | error fault => rfl
          | ok answer => simp [placed]
        next hcomma =>
          split
          next hclose => simp only [pure_eq_ok, placed_ok hlt, map_ok, ok_bind, Round.elim]
          next hclose => rfl

/-- The elements of a vector repeat a round that consumes an element. -/
theorem repeats_elements (fits : tokens.length < n) :
    Repeats tokens (elementsRound scope fits) (elementsAt scope fits) := by
  constructor
  · intro items p hp
    exact unfold_elements fits items p
  · intro items p next q hp hround
    obtain ⟨⟨e, q'⟩, hread, hround⟩ := bind_eq_ok.1 hround
    have hlt := (advances_nest scope).lt hread
    dsimp only at hround
    split at hround
    next => cases hround
    next =>
      split at hround
      next => cases hround
      next t rest hcons =>
        have hmore := lt_of_drop_eq_cons hcons
        split at hround
        next =>
          cases hround
          omega
        next =>
          split at hround
          next => cases hround
          next => cases hround

end Elements

end Expr

/-! ## Loops in rules -/

namespace Rule

variable {scope : Scope} {tokens : List Token} {p : Nat}

/-- What the assignments of a block come to before a position: the assignments, and the lengths
that are known behind them. -/
abbrev BlockState := List Assignment × Lengths

/-- A round of the assignments of a block: an assignment, if one starts here. -/
def assignmentsRound (scope : Scope) (tokens : List Token) (state : BlockState) (p : Nat) :
    Except Fault (Round BlockState (List Assignment)) :=
  if startsAssignment (tokens.drop p) then do
    let ((a, lengths), q) ←
      placed tokens (Assignment.parse { scope with lengths := state.2 } true (tokens.drop p))
    return .again (state.1 ++ [a], lengths) q
  else .ok (.stop state.1 p)

/-- The assignments of a block at a position, behind others. -/
def assignmentsAt (scope : Scope) (tokens : List Token) (state : BlockState) (p : Nat) :
    Except Fault (List Assignment × Nat) :=
  (placed tokens (assignments { scope with lengths := state.2 } (tokens.drop p))).map
    fun (more, q) => (state.1 ++ more, q)

/-- The statements of a block repeat a round that consumes a statement. -/
theorem repeats_assignments :
    Repeats tokens (assignmentsRound scope tokens) (assignmentsAt scope tokens) := by
  constructor
  · rintro ⟨statements, lengths⟩ p hp
    unfold assignmentsAt assignmentsRound
    rw [assignments]
    split
    next hstarts =>
      rcases (Assignment.advances_parse tokens ⟨lengths, scope.finish⟩ true).outcome p with
        ⟨fault, hfault⟩ | ⟨⟨a, known⟩, q, -, hend, less, hread⟩
      · simp only [hfault, placed_error, error_bind]
        rfl
      · simp only [hread, placed_ok hend, ok_bind, pure_eq_ok, Round.elim]
        cases assignments ⟨known, scope.finish⟩ (tokens.drop q) with
        | error fault => rfl
        | ok answer => simp [placed]
    next hstarts =>
      simp [placed, Round.elim, Nat.sub_sub_self hp]
  · rintro ⟨statements, lengths⟩ p next q hp hround
    unfold assignmentsRound at hround
    split at hround
    next =>
      obtain ⟨⟨⟨a, known⟩, q'⟩, hread, hround⟩ := bind_eq_ok.1 hround
      cases hround
      exact (Assignment.advances_parse tokens _ true).lt_of_placed hread
    next => cases hround

/-- A round of the blocks of a rule: the word behind the last of them, or a block. -/
def sectionsRound (scope : Scope) (tokens : List Token) (blocks : List ActionBlock) (p : Nat) :
    Except Fault (Round (List ActionBlock) (List ActionBlock)) :=
  match tokens.drop p with
  | [] => .error (scope.endOfScript (.keyword .endWord))
  | t :: rest =>
    if t.kind.isKeyword .endWord then .ok (.stop blocks (p + 1))
    else if t.kind.isKeyword .usingWord then
      match spaceName? rest with
      | none => .error (.grammar .missingSpace (scope.here rest))
      | some (space, _) => do
        let ((), q) ←
          placed tokens (expectSymbol scope .colon (.symbol .colon) (tokens.drop (p + 2)))
        let (statements, q) ← placed tokens (assignments scope (tokens.drop q))
        if statements.isEmpty && endsBlock (tokens.drop q) then
          throw (.grammar (.emptyBlock space) (scope.here (tokens.drop q)))
        return .again (blocks ++ [⟨space, statements⟩]) q
    else .error (t.unexpected .blockItem)

/-- The blocks of a rule at a position, behind others. -/
def sectionsAt (scope : Scope) (tokens : List Token) (blocks : List ActionBlock) (p : Nat) :
    Except Fault (List ActionBlock × Nat) :=
  (placed tokens (sections scope (tokens.drop p))).map fun (more, q) => (blocks ++ more, q)

/-- Assignments fail, or answer at the same position or a later one. -/
theorem assignments_outcome (scope : Scope) {q : Nat} (hq : q ≤ tokens.length) :
    (∃ fault, assignments scope (tokens.drop q) = .error fault) ∨
      ∃ statements q', q ≤ q' ∧ q' ≤ tokens.length ∧ ∃ le,
        assignments scope (tokens.drop q) = .ok (statements, ⟨tokens.drop q', le⟩) := by
  cases hread : assignments scope (tokens.drop q) with
  | error fault => exact .inl ⟨fault, rfl⟩
  | ok answer =>
    obtain ⟨statements, rest, le⟩ := answer
    obtain ⟨q', hle, hend, rfl⟩ := exists_position hq (suffix_assignments ⟨le, hread⟩)
    exact .inr ⟨statements, q', hle, hend, le, rfl⟩

/-- The blocks of a rule are one round and, if there is another block, the blocks behind it. -/
theorem unfold_sections (blocks : List ActionBlock) {ts : List Token}
    (hts : tokens.drop p = ts) :
    (placed tokens (sections scope ts)).map (fun (more, q) => (blocks ++ more, q)) =
      sectionsRound scope tokens blocks p >>= fun r =>
        r.elim (fun all q => .ok (all, q)) (sectionsAt scope tokens) := by
  cases ts with
  | nil =>
    simp only [sections, sectionsRound, hts]
    rfl
  | cons t rest =>
    have hlt := lt_of_drop_eq_cons hts
    obtain rfl := eq_drop_of_drop_eq_cons hts
    rw [sections]
    simp only [sectionsRound, hts]
    split
    next hfinish => simp only [placed_ok hlt, map_ok, ok_bind, Round.elim, List.append_nil]
    next hfinish =>
      split
      next husing =>
        cases hspace : spaceName? (tokens.drop (p + 1)) with
        | none => rfl
        | some found =>
          obtain ⟨space, named, less⟩ := found
          obtain ⟨u, -, hnamed⟩ := spaceName?_eq_some.1 hspace
          obtain rfl := eq_drop_of_drop_eq_cons hnamed
          dsimp only
          rcases (advances_expectSymbol tokens scope .colon (.symbol .colon)).outcome (p + 2) with
            ⟨fault, hfault⟩ | ⟨_, q, -, hend, less', hcolon⟩
          · simp only [hfault, placed_error, error_bind]
            rfl
          · simp only [hcolon, placed_ok hend, ok_bind]
            rcases assignments_outcome scope hend with
              ⟨fault, hfault⟩ | ⟨statements, q', -, hend', le, hstatements⟩
            · simp only [hfault, placed_error, error_bind]
              rfl
            · simp only [hstatements, placed_ok hend', ok_bind]
              split
              next hempty => rfl
              next hempty =>
                simp only [pure_eq_ok, ok_bind, Round.elim, sectionsAt]
                cases sections scope (tokens.drop q') with
                | error fault => rfl
                | ok answer => simp [placed]
      next husing => rfl

/-- The blocks of a rule repeat a round that consumes a block. -/
theorem repeats_sections :
    Repeats tokens (sectionsRound scope tokens) (sectionsAt scope tokens) := by
  constructor
  · intro blocks p hp
    exact unfold_sections blocks rfl
  · intro blocks p next q hp hround
    unfold sectionsRound at hround
    split at hround
    next => cases hround
    next =>
      split at hround
      next => cases hround
      next =>
        split at hround
        next =>
          split at hround
          next => cases hround
          next =>
            obtain ⟨⟨_, q₁⟩, hcolon, hround⟩ := bind_eq_ok.1 hround
            obtain ⟨⟨statements, q₂⟩, hread, hround⟩ := bind_eq_ok.1 hround
            have hlt := (advances_expectSymbol tokens scope _ _).lt_of_placed hcolon
            have hle : q₁ ≤ q₂ ∧ q₂ ≤ tokens.length := by
              rcases assignments_outcome scope hlt.2 with
                ⟨fault, hfault⟩ | ⟨_, q', hle, hend, _, hok⟩
              · rw [hfault, placed_error] at hread
                cases hread
              · rw [hok, placed_ok hend] at hread
                cases hread
                exact ⟨hle, hend⟩
            dsimp only at hround
            split at hround
            next => cases hround
            next =>
              cases hround
              omega
        next => cases hround

end Rule

/-! ## The loop of programs -/

namespace Program

variable {finish : Location} {tokens : List Token}

/-- What a program comes to before a position: its statements, and what is remembered of them. -/
abbrev ProgramState := Program × ReadState

/-- A round of a program: a statement, if any token is left. -/
def parseRound (finish : Location) (tokens : List Token) (state : ProgramState) (p : Nat) :
    Except Fault (Round ProgramState ProgramState) :=
  match tokens.drop p with
  | [] => .ok (.stop state p)
  | _ :: _ => do
    let ((statement, next), q) ← placed tokens (Statement.parse finish state.2 (tokens.drop p))
    return .again (state.1 ++ [statement], next) q

/-- The statements at a position, behind others. -/
def parseAt (finish : Location) (tokens : List Token) (state : ProgramState) (p : Nat) :
    Except Fault (ProgramState × Nat) :=
  (parseFrom finish state.2 (tokens.drop p)).map
    fun (more, last) => ((state.1 ++ more, last), tokens.length)

/-- A script that does not end here is a statement and the script behind it. -/
theorem parseFrom_of_ne_nil {s : ReadState} {ts : List Token} (hts : ts ≠ []) :
    parseFrom finish s ts = Statement.parse finish s ts >>= fun answer =>
      parseFrom finish answer.1.2 answer.2.1 >>= fun more =>
        .ok (answer.1.1 :: more.1, more.2) := by
  cases ts with
  | nil => exact absurd rfl hts
  | cons t rest =>
    rw [parseFrom]
    rfl

/-- The statements of a script repeat a round that consumes a statement. -/
theorem repeats_parse : Repeats tokens (parseRound finish tokens) (parseAt finish tokens) := by
  constructor
  · rintro ⟨program, s⟩ p hp
    unfold parseRound
    split
    next hnil =>
      simp only [parseAt, hnil, parseFrom]
      have hend := congrArg List.length hnil
      simp only [List.length_drop, List.length_nil] at hend
      simp [Round.elim]
      omega
    next t rest hcons =>
      have hne : tokens.drop p ≠ [] := by
        rw [hcons]
        exact List.cons_ne_nil t rest
      simp only [parseAt, parseFrom_of_ne_nil hne]
      rcases (Statement.advances_parse tokens finish s).outcome p with
        ⟨fault, hfault⟩ | ⟨⟨statement, known⟩, q, -, hend, less, hread⟩
      · simp only [hfault, placed_error, error_bind]
        rfl
      · simp only [hread, placed_ok hend, ok_bind, pure_eq_ok, Round.elim, parseAt]
        cases parseFrom finish known (tokens.drop q) with
        | error fault => rfl
        | ok answer => simp
  · rintro ⟨program, s⟩ p next q hp hround
    unfold parseRound at hround
    split at hround
    next => cases hround
    next =>
      obtain ⟨⟨⟨statement, known⟩, q'⟩, hread, hround⟩ := bind_eq_ok.1 hround
      cases hround
      exact (Statement.advances_parse tokens finish s).lt_of_placed hread

/-- Reading a program is its loop, from the first token on. -/
theorem parse_eq_parseAt (lengths : Lengths) :
    parse tokens lengths =
      (parseAt (endLocation tokens) tokens ([], { lengths := lengths }) 0).map
        fun answer => (answer.1.1, answer.1.2.warnings) := by
  unfold parse parseAt
  rw [List.drop_zero]
  cases parseFrom (endLocation tokens) { lengths := lengths } tokens <;> rfl

end Program

/-! ## The parser -/

/-- The parser makes progress on every list of tokens, from every position in it. Each production
that answers has come to a later position, at most that of the end: each level of the grammar of
expressions, what stands in the brackets of an index and of a vector, whole expressions,
assignments, directives, rules with their blocks, and all statements. No loop of the parser has a
round that comes back without having consumed a token; each of them ends within as many rounds as
there are tokens left, and one more. Expressions do not stand inside each other more often than
there are tokens. So reading an expression or a program comes to an end. -/
theorem parser_progress (tokens : List Token) (scope : Scope) :
    (∀ n, (∀ level ∈ Expr.levels scope (Expr.nest scope n), Advances tokens level) ∧
      Advances tokens (Expr.position (Expr.nest scope n)) ∧
      Advances tokens (Expr.vectorLiteral scope (Expr.nest scope n)) ∧
      Advances tokens (Expr.elements scope (Expr.nest scope n))) ∧
    ((Advances tokens fun ts (_ : True) => Expr.parse scope ts) ∧
      (∀ inBlock, Advances tokens fun ts (_ : True) => Assignment.parse scope inBlock ts) ∧
      (∀ first, Advances tokens fun ts (_ : True) => AlphaPolicy.parse scope first ts) ∧
      (Advances tokens fun ts (_ : True) => Rule.parse scope ts) ∧
      (Advances tokens fun ts (_ : True) => Rule.sections scope ts) ∧
      ∀ s, Advances tokens fun ts (_ : True) => Statement.parse scope.finish s ts) ∧
    (∀ n (fits : tokens.length < n),
      (∀ operator?, ∀ operand ∈ Expr.levels scope (Expr.nest scope n),
        Halts tokens (Expr.chainRound scope operator? operand fits)
          (Expr.chainAt scope operator? operand fits)) ∧
      Halts tokens (Expr.indicesRound scope fits) (Expr.indicesAt scope fits) ∧
      Halts tokens (Expr.elementsRound scope fits) (Expr.elementsAt scope fits)) ∧
    (Halts tokens (Rule.assignmentsRound scope tokens) (Rule.assignmentsAt scope tokens) ∧
      Halts tokens (Rule.sectionsRound scope tokens) (Rule.sectionsAt scope tokens) ∧
      Halts tokens (Program.parseRound scope.finish tokens) (Program.parseAt scope.finish tokens)) ∧
    (∀ out depth, tokens.length < depth →
      Expr.parseWithin out scope depth tokens = Expr.parse scope tokens) ∧
    ∀ lengths, (Program.parse tokens lengths).map some =
      (repeated (Program.parseRound (endLocation tokens) tokens) (tokens.length + 1)
        ([], { lengths := lengths }) 0).map
          (·.map fun answer => (answer.1.1, answer.1.2.warnings)) := by
  refine ⟨?_, ?_, ?_, ?_, ?_, ?_⟩
  · intro n
    exact ⟨Expr.advances_levels, Expr.advances_position scope, Expr.advances_vectorLiteral scope,
      Expr.advances_elements scope⟩
  · exact ⟨Expr.advances_parse tokens scope, Assignment.advances_parse tokens scope,
      AlphaPolicy.advances_parse tokens scope, Rule.advances_parse tokens scope,
      Rule.advances_sections tokens scope, Statement.advances_parse tokens scope.finish⟩
  · intro n fits
    refine ⟨?_, (Expr.repeats_indices fits).halts, (Expr.repeats_elements fits).halts⟩
    intro operator? operand hoperand
    exact (Expr.repeats_chain (Expr.advances_levels operand hoperand) fits).halts
  · exact ⟨Rule.repeats_assignments.halts, Rule.repeats_sections.halts,
      Program.repeats_parse.halts⟩
  · intro out depth hdepth
    exact Expr.parseWithin_eq out hdepth
  · intro lengths
    have hhalts : Halts tokens (Program.parseRound (endLocation tokens) tokens)
        (Program.parseAt (endLocation tokens) tokens) := Program.repeats_parse.halts
    rw [hhalts.repeated_eq _ _ _ (Nat.zero_le _) (by omega), Program.parse_eq_parseAt]
    cases Program.parseAt (endLocation tokens) tokens ([], { lengths := lengths }) 0 <;> rfl

/-- Brackets and colons that belong to nothing: the parser reads the index in front of them, and
stops behind the fifth of nine tokens. -/
theorem parser_progress_stray :
    ∃ e rest, Expr.parse ⟨[], .nowhere⟩ (tokenize "$$v[1:] ] : : [").tokens = .ok (e, rest) ∧
      rest.1 = (tokenize "$$v[1:] ] : : [").tokens.drop 5 := by
  have hlength : (tokenize "$$v[1:] ] : : [").tokens.length = 9 := by decide +kernel
  have hok : (match Expr.parse ⟨[], .nowhere⟩ (tokenize "$$v[1:] ] : : [").tokens with
      | .ok (_, rest) => rest.1.length == 4
      | .error _ => false) = true := by decide +kernel
  split at hok
  next e rest hread =>
    have hleft : rest.1.length = 4 := eq_of_beq hok
    obtain ⟨-, ⟨hparse, -⟩, -⟩ := parser_progress (tokenize "$$v[1:] ] : : [").tokens ⟨[], .nowhere⟩
    obtain ⟨q, -, hend, hrest⟩ := hparse 0 trivial e rest hread
    have hq : q = 5 := by
      rw [hrest, List.length_drop] at hleft
      omega
    exact ⟨e, rest, hread, hq ▸ hrest⟩
  next => cases hok

end Recolor
