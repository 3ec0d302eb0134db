import Recolor.Proofs.Reading

/-!
# What the parser reads is derived

Each production reads, from the start of its tokens, something that the grammar derives, with a tree
whose nodes pass the checks of shapes (`Sound`). This goes from the productions inside to the ones
outside: nested expressions are read from fewer tokens, so that `sound_parse` is an induction on
their number, and each level is sound if the level below it is.
-/

set_option autoImplicit false

namespace Recolor

/-- The kinds of tokens, which are what the grammar speaks of. -/
abbrev kinds (ts : List Token) : List TokenKind := ts.map (·.kind)

/-- The tokens start with an expression of the given tree that passes the checks of shapes, and end
with the rest. -/
def Derived (lengths : Lengths) (l : Nonterminal) (ts : List Token) (e : Expr)
    (rest : List Token) : Prop :=
  ∃ pre, ts = pre ++ rest ∧ Derives l (kinds pre) e ∧ e.WellShaped lengths

/-- What the production reads is derived. -/
def Sound (lengths : Lengths) (l : Nonterminal) {P : List Token → Prop}
    {Q : List Token → List Token → Prop}
    (p : (ts : List Token) → P ts → Except Fault (Expr × { rest : List Token // Q ts rest })) :
    Prop :=
  ∀ ts e rest, Reads p ts e rest → Derived lengths l ts e rest

namespace Expr

variable {scope : Scope} {n : Nat} {operator? : Token → List Token → Option BinaryOp}
  {operand : Level n} {nested : Nested n} {l m : Nonterminal}

/-! ## Operators -/

/-- The operator of a level that a kind of token is. -/
def operatorOf? (l : Nonterminal) : TokenKind → Option BinaryOp
  | .symbol s => l.operator? s
  | _ => Option.none

/-- A level looks for its operators as the grammar has them, but takes no `|)` for an operator. -/
def Recognises (operator? : Token → List Token → Option BinaryOp) (l : Nonterminal) : Prop :=
  ∀ t rest, operator? t rest =
    if t.kind.isSymbol .or && nextIs .rightParen rest then Option.none
    else operatorOf? l t.kind

/-- The signs that the parser joins disjunctions by are those of the grammar. -/
theorem recognises_disjunction : Recognises disjunction? .disjunction := by
  intro t rest
  unfold disjunction?
  cases t.kind with
  | symbol s => cases s <;> simp [TokenKind.isSymbol, operatorOf?, Nonterminal.operator?]
  | _ => simp [TokenKind.isSymbol, operatorOf?]

/-- The signs that the parser joins conjunctions by are those of the grammar. -/
theorem recognises_conjunction : Recognises conjunction? .conjunction := by
  intro t rest
  unfold conjunction?
  cases t.kind with
  | symbol s => cases s <;> simp [TokenKind.isSymbol, operatorOf?, Nonterminal.operator?]
  | _ => simp [TokenKind.isSymbol, operatorOf?]

/-- The signs that the parser joins sums by are those of the grammar. -/
theorem recognises_sum : Recognises sum? .sum := by
  intro t rest
  unfold sum?
  cases t.kind with
  | symbol s => cases s <;> simp [TokenKind.isSymbol, operatorOf?, Nonterminal.operator?]
  | _ => simp [TokenKind.isSymbol, operatorOf?]

/-- The signs that the parser joins products by are those of the grammar. -/
theorem recognises_product : Recognises product? .product := by
  intro t rest
  unfold product?
  cases t.kind with
  | symbol s => cases s <;> simp [TokenKind.isSymbol, operatorOf?, Nonterminal.operator?]
  | _ => simp [TokenKind.isSymbol, operatorOf?]

/-- An operator that is found is one of the grammar. -/
theorem Recognises.exists_symbol (h : Recognises operator? l) {t : Token} {rest : List Token}
    {op : BinaryOp} (hop : operator? t rest = some op) :
    ∃ s, t.kind = .symbol s ∧ l.operator? s = some op := by
  rw [h] at hop
  split at hop
  · cases hop
  · cases hkind : t.kind with
    | symbol s =>
      rw [hkind] at hop
      exact ⟨s, rfl, hop⟩
    | _ =>
      rw [hkind] at hop
      cases hop

/-- What was read so far stays the left operand of what a chain of operators goes on to read. -/
theorem derived_chain (hm : l.below? = some m) (hop : Recognises operator? l)
    (hoperand : Sound scope.lengths m operand) {pre ts rest : List Token} {left tree : Expr}
    (hleft : Derives l (kinds pre) left) (hshape : left.WellShaped scope.lengths)
    (h : Reads (chain scope operator? operand left) ts tree rest) :
    Derived scope.lengths l (pre ++ ts) tree rest := by
  -- with each operator the left operand moves on, and `pre` is what it was derived from
  induction hk : ts.length using Nat.strongRecOn generalizing pre ts left with
  | ind k ih =>
    cases ts with
    | nil =>
      obtain ⟨rfl, rfl⟩ := reads_chain_nil.1 h
      exact ⟨pre, rfl, hleft, hshape⟩
    | cons t ts =>
      rcases (reads_chain_cons h.1).1 h with
        ⟨-, rfl, rfl⟩ | ⟨op, right, after, hopt, hright, hcheck, htree⟩
      · exact ⟨pre, rfl, hleft, hshape⟩
      · obtain ⟨mid, rfl, hmid, hrightShape⟩ := hoperand _ _ _ hright
        obtain ⟨s, hs, hsop⟩ := hop.exists_symbol hopt
        have hjoin : Derives l (kinds (pre ++ t :: mid)) (.binary op left right) := by
          rw [kinds, List.map_append, List.map_cons, hs]
          exact .join hm hsop hleft hmid
        have hless : after.length < k := by
          simp only [List.length_cons, List.length_append] at hk
          omega
        have hrest := ih after.length hless hjoin (.binary hshape hrightShape hcheck) htree rfl
        simpa using hrest

/-- A level whose operators associate to the left is sound if the level below it is. -/
theorem sound_joined (hm : l.below? = some m) (hop : Recognises operator? l)
    (hoperand : Sound scope.lengths m operand) :
    Sound scope.lengths l (joined scope operator? operand) := by
  intro ts tree rest h
  obtain ⟨left, after, hleft, htree⟩ := reads_joined.1 h
  obtain ⟨pre, rfl, hpre, hshape⟩ := hoperand _ _ _ hleft
  exact derived_chain hm hop hoperand (.lower hm hpre) hshape htree

/-- The level of comparisons is sound if the level below it is. -/
theorem sound_compared (hoperand : Sound scope.lengths .range operand) :
    Sound scope.lengths .comparison (compared scope operand) := by
  intro ts tree rest h
  rcases reads_compared.1 h with
    ⟨h, -⟩ | ⟨left, t, after, op, right, hleft, hop, hright, -, hcheck, rfl⟩
  · obtain ⟨pre, rfl, hpre, hshape⟩ := hoperand _ _ _ h
    exact ⟨pre, rfl, .lower rfl hpre, hshape⟩
  · obtain ⟨pre, rfl, hpre, hleftShape⟩ := hoperand _ _ _ hleft
    obtain ⟨mid, rfl, hmid, hrightShape⟩ := hoperand _ _ _ hright
    refine ⟨pre ++ t :: mid, by simp, ?_, .binary hleftShape hrightShape hcheck⟩
    rw [kinds, List.map_append, List.map_cons]
    exact .compare hop hpre hmid

/-- The level of ranges is sound if the level below it is. -/
theorem sound_ranged (hoperand : Sound scope.lengths .sum operand) :
    Sound scope.lengths .range (ranged scope operand) := by
  intro ts tree rest h
  rcases reads_ranged.1 h with
    ⟨h, -⟩ | ⟨left, t, after, build, right, hleft, hop, hright, hleftPlain, hrightPlain, rfl⟩
  · obtain ⟨pre, rfl, hpre, hshape⟩ := hoperand _ _ _ h
    exact ⟨pre, rfl, .lower rfl hpre, hshape⟩
  · obtain ⟨pre, rfl, hpre, hleftShape⟩ := hoperand _ _ _ hleft
    obtain ⟨mid, rfl, hmid, hrightShape⟩ := hoperand _ _ _ hright
    unfold rangeOperator? at hop
    split at hop
    next hkind =>
      cases hop
      refine ⟨pre ++ t :: mid, by simp, ?_, .range hleftShape hrightShape hleftPlain hrightPlain⟩
      rw [kinds, List.map_append, List.map_cons, hkind]
      exact .interval hpre hmid
    next hkind =>
      cases hop
      refine ⟨pre ++ t :: mid, by simp, ?_,
        wellShaped_tolerance.2 ⟨⟨hleftShape, hrightShape⟩, hleftPlain, hrightPlain⟩⟩
      rw [kinds, List.map_append, List.map_cons, hkind]
      exact .tolerance hpre hmid
    next => cases hop

/-- The level of prefix signs is sound if the level below it is. -/
theorem sound_signed (hoperand : Sound scope.lengths .indexed operand) :
    Sound scope.lengths .signed (signed operand) := by
  intro ts
  induction ts with
  | nil =>
    intro tree rest h
    obtain ⟨pre, heq, hpre, hshape⟩ := hoperand _ _ _ (reads_signed_nil.1 h)
    exact ⟨pre, heq, .lower rfl hpre, hshape⟩
  | cons t ts ih =>
    intro tree rest h
    rcases (reads_signed_cons h.1).1 h with ⟨-, h⟩ | ⟨op, inner, hop, hinner, rfl⟩
    · obtain ⟨pre, heq, hpre, hshape⟩ := hoperand _ _ _ h
      exact ⟨pre, heq, .lower rfl hpre, hshape⟩
    · obtain ⟨pre, rfl, hpre, hshape⟩ := ih _ _ hinner
      exact ⟨t :: pre, rfl, .sign hop hpre, .unary hshape⟩

/-! ## Indices -/

/-- An optional part is absent and no token is read, or it is derived. -/
theorem derived_optional {stops : List Symbol} {ts rest : List Token} {o : Option Expr}
    (hnested : Sound scope.lengths .disjunction nested)
    (h : Reads (optional nested stops) ts o rest) :
    ∃ pre, ts = pre ++ rest ∧ (o = Option.none → kinds pre = []) ∧
      (∀ e, o = some e → Derives .disjunction (kinds pre) e) ∧
        ∀ e, o = some e → e.WellShaped scope.lengths := by
  rcases (reads_optional h.1).1 h with ⟨-, rfl, rfl⟩ | ⟨-, e, he, rfl⟩
  · exact ⟨[], rfl, fun _ => rfl, by simp, by simp⟩
  · obtain ⟨pre, rfl, hpre, hshape⟩ := hnested _ _ _ he
    refine ⟨pre, rfl, by simp, ?_, ?_⟩
    · rintro _ ⟨⟩
      exact hpre
    · rintro _ ⟨⟩
      exact hshape

/-- What is read behind the first colon of a slice makes a slice with what was read before it. -/
theorem derived_sliceTail {pre ts rest : List Token} {t : Token} {start : Option Expr} {tree : Expr}
    (hnested : Sound scope.lengths .disjunction nested) (ht : t.kind = .symbol .colon)
    (hpre : start = Option.none → kinds pre = [])
    (hstart : ∀ e, start = some e → Derives .disjunction (kinds pre) e)
    (hshape : ∀ e, start = some e → e.WellShaped scope.lengths)
    (h : Reads (sliceTail nested start) ts tree rest) :
    Derived scope.lengths .position (pre ++ t :: ts) tree rest := by
  obtain ⟨stop, after, hstop, htail⟩ := reads_sliceTail.1 h
  obtain ⟨mid, rfl, hmid, hstopDerives, hstopShape⟩ := derived_optional hnested hstop
  rcases htail with ⟨-, rfl, rfl⟩ | ⟨u, after, step, hu, rfl, hstep, rfl⟩
  · refine ⟨pre ++ t :: mid, by simp, ?_, .slice hshape hstopShape (by simp)⟩
    rw [kinds, List.map_append, List.map_cons, ht]
    exact .slice hpre hstart hmid hstopDerives
  · obtain ⟨last, rfl, hlast, hstepDerives, hstepShape⟩ := derived_optional hnested hstep
    refine ⟨pre ++ t :: (mid ++ u :: last), by simp, ?_, .slice hshape hstopShape hstepShape⟩
    simp only [kinds, List.map_append, List.map_cons, ht, hu]
    exact .steppedSlice hpre hstart hmid hstopDerives hlast hstepDerives

/-- What is read between the brackets of an index is a position. -/
theorem sound_position (hnested : Sound scope.lengths .disjunction nested) :
    Sound scope.lengths .position (position nested) := by
  intro ts tree rest h
  cases ts with
  | nil => exact absurd h not_reads_position_nil
  | cons t ts =>
    rcases (reads_position_cons h.1).1 h with ⟨ht, h⟩ | ⟨-, start, after, hstart, htail⟩
    · have hslice := @derived_sliceTail scope n nested [] ts rest t Option.none tree hnested ht
      exact hslice (fun _ => rfl) (by simp) (by simp) h
    · obtain ⟨pre, heq, hpre, hshape⟩ := hnested _ _ _ hstart
      rcases htail with ⟨-, rfl, rfl⟩ | ⟨u, after, hu, rfl, htail⟩
      · exact ⟨pre, heq, .place hpre, hshape⟩
      · rw [heq]
        refine derived_sliceTail hnested hu (by simp) ?_ ?_ htail
        · rintro _ ⟨⟩
          exact hpre
        · rintro _ ⟨⟩
          exact hshape

/-- What was read so far is what the indices behind it apply to. -/
theorem derived_indices (hnested : Sound scope.lengths .disjunction nested)
    {pre ts rest : List Token} {vector tree : Expr} (hvector : Derives .indexed (kinds pre) vector)
    (hshape : vector.WellShaped scope.lengths)
    (h : Reads (indices scope nested vector) ts tree rest) :
    Derived scope.lengths .indexed (pre ++ ts) tree rest := by
  induction hk : ts.length using Nat.strongRecOn generalizing pre ts vector with
  | ind k ih =>
    cases ts with
    | nil =>
      obtain ⟨rfl, rfl⟩ := reads_indices_nil.1 h
      exact ⟨pre, rfl, hvector, hshape⟩
    | cons t ts =>
      rcases (reads_indices_cons h.1).1 h with
        ⟨-, rfl, rfl⟩ | ⟨ht, place, u, after, hu, hplace, hisVector, htree⟩
      · exact ⟨pre, rfl, hvector, hshape⟩
      · obtain ⟨mid, rfl, hmid, hplaceShape⟩ := sound_position hnested _ _ _ hplace
        have hindex : Derives .indexed (kinds (pre ++ t :: (mid ++ [u])))
            (.index vector place) := by
          simp only [kinds, List.map_append, List.map_cons, List.map_nil, ht, hu]
          exact .index hvector hmid
        have hless : after.length < k := by
          simp only [List.length_cons, List.length_append] at hk
          omega
        have hrest := ih after.length hless hindex (.index hshape hplaceShape hisVector) htree rfl
        simpa using hrest

/-- The level of indices is sound if the level below it is. -/
theorem sound_indexed (hnested : Sound scope.lengths .disjunction nested)
    (hoperand : Sound scope.lengths .primary operand) :
    Sound scope.lengths .indexed (indexed scope nested operand) := by
  intro ts tree rest h
  obtain ⟨vector, after, hvector, htree⟩ := reads_indexed.1 h
  obtain ⟨pre, rfl, hpre, hshape⟩ := hoperand _ _ _ hvector
  exact derived_indices hnested (.lower rfl hpre) hshape htree

/-! ## Operands -/

/-- The elements of a vector are derived, up to the bracket behind them. -/
theorem derived_elements (hnested : Sound scope.lengths .disjunction nested)
    {ts rest : List Token} {items : List Expr} (h : Reads (elements scope nested) ts items rest) :
    ∃ pre u, u.kind = .symbol .rightBracket ∧ ts = pre ++ u :: rest ∧
      Derives .elements (kinds pre) (.vector items) ∧
        (∀ e ∈ items, e.WellShaped scope.lengths) ∧
          ∀ e ∈ items, (e.shape scope.lengths).isVector = false := by
  induction hk : ts.length using Nat.strongRecOn generalizing ts items with
  | ind k ih =>
    obtain ⟨e, t, after, he, hplain, hend⟩ := reads_elements.1 h
    obtain ⟨pre, rfl, hpre, hshape⟩ := hnested _ _ _ he
    rcases hend with ⟨ht, rfl, rfl⟩ | ⟨ht, more, hmore, rfl⟩
    · exact ⟨pre, t, ht, rfl, .element hpre, by simpa using hshape, by simpa using hplain⟩
    · have hless : after.length < k := by
        simp only [List.length_cons, List.length_append] at hk
        omega
      obtain ⟨mid, u, hu, rfl, hmid, hshapes, hplains⟩ := ih after.length hless hmore rfl
      refine ⟨pre ++ t :: mid, u, hu, by simp, ?_, ?_, ?_⟩
      · rw [kinds, List.map_append, List.map_cons, ht]
        exact .elements hpre hmid
      · exact List.forall_mem_cons.2 ⟨hshape, hshapes⟩
      · exact List.forall_mem_cons.2 ⟨hplain, hplains⟩

/-- Literals, variables, and what stands in parentheses and brackets are sound. -/
theorem sound_primary (hnested : Sound scope.lengths .disjunction nested) :
    Sound scope.lengths .primary (primary scope nested) := by
  intro ts tree rest h
  cases ts with
  | nil => exact absurd h not_reads_primary_nil
  | cons t ts =>
    rcases (reads_primary_cons h.1).1 h with ⟨ht, rfl⟩ | ⟨ht, h⟩ | ⟨ht, h⟩
    · exact ⟨[t], rfl, .literal ht, wellShaped_of_literal? ht⟩
    · cases ts with
      | nil => exact absurd h not_reads_parenthesised_nil
      | cons u ts =>
        rcases (reads_parenthesised_cons h.1).1 h with
          ⟨hu, e, v, w, hv, hw, he, rfl⟩ | ⟨-, v, hv, he⟩
        · obtain ⟨pre, rfl, hpre, hshape⟩ := hnested _ _ _ he
          refine ⟨t :: u :: (pre ++ [v, w]), by simp, ?_, .saturated hshape⟩
          simp only [kinds, List.map_append, List.map_cons, List.map_nil, ht, hu, hv, hw]
          exact .saturated hpre
        · obtain ⟨pre, heq, hpre, hshape⟩ := hnested _ _ _ he
          refine ⟨t :: (pre ++ [v]), by simp [heq], ?_, hshape⟩
          simp only [kinds, List.map_append, List.map_cons, List.map_nil, ht, hv]
          exact .parenthesised hpre
    · cases ts with
      | nil => exact absurd h not_reads_vectorLiteral_nil
      | cons u ts =>
        rcases (reads_vectorLiteral_cons h.1).1 h with ⟨hu, rfl, rfl⟩ | ⟨-, items, hitems, rfl⟩
        · refine ⟨[t, u], rfl, ?_, .vector (by simp) (by simp)⟩
          simp only [kinds, List.map_cons, List.map_nil, ht, hu]
          exact .empty
        · obtain ⟨pre, v, hv, heq, hpre, hshapes, hplains⟩ := derived_elements hnested hitems
          refine ⟨t :: (pre ++ [v]), by simp [heq], ?_, .vector hshapes hplains⟩
          simp only [kinds, List.map_append, List.map_cons, List.map_nil, ht, hv]
          exact .vector hpre

/-! ## Whole expressions -/

/-- All levels together are sound if nested expressions are. -/
theorem sound_fullLevel (hnested : Sound scope.lengths .disjunction nested) :
    Sound scope.lengths .disjunction (fullLevel scope nested) := by
  have hprimary := sound_primary hnested
  have hsigned := sound_signed (sound_indexed hnested hprimary)
  have hproduct := sound_joined (show Nonterminal.product.below? = some _ from rfl)
    recognises_product hsigned
  have hsum := sound_joined (show Nonterminal.sum.below? = some _ from rfl) recognises_sum hproduct
  have hcomparison := sound_compared (sound_ranged hsum)
  have hconjunction := sound_joined (show Nonterminal.conjunction.below? = some _ from rfl)
    recognises_conjunction hcomparison
  exact sound_joined rfl recognises_disjunction hconjunction

/-- What the parser reads is derived, and passes the checks of shapes. -/
theorem sound_parse {ts rest : List Token} {e : Expr} (h : Yields (parse scope ts) e rest) :
    Derived scope.lengths .disjunction ts e rest := by
  induction hk : ts.length using Nat.strongRecOn generalizing ts e rest with
  | ind k ih =>
    subst hk
    refine sound_fullLevel (fun us e rest h => ?_) _ _ _ (yields_parse.1 h)
    obtain ⟨hless, h⟩ := reads_nest.1 h
    exact ih us.length hless h rfl

end Expr

end Recolor
