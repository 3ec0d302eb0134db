import Recolor.Proofs.ParserSound

/-!
# What is derived is read by the parser

A production reads all of what the grammar derives, provided that the tokens behind it do not start
with an operator that would go on with it (`Complete`). How tightly the operator at the start of
tokens binds is their `headRank`: a level stops in front of operators that bind less tightly than
its own. With `sound_parse` this makes `parseExpression` the grammar together with the checks of
shapes (`parseExpression_eq_ok_iff`).
-/

set_option autoImplicit false

namespace Recolor

/-! ## Operators in front of tokens -/

/-- How tightly the operators of a level bind. -/
def Nonterminal.rank : Nonterminal → Nat
  | .disjunction => 1
  | .conjunction => 2
  | .comparison => 3
  | .range => 4
  | .sum => 5
  | .product => 6
  | .signed | .indexed => 7
  | .primary => 8
  | .position | .elements => 0

/-- How tightly a token binds as an operator; zero if it is none. -/
def TokenKind.rank : TokenKind → Nat
  | .symbol .or | .symbol .xor => 1
  | .symbol .and => 2
  | .symbol .lt | .symbol .le | .symbol .gt | .symbol .ge | .symbol .eq | .symbol .ne => 3
  | .keyword .inWord => 3
  | .symbol .dotDot | .symbol .plusMinus => 4
  | .symbol .plus | .symbol .minus => 5
  | .symbol .star | .symbol .slash | .symbol .percent => 6
  | .symbol .leftBracket => 7
  | _ => 0

/-- How tightly the operator binds with which tokens start; zero if they start with none. The `|` of
`|)` is none. -/
def headRank : List Token → Nat
  | [] => 0
  | t :: rest => if t.kind.isSymbol .or && nextIs .rightParen rest then 0 else t.kind.rank

/-- The rank of what is left is no higher than that of its first token. -/
theorem headRank_le (t : Token) (rest : List Token) : headRank (t :: rest) ≤ t.kind.rank := by
  rw [headRank]
  split
  · exact Nat.zero_le _
  · exact Nat.le_refl _

/-- Nothing binds more tightly than an index. -/
theorem headRank_lt (ts : List Token) : headRank ts < 8 := by
  have hrank : ∀ k : TokenKind, k.rank < 8 := by
    intro k
    unfold TokenKind.rank
    split <;> decide
  cases ts with
  | nil => exact Nat.zero_lt_succ 7
  | cons t rest => exact Nat.lt_of_le_of_lt (headRank_le t rest) (hrank t.kind)

/-- A token that is no operator stops all levels. -/
theorem headRank_lt_one {t : Token} {k : TokenKind} (rest : List Token) (ht : t.kind = k)
    (hk : k.rank = 0) : headRank (t :: rest) < 1 := by
  have hle := headRank_le t rest
  rw [ht, hk] at hle
  exact Nat.lt_succ_of_le hle

/-- A token that a level knows as one of its operators binds as tightly as the level. -/
theorem rank_of_operator? {l : Nonterminal} {s : Symbol} {op : BinaryOp}
    (h : l.operator? s = some op) : (TokenKind.symbol s).rank = l.rank := by
  cases l <;> cases s <;> first | rfl | cases h

namespace Expr

section Recognises

variable {operator? : Token → List Token → Option BinaryOp} {l : Nonterminal} {t : Token}
  {rest : List Token}

/-- An operator of the grammar is found unless a parenthesis closes behind it. -/
theorem Recognises.eq_some (h : Recognises operator? l) {s : Symbol} {op : BinaryOp}
    (ht : t.kind = .symbol s) (hop : l.operator? s = some op)
    (hnext : nextIs .rightParen rest = false) : operator? t rest = some op := by
  rw [h, if_neg (by simp [hnext]), ht]
  exact hop

/-- A level stops in front of operators that bind less tightly than its own. -/
theorem Recognises.eq_none (h : Recognises operator? l) (hrank : headRank (t :: rest) < l.rank) :
    operator? t rest = Option.none := by
  cases hop : operator? t rest with
  | none => rfl
  | some op =>
    obtain ⟨s, ht, hs⟩ := h.exists_symbol hop
    rw [h] at hop
    split at hop
    next => cases hop
    next hcond =>
      have hhead : headRank (t :: rest) = t.kind.rank := by
        rw [headRank, if_neg hcond]
      rw [hhead, ht, rank_of_operator? hs] at hrank
      exact absurd hrank (Nat.lt_irrefl _)

end Recognises

end Expr

/-- The tokens of an expression start with one that can start an expression. -/
theorem exists_cons_of_derives {l : Nonterminal} {pre : List Token} {e : Expr}
    (h : Derives l (kinds pre) e) (hl : l ≠ .position) :
    ∃ t ts, pre = t :: ts ∧ t.kind.starts = true := by
  obtain ⟨k, us, hkinds, hk⟩ := h.exists_starts hl
  obtain ⟨t, ts, rfl, rfl, -⟩ := List.map_eq_cons_iff.1 hkinds
  exact ⟨t, ts, rfl, hk⟩

/-- A token that can start an expression is no sign that cannot. -/
theorem TokenKind.ne_symbol_of_starts {k : TokenKind} (s : Symbol) (hk : k.starts = true)
    (hs : (TokenKind.symbol s).starts = false) : k ≠ .symbol s := by
  rintro rfl
  rw [hs] at hk
  cases hk

/-- Tokens that start with an expression do not start with a sign that cannot start one. -/
theorem nextIs_of_derives {l : Nonterminal} {pre rest : List Token} {e : Expr} {s : Symbol}
    (h : Derives l (kinds pre) e) (hl : l ≠ .position)
    (hs : (TokenKind.symbol s).starts = false) : nextIs s (pre ++ rest) = false := by
  obtain ⟨t, ts, rfl, ht⟩ := exists_cons_of_derives h hl
  exact Expr.nextIs_cons.2 (TokenKind.ne_symbol_of_starts s ht hs)

/-- Tokens of the given kinds can be split where the kinds can. -/
theorem exists_of_kinds_eq_append {ts : List Token} {ks ms : List TokenKind} {k : TokenKind}
    (h : kinds ts = ks ++ k :: ms) :
    ∃ pre t post, ts = pre ++ t :: post ∧ kinds pre = ks ∧ t.kind = k ∧ kinds post = ms := by
  obtain ⟨pre, more, rfl, hpre, hmore⟩ := List.map_eq_append_iff.1 h
  obtain ⟨t, post, rfl, ht, hpost⟩ := List.map_eq_cons_iff.1 hmore
  exact ⟨pre, t, post, rfl, hpre, ht, hpost⟩

/-- The production reads all that is derived, if no operator of the level or of one that binds more
tightly comes after it. -/
def Complete (lengths : Lengths) (l : Nonterminal) {P : List Token → Prop}
    {Q : List Token → List Token → Prop}
    (p : (ts : List Token) → P ts → Except Fault (Expr × { rest : List Token // Q ts rest })) :
    Prop :=
  ∀ pre rest e, Derives l (kinds pre) e → e.WellShaped lengths → P (pre ++ rest) →
    headRank rest < l.rank → Reads p (pre ++ rest) e rest

namespace Expr

variable {scope : Scope} {n : Nat} {operator? : Token → List Token → Option BinaryOp}
  {operand : Level n} {nested : Nested n} {l m : Nonterminal}

/-! ## Operators -/

/-- In front of operators that bind less tightly, a chain reads nothing. -/
theorem reads_chain_stop (hop : Recognises operator? l) {rest : List Token} {e : Expr}
    (bound : rest.length ≤ n) (hrank : headRank rest < l.rank) :
    Reads (chain scope operator? operand e) rest e rest := by
  cases rest with
  | nil => exact ⟨bound, (reads_chain_nil.2 ⟨rfl, rfl⟩).2⟩
  | cons t rest => exact (reads_chain_cons bound).2 (.inl ⟨hop.eq_none hrank, rfl, rfl⟩)

/-- A level whose operators associate to the left reads a derived expression, and goes on with the
operators behind it. -/
theorem reads_joined_of_derives (hm : l.below? = some m) (hop : Recognises operator? l)
    (hlt : l.rank < m.rank) (hoperand : Complete scope.lengths m operand)
    {ks : List TokenKind} {e : Expr} (h : Derives l ks e) (hs : ∃ s op, l.operator? s = some op)
    (hshape : e.WellShaped scope.lengths) {pre rest : List Token} (hpre : kinds pre = ks)
    (bound : (pre ++ rest).length ≤ n) (hrank : headRank rest ≤ l.rank) {tree : Expr}
    {final : List Token} (htree : Reads (chain scope operator? operand e) rest tree final) :
    Reads (joined scope operator? operand) (pre ++ rest) tree final := by
  -- a tree of this level leans to the left, and the chain starts at its leftmost operand: going
  -- down the tree, what the chain has still to read grows by one operator with its right operand
  induction h generalizing pre rest tree final with
  | lower hm' he _ =>
    obtain rfl := Option.some.inj (hm.symm.trans hm')
    subst hpre
    exact reads_joined.2 ⟨_, rest, hoperand pre rest _ he hshape bound (by omega), htree⟩
  | join hm' hsop hleft hright ih _ =>
    obtain rfl := Option.some.inj (hm.symm.trans hm')
    obtain ⟨left, t, right, rfl, hleftKinds, ht, rfl⟩ := exists_of_kinds_eq_append hpre
    cases hshape with | binary hleftShape hrightShape hcheck
    simp only [List.append_assoc, List.cons_append, List.length_append, List.length_cons]
      at bound ⊢
    -- the operator is not the bar of `|)`, since an operand follows
    have hnext : nextIs .rightParen (right ++ rest) = false :=
      nextIs_of_derives hright (Nonterminal.ne_position_of_below? hm) rfl
    have hhead : headRank (t :: (right ++ rest)) ≤ _ := headRank_le t (right ++ rest)
    rw [ht, rank_of_operator? hsop] at hhead
    refine ih hm hop hlt hs hleftShape hleftKinds
      (by simp only [List.length_append, List.length_cons]; omega) hhead ?_
    refine (reads_chain_cons (by simp only [List.length_append, List.length_cons]; omega)).2
      (.inr ⟨_, _, rest, hop.eq_some ht hsop hnext, ?_, hcheck, htree⟩)
    exact hoperand right rest _ hright hrightShape
      (by simp only [List.length_append]; omega) (by omega)
  | _ => obtain ⟨s, op, hsop⟩ := hs; cases hsop

/-- A level whose operators associate to the left is complete if the level below it is. -/
theorem complete_joined (hm : l.below? = some m) (hop : Recognises operator? l)
    (hlt : l.rank < m.rank) (hs : ∃ s op, l.operator? s = some op)
    (hoperand : Complete scope.lengths m operand) :
    Complete scope.lengths l (joined scope operator? operand) := by
  intro pre rest e h hshape bound hrank
  have hrest : rest.length ≤ n := by
    simp only [List.length_append] at bound
    omega
  exact reads_joined_of_derives hm hop hlt hoperand h hs hshape rfl bound (Nat.le_of_lt hrank)
    (reads_chain_stop hop hrest hrank)

/-- No comparison follows where only operators do that bind less tightly. -/
theorem comparison?_of_headRank {rest : List Token} (h : headRank rest < 3) :
    rest.head?.bind comparison? = Option.none := by
  cases rest with
  | nil => rfl
  | cons t rest =>
    simp only [List.head?_cons, Option.bind_some]
    unfold comparison?
    split
    all_goals first
      | rfl
      | next ht => simp [headRank, ht, TokenKind.isSymbol, TokenKind.rank] at h

/-- No range operator follows where only operators do that bind less tightly. -/
theorem rangeOperator?_of_headRank {rest : List Token} (h : headRank rest < 4) :
    (rest.head?.bind rangeOperator?).isNone = true := by
  cases rest with
  | nil => rfl
  | cons t rest =>
    simp only [List.head?_cons, Option.bind_some]
    unfold rangeOperator?
    split
    all_goals first
      | rfl
      | next ht => simp [headRank, ht, TokenKind.isSymbol, TokenKind.rank] at h

/-- The operators of comparisons bind as tightly as their level. -/
theorem rank_of_comparison? {k : TokenKind} {op : BinaryOp} (h : k.comparison? = some op) :
    k.rank = 3 := by
  unfold TokenKind.comparison? at h
  split at h <;> first | rfl | cases h

/-- The level of comparisons is complete if the level below it is. -/
theorem complete_compared (hoperand : Complete scope.lengths .range operand) :
    Complete scope.lengths .comparison (compared scope operand) := by
  intro pre rest e h hshape bound hrank
  have hnone := comparison?_of_headRank hrank
  have hrange : headRank rest < Nonterminal.range.rank := Nat.lt_succ_of_lt hrank
  generalize hks : kinds pre = ks at h
  cases h with
  | lower hm he =>
    cases hm
    subst hks
    exact reads_compared.2 (.inl ⟨hoperand _ _ _ he hshape bound hrange, hnone⟩)
  | join _ hsop => cases hsop
  | compare hop hleft hright =>
    obtain ⟨left, t, right, rfl, rfl, ht, rfl⟩ := exists_of_kinds_eq_append hks
    cases hshape with | binary hleftShape hrightShape hcheck
    simp only [List.append_assoc, List.cons_append, List.length_append, List.length_cons]
      at bound ⊢
    have hhead := headRank_le t (right ++ rest)
    rw [ht, rank_of_comparison? hop] at hhead
    rw [← ht] at hop
    refine reads_compared.2 (.inr ⟨_, t, right ++ rest, _, _, ?_, hop, ?_, hnone, hcheck, rfl⟩)
    · exact hoperand _ _ _ hleft hleftShape
        (by simp only [List.length_append, List.length_cons]; omega) (Nat.lt_succ_of_le hhead)
    · exact hoperand _ _ _ hright hrightShape (by simp only [List.length_append]; omega) hrange

/-- Two derived expressions that are no vectors are read as the ends of a range, or as a center with
its tolerance. -/
theorem reads_ranged_of_derives (build : Expr → Expr → Expr) {k : TokenKind}
    (hbuild : ∀ t : Token, t.kind = k → rangeOperator? t = some build) (hk : k.rank = 4)
    (hoperand : Complete scope.lengths .sum operand) {pre rest : List Token}
    {ts us : List TokenKind} {left right : Expr} (hks : kinds pre = ts ++ k :: us)
    (hleft : Derives .sum ts left) (hright : Derives .sum us right)
    (hleftShape : left.WellShaped scope.lengths) (hrightShape : right.WellShaped scope.lengths)
    (hleftPlain : (left.shape scope.lengths).isVector = false)
    (hrightPlain : (right.shape scope.lengths).isVector = false)
    (bound : (pre ++ rest).length ≤ n) (hrank : headRank rest < 5) :
    Reads (ranged scope operand) (pre ++ rest) (build left right) rest := by
  obtain ⟨first, t, last, rfl, rfl, ht, rfl⟩ := exists_of_kinds_eq_append hks
  simp only [List.append_assoc, List.cons_append, List.length_append, List.length_cons] at bound ⊢
  have hhead := headRank_le t (last ++ rest)
  rw [ht, hk] at hhead
  refine reads_ranged.2 (.inr ⟨left, t, last ++ rest, build, right, ?_, hbuild t ht, ?_,
    hleftPlain, hrightPlain, rfl⟩)
  · exact hoperand _ _ _ hleft hleftShape
      (by simp only [List.length_append, List.length_cons]; omega) (Nat.lt_succ_of_le hhead)
  · exact hoperand _ _ _ hright hrightShape (by simp only [List.length_append]; omega) hrank

/-- The level of ranges is complete if the level below it is. -/
theorem complete_ranged (hoperand : Complete scope.lengths .sum operand) :
    Complete scope.lengths .range (ranged scope operand) := by
  intro pre rest e h hshape bound hrank
  have hsum : headRank rest < Nonterminal.sum.rank := Nat.lt_succ_of_lt hrank
  generalize hks : kinds pre = ks at h
  cases h with
  | lower hm he =>
    cases hm
    subst hks
    have hnone := rangeOperator?_of_headRank hrank
    exact reads_ranged.2 (.inl ⟨hoperand _ _ _ he hshape bound hsum, hnone⟩)
  | join _ hsop => cases hsop
  | interval hlow hhigh =>
    cases hshape with | range hlowShape hhighShape hlowPlain hhighPlain
    exact reads_ranged_of_derives (fun low high => .range low high false false)
      (fun t ht => by simp only [rangeOperator?, ht]) rfl hoperand hks hlow hhigh hlowShape
      hhighShape hlowPlain hhighPlain bound hsum
  | tolerance hcenter htolerance =>
    obtain ⟨⟨hcenterShape, htoleranceShape⟩, hcenterPlain, htolerancePlain⟩ :=
      wellShaped_tolerance.1 hshape
    exact reads_ranged_of_derives tolerance (fun t ht => by simp only [rangeOperator?, ht]) rfl
      hoperand hks hcenter htolerance hcenterShape htoleranceShape hcenterPlain htolerancePlain
      bound hsum

/-- The level of prefix signs is complete if the level below it is. -/
theorem complete_signed (hoperand : Complete scope.lengths .indexed operand) :
    Complete scope.lengths .signed (signed operand) := by
  intro pre rest e h hshape bound hrank
  generalize hl : Nonterminal.signed = l at h
  generalize hks : kinds pre = ks at h
  induction h generalizing pre with
  | lower hm he _ =>
    subst hl hks
    cases hm
    have hread := hoperand pre rest _ he hshape bound hrank
    obtain ⟨k, us, hkinds, hk⟩ := he.exists_startsOperand (.inl rfl)
    obtain ⟨t, ts, rfl, rfl, -⟩ := List.map_eq_cons_iff.1 hkinds
    exact (reads_signed_cons bound).2 (.inl ⟨TokenKind.sign?_of_startsOperand hk, hread⟩)
  | sign hop he ih =>
    obtain ⟨t, ts, rfl, rfl, rfl⟩ := List.map_eq_cons_iff.1 hks
    cases hshape with | unary hinner
    have hbound : (ts ++ rest).length ≤ n := Nat.le_of_succ_le bound
    exact (reads_signed_cons bound).2 (.inr ⟨_, _, hop, ih _ hinner hbound rfl rfl, rfl⟩)
  | join _ hsop _ _ _ _ =>
    subst hl
    cases hsop
  | _ => cases hl

/-! ## Indices -/

/-- An optional part is read up to one of the signs that stop it. -/
theorem reads_optional_of_derives (hnested : Complete scope.lengths .disjunction nested)
    {stops : List Symbol} (hstops : ∀ s ∈ stops, (TokenKind.symbol s).starts = false)
    {pre rest : List Token} {t : Token} {s : Symbol} (ht : t.kind = .symbol s) (hs : s ∈ stops)
    (hrank : (TokenKind.symbol s).rank = 0) {o : Option Expr}
    (hnone : o = Option.none → kinds pre = [])
    (hsome : ∀ e, o = some e → Derives .disjunction (kinds pre) e)
    (hshape : ∀ e, o = some e → e.WellShaped scope.lengths)
    (bound : (pre ++ t :: rest).length < n) :
    Reads (optional nested stops) (pre ++ t :: rest) o (t :: rest) := by
  cases o with
  | none =>
    obtain rfl : pre = [] := List.map_eq_nil_iff.1 (hnone rfl)
    refine (reads_optional bound).2 (.inl ⟨?_, rfl, rfl⟩)
    exact List.any_eq_true.2 ⟨s, hs, TokenKind.isSymbol_eq_true.2 ht⟩
  | some e =>
    refine (reads_optional bound).2 (.inr ⟨?_, e, ?_, rfl⟩)
    · refine List.any_eq_false.2 fun s hs => ?_
      rw [nextIs_of_derives (hsome e rfl) (by decide) (hstops s hs)]
      exact Bool.false_ne_true
    · exact hnested _ _ _ (hsome e rfl) (hshape e rfl) bound (headRank_lt_one rest ht hrank)

/-- The part of a slice behind its first colon is read up to the closing bracket. -/
theorem reads_sliceTail_of_derives (hnested : Complete scope.lengths .disjunction nested)
    {pre rest : List Token} {u : Token} (hu : u.kind = .symbol .rightBracket)
    {start stop : Option Expr} (hnone : stop = Option.none → kinds pre = [])
    (hsome : ∀ e, stop = some e → Derives .disjunction (kinds pre) e)
    (hshape : ∀ e, stop = some e → e.WellShaped scope.lengths)
    (bound : (pre ++ u :: rest).length < n) :
    Reads (sliceTail nested start) (pre ++ u :: rest) (.slice start stop Option.none)
      (u :: rest) := by
  refine reads_sliceTail.2 ⟨stop, u :: rest, ?_, .inl ⟨?_, rfl, rfl⟩⟩
  · exact reads_optional_of_derives hnested (by decide) hu (by decide) rfl hnone hsome hshape bound
  · exact nextIs_cons.2 (by simp [hu])

/-- So is a part with a second colon. -/
theorem reads_sliceTail_of_derives_step (hnested : Complete scope.lengths .disjunction nested)
    {pre post rest : List Token} {t u : Token} (ht : t.kind = .symbol .colon)
    (hu : u.kind = .symbol .rightBracket) {start stop step : Option Expr}
    (hnone : stop = Option.none → kinds pre = [])
    (hsome : ∀ e, stop = some e → Derives .disjunction (kinds pre) e)
    (hshape : ∀ e, stop = some e → e.WellShaped scope.lengths)
    (hnone' : step = Option.none → kinds post = [])
    (hsome' : ∀ e, step = some e → Derives .disjunction (kinds post) e)
    (hshape' : ∀ e, step = some e → e.WellShaped scope.lengths)
    (bound : (pre ++ t :: (post ++ u :: rest)).length < n) :
    Reads (sliceTail nested start) (pre ++ t :: (post ++ u :: rest)) (.slice start stop step)
      (u :: rest) := by
  refine reads_sliceTail.2 ⟨stop, t :: (post ++ u :: rest), ?_,
    .inr ⟨t, post ++ u :: rest, step, ht, rfl, ?_, rfl⟩⟩
  · exact reads_optional_of_derives hnested (by decide) ht (by decide) rfl hnone hsome hshape bound
  · exact reads_optional_of_derives hnested (by decide) hu (by decide) rfl hnone' hsome' hshape'
      (by simp only [List.length_append, List.length_cons] at bound ⊢; omega)

/-- A slice is read if the part behind its first colon is. -/
theorem reads_position_of_sliceTail (hnested : Complete scope.lengths .disjunction nested)
    {pre ts rest : List Token} {t : Token} (ht : t.kind = .symbol .colon) {start : Option Expr}
    {tree : Expr} (hnone : start = Option.none → kinds pre = [])
    (hsome : ∀ e, start = some e → Derives .disjunction (kinds pre) e)
    (hshape : ∀ e, start = some e → e.WellShaped scope.lengths)
    (bound : (pre ++ t :: ts).length < n) (htail : Reads (sliceTail nested start) ts tree rest) :
    Reads (position nested) (pre ++ t :: ts) tree rest := by
  cases start with
  | none =>
    obtain rfl : pre = [] := List.map_eq_nil_iff.1 (hnone rfl)
    exact (reads_position_cons bound).2 (.inl ⟨ht, htail⟩)
  | some e =>
    have hstart : Reads nested (pre ++ t :: ts) e (t :: ts) :=
      hnested _ _ _ (hsome e rfl) (hshape e rfl) bound (headRank_lt_one ts ht rfl)
    obtain ⟨u, pre, rfl, hu⟩ := exists_cons_of_derives (hsome e rfl) (by decide)
    have hcolon := TokenKind.ne_symbol_of_starts .colon hu rfl
    exact (reads_position_cons bound).2
      (.inr ⟨hcolon, e, t :: ts, hstart, .inr ⟨t, ts, ht, rfl, htail⟩⟩)

/-- What may stand between the brackets of an index is read up to the closing bracket. -/
theorem reads_position_of_derives (hnested : Complete scope.lengths .disjunction nested)
    {pre rest : List Token} {u : Token} {e : Expr} (hu : u.kind = .symbol .rightBracket)
    (h : Derives .position (kinds pre) e) (hshape : e.WellShaped scope.lengths)
    (bound : (pre ++ u :: rest).length < n) :
    Reads (position nested) (pre ++ u :: rest) e (u :: rest) := by
  generalize hks : kinds pre = ks at h
  cases h with
  | lower hm _ => cases hm
  | join hm _ _ _ => cases hm
  | place he =>
    subst hks
    have hread : Reads nested (pre ++ u :: rest) e (u :: rest) :=
      hnested _ _ _ he hshape bound (headRank_lt_one rest hu rfl)
    obtain ⟨t, pre, rfl, ht⟩ := exists_cons_of_derives he (by decide)
    have hcolon := TokenKind.ne_symbol_of_starts .colon ht rfl
    have hend : nextIs .colon (u :: rest) = false := nextIs_cons.2 (by simp [hu])
    exact (reads_position_cons bound).2
      (.inr ⟨hcolon, e, u :: rest, hread, .inl ⟨hend, rfl, rfl⟩⟩)
  | slice hts hstart hus hstop =>
    obtain ⟨first, t, second, rfl, rfl, ht, rfl⟩ := exists_of_kinds_eq_append hks
    cases hshape with | slice hstartShape hstopShape _
    simp only [List.append_assoc, List.cons_append] at bound ⊢
    refine reads_position_of_sliceTail hnested ht hts hstart hstartShape bound ?_
    exact reads_sliceTail_of_derives hnested hu hus hstop hstopShape
      (by simp only [List.length_append, List.length_cons] at bound ⊢; omega)
  | steppedSlice hts hstart hus hstop hvs hstep =>
    obtain ⟨first, t, more, rfl, rfl, ht, hmore⟩ := exists_of_kinds_eq_append hks
    obtain ⟨second, v, third, rfl, rfl, hv, rfl⟩ := exists_of_kinds_eq_append hmore
    cases hshape with | slice hstartShape hstopShape hstepShape
    simp only [List.append_assoc, List.cons_append] at bound ⊢
    refine reads_position_of_sliceTail hnested ht hts hstart hstartShape bound ?_
    exact reads_sliceTail_of_derives_step hnested hv hu hus hstop hstopShape hvs hstep hstepShape
      (by simp only [List.length_append, List.length_cons] at bound ⊢; omega)

/-- A derived expression with indices is read, and the indices behind it too. -/
theorem reads_indexed_of_derives (hnested : Complete scope.lengths .disjunction nested)
    (hoperand : Complete scope.lengths .primary operand) {ks : List TokenKind} {e : Expr}
    (h : Derives .indexed ks e) (hshape : e.WellShaped scope.lengths) {pre rest : List Token}
    (hpre : kinds pre = ks) (bound : (pre ++ rest).length ≤ n) {tree : Expr} {final : List Token}
    (htree : Reads (indices scope nested e) rest tree final) :
    Reads (indexed scope nested operand) (pre ++ rest) tree final := by
  -- as in a chain, the last index is the first that is met going down
  generalize hl : Nonterminal.indexed = l at h
  induction h generalizing pre rest tree final with
  | lower hm he _ =>
    subst hl hpre
    cases hm
    exact reads_indexed.2 ⟨_, rest, hoperand _ _ _ he hshape bound (headRank_lt rest), htree⟩
  | index hvector hposition ih _ =>
    obtain ⟨first, t, more, rfl, hfirst, ht, hmore⟩ := exists_of_kinds_eq_append hpre
    obtain ⟨place, u, last, rfl, rfl, hu, hlast⟩ := exists_of_kinds_eq_append hmore
    obtain rfl : last = [] := List.map_eq_nil_iff.1 hlast
    cases hshape with | index hvectorShape hplaceShape hisVector
    simp only [List.append_assoc, List.cons_append, List.nil_append, List.length_append,
      List.length_cons] at bound ⊢
    refine ih hvectorShape hfirst
      (by simp only [List.length_append, List.length_cons]; omega) ?_ rfl
    have hplace : Reads (position nested) (place ++ u :: rest) _ (u :: rest) :=
      reads_position_of_derives hnested hu hposition hplaceShape
        (by simp only [List.length_append, List.length_cons]; omega)
    exact (reads_indices_cons (by simp only [List.length_append, List.length_cons]; omega)).2
      (.inr ⟨ht, _, u, rest, hu, hplace, hisVector, htree⟩)
  | join _ hsop _ _ _ _ =>
    subst hl
    cases hsop
  | _ => cases hl

/-- The level of indices is complete if the level below it is. -/
theorem complete_indexed (hnested : Complete scope.lengths .disjunction nested)
    (hoperand : Complete scope.lengths .primary operand) :
    Complete scope.lengths .indexed (indexed scope nested operand) := by
  intro pre rest e h hshape bound hrank
  refine reads_indexed_of_derives hnested hoperand h hshape rfl bound ?_
  have hrest : rest.length ≤ n := by
    simp only [List.length_append] at bound
    omega
  cases rest with
  | nil => exact ⟨hrest, (reads_indices_nil.2 ⟨rfl, rfl⟩).2⟩
  | cons t rest =>
    refine (reads_indices_cons hrest).2 (.inl ⟨fun ht => ?_, rfl, rfl⟩)
    simp [headRank, ht, TokenKind.isSymbol, TokenKind.rank, Nonterminal.rank] at hrank

/-! ## Operands -/

/-- Elements of a vector are read up to the closing bracket. -/
theorem reads_elements_of_derives (hnested : Complete scope.lengths .disjunction nested)
    {ks : List TokenKind} {e : Expr} {items : List Expr} (h : Derives .elements ks e)
    (he : e = .vector items) (hshape : ∀ e ∈ items, e.WellShaped scope.lengths)
    (hplain : ∀ e ∈ items, (e.shape scope.lengths).isVector = false) {pre rest : List Token}
    {u : Token} (hpre : kinds pre = ks) (hu : u.kind = .symbol .rightBracket)
    (bound : (pre ++ u :: rest).length < n) :
    Reads (elements scope nested) (pre ++ u :: rest) items rest := by
  generalize hl : Nonterminal.elements = l at h
  induction h generalizing pre items with
  | element hitem _ =>
    cases he
    subst hpre
    have hread := hnested _ _ _ hitem (hshape _ List.mem_cons_self) bound
      (headRank_lt_one rest hu rfl)
    exact reads_elements.2
      ⟨_, u, rest, hread, hplain _ List.mem_cons_self, .inl ⟨hu, rfl, rfl⟩⟩
  | elements hitem hmore _ ih =>
    cases he
    obtain ⟨first, t, more, rfl, rfl, ht, hmoreKinds⟩ := exists_of_kinds_eq_append hpre
    simp only [List.append_assoc, List.cons_append] at bound ⊢
    have hread := hnested first (t :: (more ++ u :: rest)) _ hitem (hshape _ List.mem_cons_self)
      bound (headRank_lt_one _ ht rfl)
    refine reads_elements.2
      ⟨_, t, _, hread, hplain _ List.mem_cons_self, .inr ⟨ht, _, ?_, rfl⟩⟩
    exact ih rfl (fun e he => hshape e (List.mem_cons_of_mem _ he))
      (fun e he => hplain e (List.mem_cons_of_mem _ he)) hmoreKinds
      (by simp only [List.length_append, List.length_cons] at bound ⊢; omega) rfl
  | lower hm _ _ =>
    subst hl
    cases hm
  | join _ hsop _ _ _ _ =>
    subst hl
    cases hsop
  | _ => cases hl

/-- Literals, variables, and what stands in parentheses and brackets are complete. -/
theorem complete_primary (hnested : Complete scope.lengths .disjunction nested) :
    Complete scope.lengths .primary (primary scope nested) := by
  intro pre rest e h hshape bound _
  generalize hks : kinds pre = ks at h
  cases h with
  | lower hm _ => cases hm
  | join hm _ _ _ => cases hm
  | literal hliteral =>
    obtain ⟨t, post, rfl, rfl, hpost⟩ := List.map_eq_cons_iff.1 hks
    obtain rfl : post = [] := List.map_eq_nil_iff.1 hpost
    exact (reads_primary_cons bound).2 (.inl ⟨hliteral, rfl⟩)
  | parenthesised he =>
    obtain ⟨t, more, rfl, ht, hmore⟩ := List.map_eq_cons_iff.1 hks
    obtain ⟨inner, u, last, rfl, rfl, hu, hlast⟩ := exists_of_kinds_eq_append hmore
    obtain rfl : last = [] := List.map_eq_nil_iff.1 hlast
    simp only [List.append_assoc, List.cons_append, List.nil_append] at bound ⊢
    have hread : Reads nested (inner ++ u :: rest) e (u :: rest) :=
      hnested _ _ _ he hshape bound (headRank_lt_one rest hu rfl)
    obtain ⟨v, inner, rfl, hv⟩ := exists_cons_of_derives he (by decide)
    have hbar := TokenKind.ne_symbol_of_starts .or hv rfl
    refine (reads_primary_cons bound).2 (.inr (.inl ⟨ht, ?_⟩))
    exact (reads_parenthesised_cons bound).2 (.inr ⟨hbar, u, hu, hread⟩)
  | saturated he =>
    cases hshape with | saturated hinner
    obtain ⟨t, more, rfl, ht, hmore⟩ := List.map_eq_cons_iff.1 hks
    obtain ⟨u, more, rfl, hu, hmore⟩ := List.map_eq_cons_iff.1 hmore
    obtain ⟨inner, v, last, rfl, rfl, hv, hlast⟩ := exists_of_kinds_eq_append hmore
    obtain ⟨w, last, rfl, hw, hlast⟩ := List.map_eq_cons_iff.1 hlast
    obtain rfl : last = [] := List.map_eq_nil_iff.1 hlast
    simp only [List.append_assoc, List.cons_append, List.nil_append] at bound ⊢
    -- the bar behind the expression is no operator, since a parenthesis closes behind it
    have hhead : headRank (v :: w :: rest) < 1 := by
      simp [headRank, hv, nextIs, hw, TokenKind.isSymbol]
    have hread : Reads nested (inner ++ v :: w :: rest) _ (v :: w :: rest) :=
      hnested _ _ _ he hinner (Nat.lt_of_succ_lt bound) hhead
    exact (reads_primary_cons bound).2 (.inr (.inl ⟨ht,
      (reads_parenthesised_cons bound).2 (.inl ⟨hu, _, v, w, hv, hw, hread, rfl⟩)⟩))
  | empty =>
    obtain ⟨t, more, rfl, ht, hmore⟩ := List.map_eq_cons_iff.1 hks
    obtain ⟨u, more, rfl, hu, hmore⟩ := List.map_eq_cons_iff.1 hmore
    obtain rfl : more = [] := List.map_eq_nil_iff.1 hmore
    exact (reads_primary_cons bound).2 (.inr (.inr ⟨ht,
      (reads_vectorLiteral_cons bound).2 (.inl ⟨hu, rfl, rfl⟩)⟩))
  | vector hitems =>
    cases hshape with | vector hshapes hplains
    obtain ⟨t, more, rfl, ht, hmore⟩ := List.map_eq_cons_iff.1 hks
    obtain ⟨inner, u, last, rfl, rfl, hu, hlast⟩ := exists_of_kinds_eq_append hmore
    obtain rfl : last = [] := List.map_eq_nil_iff.1 hlast
    simp only [List.append_assoc, List.cons_append, List.nil_append] at bound ⊢
    have hread := reads_elements_of_derives hnested hitems rfl hshapes hplains rfl hu bound
    obtain ⟨v, inner, rfl, hv⟩ := exists_cons_of_derives hitems (by decide)
    have hclosed := TokenKind.ne_symbol_of_starts .rightBracket hv rfl
    refine (reads_primary_cons bound).2 (.inr (.inr ⟨ht, ?_⟩))
    exact (reads_vectorLiteral_cons bound).2 (.inr ⟨hclosed, _, hread, rfl⟩)

/-! ## Whole expressions -/

/-- All levels together are complete if nested expressions are. -/
theorem complete_fullLevel (hnested : Complete scope.lengths .disjunction nested) :
    Complete scope.lengths .disjunction (fullLevel scope nested) := by
  have hprimary := complete_primary hnested
  have hsigned := complete_signed (complete_indexed hnested hprimary)
  have hproduct := complete_joined (show Nonterminal.product.below? = some _ from rfl)
    recognises_product (by decide) ⟨.star, _, rfl⟩ hsigned
  have hsum := complete_joined (show Nonterminal.sum.below? = some _ from rfl) recognises_sum
    (by decide) ⟨.plus, _, rfl⟩ hproduct
  have hcomparison := complete_compared (complete_ranged hsum)
  have hconjunction := complete_joined (show Nonterminal.conjunction.below? = some _ from rfl)
    recognises_conjunction (by decide) ⟨.and, _, rfl⟩ hcomparison
  exact complete_joined rfl recognises_disjunction (by decide) ⟨.or, _, rfl⟩ hconjunction

/-- What is derived and passes the checks of shapes is read by the parser, if no operator comes
after it. -/
theorem complete_parse {pre rest : List Token} {e : Expr}
    (h : Derives .disjunction (kinds pre) e) (hshape : e.WellShaped scope.lengths)
    (hrank : headRank rest < 1) : Yields (parse scope (pre ++ rest)) e rest := by
  obtain ⟨k, hk⟩ : ∃ k, (pre ++ rest).length = k := ⟨_, rfl⟩
  induction k using Nat.strongRecOn generalizing pre rest e with
  | ind k ih =>
    subst hk
    refine yields_parse.2 (complete_fullLevel ?_ _ _ _ h hshape (Nat.le_refl _) hrank)
    intro pre' rest' e' h' hshape' bound' hrank'
    exact reads_nest.2 ⟨bound', ih _ bound' h' hshape' hrank' rfl⟩

end Expr

/-- The parser accepts exactly the expressions of the grammar whose nodes pass the checks of shapes
while no vector lengths are known, and answers their trees. -/
theorem parseExpression_eq_ok_iff (ts : List Token) (e : Expr) :
    parseExpression ts = .ok e ↔
      Derives .disjunction (ts.map (·.kind)) e ∧ e.WellShaped [] := by
  have hread : parseExpression ts = .ok e ↔
      Yields (Expr.parse ⟨[], endLocation ts⟩ ts) e [] := by
    simp only [parseExpression, bind_eq_ok]
    constructor
    · rintro ⟨⟨tree, rest, hless⟩, hparse, h⟩
      cases rest with
      | nil =>
        cases h
        exact ⟨hless, hparse⟩
      | cons t rest => cases h
    · rintro ⟨hless, hparse⟩
      exact ⟨_, hparse, rfl⟩
  rw [hread]
  constructor
  · intro h
    obtain ⟨pre, rfl, hpre, hshape⟩ := Expr.sound_parse h
    rw [List.append_nil]
    exact ⟨hpre, hshape⟩
  · rintro ⟨h, hshape⟩
    have hparse := @Expr.complete_parse ⟨[], endLocation ts⟩ ts [] e h hshape Nat.zero_lt_one
    rwa [List.append_nil] at hparse

end Recolor
