import Recolor.Proofs.Reading
import Recolor.Script.Parser

/-!
# What statements are read from

The productions for assignments, blocks, rules and statements, each described by the productions
that it is made of, as those for expressions are. All blocks of a rule are read with the lengths
that are known before the rule. `Program.Read` follows the parser from statement to statement.
-/

set_option autoImplicit false

namespace Recolor

/-! ## Words -/

/-- The test of a keyword succeeds on the token of that keyword only. -/
@[simp] theorem TokenKind.isKeyword_eq_true {kind : TokenKind} {k : Keyword} :
    kind.isKeyword k = true ↔ kind = .keyword k := by
  cases kind <;> simp [isKeyword]

/-- A reserved word is read if it comes next. -/
theorem yields_expectKeyword {scope : Scope} {k : Keyword} {ts rest : List Token} {u : Unit} :
    Yields (expectKeyword scope k ts) u rest ↔ ∃ t, t.kind = .keyword k ∧ ts = t :: rest := by
  cases ts with
  | nil => simp [expectKeyword]
  | cons t more =>
    simp only [expectKeyword]
    split
    next h =>
      rw [TokenKind.isKeyword_eq_true] at h
      simp only [yields_ok, true_and, List.cons.injEq]
      constructor
      · rintro rfl
        exact ⟨t, h, rfl, rfl⟩
      · rintro ⟨_, -, -, rfl⟩
        rfl
    next h =>
      rw [TokenKind.isKeyword_eq_true] at h
      simp only [not_yields_error, List.cons.injEq, false_iff]
      rintro ⟨_, hkind, rfl, -⟩
      exact h hkind

/-- The name of a space is read if it comes next. -/
theorem spaceName?_eq_some {ts final : List Token} {space : String}
    {less : final.length < ts.length} :
    spaceName? ts = some (space, ⟨final, less⟩) ↔
      ∃ t, t.kind = .space space ∧ ts = t :: final := by
  cases ts with
  | nil => simp [spaceName?]
  | cons t rest =>
    simp only [spaceName?]
    split
    next name ht =>
      simp only [Option.some.injEq, Prod.mk.injEq, Subtype.mk.injEq, List.cons.injEq]
      constructor
      · rintro ⟨rfl, rfl⟩
        exact ⟨t, ht, rfl, rfl⟩
      · rintro ⟨_, ht', rfl, rfl⟩
        exact ⟨TokenKind.space.inj (ht.symm.trans ht'), rfl⟩
    next ht =>
      simp only [reduceCtorEq, List.cons.injEq, false_iff]
      rintro ⟨_, ht', rfl, -⟩
      exact ht _ ht'

/-! ## Assignments -/

namespace Assignment

variable {scope : Scope} {inBlock : Bool} {ts final : List Token} {a : Assignment}
  {lengths : Lengths}

/-- An assignment is a variable, a sign, an expression and a semicolon. -/
theorem yields_parse :
    Yields (parse scope inBlock ts) (a, lengths) final ↔
      ∃ t sign rest op? operand close, ts = t :: sign :: rest ∧ t.kind = .variable a.target ∧
        compound? sign = some op? ∧ (op?.isSome && !inBlock) = false ∧
          Yields (Expr.parse scope rest) operand (close :: final) ∧
            close.kind = .symbol .semicolon ∧
              desugar scope.lengths a.target op? operand = .ok a.value ∧
                checkTarget a.target (a.value.shape scope.lengths) = .ok () ∧
                  lengths = lengthsAfter scope.lengths a.target (a.value.shape scope.lengths) := by
  obtain ⟨target, value⟩ := a
  cases ts with
  | nil => simp [parse]
  | cons t ts =>
    cases ts with
    | nil =>
      simp only [parse]
      split <;> simp
    | cons sign rest =>
      simp only [parse]
      split
      next target' ht =>
        split
        next hsign =>
          simp only [not_yields_error, false_iff]
          rintro ⟨_, _, _, op?, _, _, heq, -, hop, -⟩
          cases heq
          rw [hsign] at hop
          cases hop
        next op? hsign =>
          split
          next hcompound =>
            simp only [throw_eq_error, error_bind, not_yields_error, false_iff]
            rintro ⟨_, _, _, op?', _, _, heq, -, hop, hplain, -⟩
            cases heq
            cases hsign.symm.trans hop
            rw [hcompound] at hplain
            cases hplain
          next hplain =>
            rw [yields_bind]
            simp only [yields_step (β := Expr)]
            simp only [yields_bind, yields_expectSymbol]
            simp only [yields_step, pure_eq_ok, yields_ok, Prod.mk.injEq, Assignment.mk.injEq]
            constructor
            · rintro ⟨operand, _, less, hread, value', hvalue, _, _, less', ⟨close, hclose, rfl⟩, _,
                htarget, ⟨⟨rfl, rfl⟩, rfl⟩, rfl⟩
              exact ⟨t, sign, rest, op?, operand, close, rfl, ht, hsign, by simpa using hplain,
                hread, hclose, hvalue, htarget, rfl⟩
            · rintro ⟨_, _, _, op?', operand, close, heq, htarget', hop, -, hread, hclose, hvalue,
                htarget, rfl⟩
              cases heq
              cases hsign.symm.trans hop
              cases TokenKind.variable.inj (ht.symm.trans htarget')
              exact ⟨operand, close :: final, hread.1, hread, value, hvalue, (), final,
                Nat.lt_succ_self _, ⟨close, hclose, rfl⟩, (), htarget, ⟨⟨rfl, rfl⟩, rfl⟩, rfl⟩
      next hvariable =>
        simp only [not_yields_error, false_iff]
        rintro ⟨_, _, _, _, _, _, heq, ht, -⟩
        cases heq
        exact hvariable _ ht

end Assignment

/-! ## Directives -/

/-- A directive is one of three words and a semicolon, behind a word that has been read. -/
theorem AlphaPolicy.yields_parse {scope : Scope} {first : Token} {ts final : List Token}
    {policy : AlphaPolicy} {span : Span} :
    Yields (parse scope first ts) (policy, span) final ↔
      ∃ t close, ts = t :: close :: final ∧ ofToken? t = some policy ∧
        close.kind = .symbol .semicolon ∧ span = first.span.merge close.span := by
  cases ts with
  | nil => simp [parse]
  | cons t ts =>
    cases ts with
    | nil =>
      simp only [parse]
      split <;> simp
    | cons close rest =>
      simp only [parse, List.cons.injEq]
      split
      next policy' ht =>
        split
        next hclose =>
          rw [TokenKind.isSymbol_eq_true] at hclose
          simp only [yields_ok, Prod.mk.injEq]
          constructor
          · rintro ⟨⟨rfl, rfl⟩, rfl⟩
            exact ⟨t, close, ⟨rfl, rfl, rfl⟩, ht, hclose, rfl⟩
          · rintro ⟨_, _, ⟨rfl, rfl, rfl⟩, ht', -, rfl⟩
            exact ⟨⟨Option.some.inj (ht'.symm.trans ht), rfl⟩, rfl⟩
        next hclose =>
          rw [TokenKind.isSymbol_eq_true] at hclose
          simp only [not_yields_error, false_iff]
          rintro ⟨_, _, ⟨rfl, rfl, rfl⟩, -, h, -⟩
          exact hclose h
      next ht =>
        simp only [not_yields_error, false_iff]
        rintro ⟨_, _, ⟨rfl, rfl, rfl⟩, ht', -⟩
        cases ht.symm.trans ht'

/-! ## Rules -/

namespace Rule

variable {scope : Scope} {ts final : List Token} {statements : List Assignment}
  {blocks : List ActionBlock} {block : ActionBlock} {r : Rule}

/-- The assignments of a block end where no variable comes next. -/
theorem yields_assignments :
    Yields (assignments scope ts) statements final ↔
      (startsAssignment ts = false ∧ statements = [] ∧ final = ts) ∨
        startsAssignment ts = true ∧ ∃ a lengths rest more,
          Yields (Assignment.parse scope true ts) (a, lengths) rest ∧
            Yields (assignments { scope with lengths := lengths } rest) more final ∧
              statements = a :: more := by
  rw [assignments]
  split
  next hstarts =>
    simp only [hstarts, yields_bind, pure_eq_ok, yields_ok, reduceCtorEq, false_and, false_or,
      true_and, Prod.exists]
    constructor
    · rintro ⟨a, lengths, rest, less, ha, more, after, le, hmore, rfl, rfl⟩
      exact ⟨a, lengths, rest, more, ha, hmore, rfl⟩
    · rintro ⟨a, lengths, rest, more, ha, hmore, rfl⟩
      exact ⟨a, lengths, rest, ha.1, ha, more, final, hmore.1, hmore, rfl, rfl⟩
  next hstarts =>
    simp [hstarts]

/-- Sections go on up to `end`. Each starts with `using`, a space and a colon, and is not ended
right there. -/
theorem yields_sections :
    Yields (sections scope ts) blocks final ↔
      (∃ t, ts = t :: final ∧ t.kind = .keyword .endWord ∧ blocks = []) ∨
        ∃ t named colon opened space statements after more, ts = t :: named :: colon :: opened ∧
          t.kind = .keyword .usingWord ∧ named.kind = .space space ∧
            colon.kind = .symbol .colon ∧ Yields (assignments scope opened) statements after ∧
              (statements.isEmpty && endsBlock after) = false ∧
                Yields (sections scope after) more final ∧
                  blocks = ⟨space, statements⟩ :: more := by
  cases ts with
  | nil =>
    rw [sections]
    simp
  | cons t rest =>
    rw [sections]
    split
    next ht =>
      rw [TokenKind.isKeyword_eq_true] at ht
      rw [yields_ok]
      constructor
      · rintro ⟨rfl, rfl⟩
        exact .inl ⟨t, rfl, ht, rfl⟩
      · rintro (⟨_, heq, -, rfl⟩ | ⟨_, _, _, _, _, _, _, _, heq, ht', -⟩)
        · cases heq
          exact ⟨rfl, rfl⟩
        · cases heq
          cases ht.symm.trans ht'
    next hend =>
      rw [TokenKind.isKeyword_eq_true] at hend
      split
      next ht =>
        rw [TokenKind.isKeyword_eq_true] at ht
        split
        next hspace =>
          simp only [not_yields_error, false_iff]
          rintro (⟨_, heq, ht', -⟩ | ⟨_, named, colon, opened, space, _, _, _, heq, -, hnamed, -⟩)
          · cases heq
            exact hend ht'
          · cases heq
            have hsome : spaceName? (named :: colon :: opened) =
                some (space, .tail named (colon :: opened)) :=
              spaceName?_eq_some.2 ⟨named, hnamed, rfl⟩
            rw [hsome] at hspace
            cases hspace
        next space named less hspace =>
          obtain ⟨n, hn, rfl⟩ := spaceName?_eq_some.1 hspace
          simp only [yields_bind, yields_expectSymbol]
          constructor
          · rintro ⟨_, opened, _, ⟨colon, hcolon, rfl⟩, statements, after, _, hstatements, h⟩
            split at h
            next =>
              rw [throw_eq_error, error_bind] at h
              exact absurd h not_yields_error
            next hempty =>
              obtain ⟨more, rest, _, hmore, h⟩ := yields_bind.1 h
              obtain ⟨rfl, rfl⟩ := yields_ok.1 h
              exact .inr ⟨t, n, colon, opened, space, statements, after, more, rfl, ht, hn, hcolon,
                hstatements, by simpa using hempty, hmore, rfl⟩
          · rintro (⟨_, heq, ht', -⟩ | ⟨_, _, colon, opened, space', statements, after, more, heq,
              -, hn', hcolon, hstatements, hempty, hmore, rfl⟩)
            · cases heq
              exact absurd ht' hend
            · cases heq
              cases hn.symm.trans hn'
              refine ⟨(), opened, Nat.lt_succ_self _, ⟨colon, hcolon, rfl⟩, statements, after,
                hstatements.1, hstatements, ?_⟩
              rw [if_neg (by simp [hempty])]
              exact yields_bind.2 ⟨more, final, hmore.1, hmore, yields_ok.2 ⟨rfl, rfl⟩⟩
      next husing =>
        rw [TokenKind.isKeyword_eq_true] at husing
        simp only [not_yields_error, false_iff]
        rintro (⟨_, heq, ht', -⟩ | ⟨_, _, _, _, _, _, _, _, heq, ht', -⟩)
        · cases heq
          exact hend ht'
        · cases heq
          exact husing ht'

/-- All blocks of a rule are read with the lengths that are known before the rule. -/
theorem exists_of_mem_sections (h : Yields (sections scope ts) blocks final)
    (hblock : block ∈ blocks) :
    ∃ opened after, Yields (assignments scope opened) block.statements after := by
  induction blocks generalizing ts with
  | nil => cases hblock
  | cons first more ih =>
    rcases yields_sections.1 h with
      ⟨_, -, -, hnil⟩ | ⟨_, _, _, opened, _, _, after, _, -, -, -, -, hstatements, -, hmore, heq⟩
    · cases hnil
    · cases heq
      rcases List.mem_cons.1 hblock with rfl | hblock
      · exact ⟨opened, after, hstatements⟩
      · exact ih hmore hblock

/-- A block that is made of the assignments in front is made of these assignments. -/
theorem eq_of_mem_leadingBlock {space : String} (h : block ∈ leadingBlock space statements) :
    block.statements = statements := by
  unfold leadingBlock at h
  split at h
  · cases h
  · rw [List.mem_singleton.1 h]

/-- The predicate of the rule and the assignments of all of its blocks are read in the scope. -/
structure ReadIn (scope : Scope) (r : Rule) : Prop where
  predicate : ∃ opened after, Yields (Expr.parse scope opened) r.predicate after
  blocks : ∀ block ∈ r.blocks, ∃ opened after,
    Yields (assignments scope opened) block.statements after

/-- The space of a rule is the one that comes next, if one does. -/
theorem optionalSpace_eq {space : String} :
    (optionalSpace ts).1 = space ∧ (optionalSpace ts).2.1 = final ↔
      (∃ t, t.kind = .space space ∧ ts = t :: final) ∨
        spaceName? ts = none ∧ space = defaultSpace ∧ final = ts := by
  unfold optionalSpace
  cases h : spaceName? ts with
  | none =>
    have hnot : ¬∃ t, t.kind = .space space ∧ ts = t :: final := by
      rintro ⟨t, ht, rfl⟩
      have hsome : spaceName? (t :: final) = some (space, .tail t final) :=
        spaceName?_eq_some.2 ⟨t, ht, rfl⟩
      cases h.symm.trans hsome
    simp only [hnot, false_or, true_and, eq_comm]
  | some found =>
    obtain ⟨name, rest, less⟩ := found
    obtain ⟨t, ht, rfl⟩ := spaceName?_eq_some.1 h
    simp only [reduceCtorEq, false_and, or_false, List.cons.injEq]
    constructor
    · rintro ⟨rfl, rfl⟩
      exact ⟨t, ht, rfl, rfl⟩
    · rintro ⟨_, ht', rfl, rfl⟩
      exact ⟨TokenKind.space.inj (ht.symm.trans ht'), rfl⟩

/-- A rule is a space, two words, a predicate, a word, the assignments of a first block, sections
with the word behind them, and a semicolon. -/
theorem yields_parse :
    Yields (parse scope ts) r final ↔
      ∃ pixels having opened doWord body leading rest more close,
        (optionalSpace ts).1 = r.space ∧ (optionalSpace ts).2.1 = pixels :: having :: opened ∧
          pixels.kind = .keyword .pixels ∧ having.kind = .keyword .having ∧
            Yields (Expr.parse scope opened) r.predicate (doWord :: body) ∧
              doWord.kind = .keyword .doWord ∧ Yields (assignments scope body) leading rest ∧
                Yields (sections scope rest) more (close :: final) ∧
                  close.kind = .symbol .semicolon ∧
                    r.blocks = leadingBlock r.space leading ++ more := by
  obtain ⟨space, predicate, blocks⟩ := r
  unfold parse
  obtain ⟨name, named, le⟩ := optionalSpace ts
  simp only [yields_bind, yields_expectKeyword, yields_expectSymbol, pure_eq_ok, yields_ok,
    Rule.mk.injEq]
  constructor
  · rintro ⟨_, _, _, ⟨pixels, hpixels, rfl⟩, _, opened, _, ⟨having, hhaving, rfl⟩, _, _, _,
      hpredicate, _, body, _, ⟨doWord, hdo, rfl⟩, leading, rest, _, hleading, more, _, _, hmore, _,
      _, _, ⟨close, hclose, rfl⟩, ⟨rfl, rfl, rfl⟩, rfl⟩
    exact ⟨pixels, having, opened, doWord, body, leading, rest, more, close, rfl, rfl, hpixels,
      hhaving, hpredicate, hdo, hleading, hmore, hclose, rfl⟩
  · rintro ⟨pixels, having, opened, doWord, body, leading, rest, more, close, rfl, rfl, hpixels,
      hhaving, hpredicate, hdo, hleading, hmore, hclose, rfl⟩
    exact ⟨(), _, Nat.lt_succ_self _, ⟨pixels, hpixels, rfl⟩, (), opened, Nat.lt_succ_self _,
      ⟨having, hhaving, rfl⟩, predicate, _, hpredicate.1, hpredicate, (), body, Nat.lt_succ_self _,
      ⟨doWord, hdo, rfl⟩, leading, rest, hleading.1, hleading, more, _, hmore.1, hmore, (), final,
      Nat.lt_succ_self _, ⟨close, hclose, rfl⟩, ⟨rfl, rfl, rfl⟩, rfl⟩

/-- What assignments of a block make known is not known in the next block any more. -/
theorem readIn_of_yields_parse (h : Yields (parse scope ts) r final) : r.ReadIn scope := by
  obtain ⟨_, _, opened, _, body, leading, rest, more, _, -, -, -, -, hpredicate, -, hleading, hmore,
    -, hblocks⟩ := yields_parse.1 h
  refine ⟨⟨opened, _, hpredicate⟩, fun block hblock => ?_⟩
  rw [hblocks] at hblock
  rcases List.mem_append.1 hblock with hblock | hblock
  · exact ⟨body, rest, eq_of_mem_leadingBlock hblock ▸ hleading⟩
  · exact exists_of_mem_sections hmore hblock

end Rule

/-! ## Statements -/

namespace Statement

variable {finish : Location} {s next : ReadState} {ts final : List Token} {statement : Statement}

/-- A statement is an assignment, or starts with the word for a directive or a rule. -/
theorem yields_parse :
    Yields (parse finish s ts) (statement, next) final ↔
      (∃ a lengths, statement = .assign a ∧ next = { s with lengths := lengths } ∧
        Yields (Assignment.parse ⟨s.lengths, finish⟩ false ts) (a, lengths) final) ∨
      (∃ t rest policy span, ts = t :: rest ∧ t.kind = .keyword .alpha ∧
        statement = .alpha policy ∧ next = s.noteAlpha span ∧
          Yields (AlphaPolicy.parse ⟨s.lengths, finish⟩ t rest) (policy, span) final) ∨
      ∃ t rest r, ts = t :: rest ∧ t.kind = .keyword .on ∧ statement = .rule r ∧ next = s ∧
        Yields (Rule.parse ⟨s.lengths, finish⟩ rest) r final := by
  constructor
  · intro h
    cases ts with
    | nil => exact absurd h not_yields_error
    | cons t rest =>
      simp only [parse] at h
      split at h
      next =>
        obtain ⟨⟨a, lengths⟩, _, _, ha, h⟩ := yields_bind.1 h
        obtain ⟨heq, rfl⟩ := yields_ok.1 h
        cases heq
        exact .inl ⟨a, lengths, rfl, rfl, ha⟩
      next ht =>
        obtain ⟨⟨policy, span⟩, _, _, hpolicy, h⟩ := yields_bind.1 h
        obtain ⟨heq, rfl⟩ := yields_ok.1 h
        cases heq
        exact .inr (.inl ⟨t, rest, policy, span, rfl, ht, rfl, rfl, hpolicy⟩)
      next ht =>
        obtain ⟨r, _, _, hr, h⟩ := yields_bind.1 h
        obtain ⟨heq, rfl⟩ := yields_ok.1 h
        cases heq
        exact .inr (.inr ⟨t, rest, r, rfl, ht, rfl, rfl, hr⟩)
      next => exact absurd h not_yields_error
  · rintro (⟨a, lengths, rfl, rfl, ha⟩ | ⟨t, rest, policy, span, rfl, ht, rfl, rfl, hpolicy⟩ |
      ⟨t, rest, r, rfl, ht, rfl, rfl, hr⟩)
    · obtain ⟨t, sign, rest, _, _, _, rfl, ht, -⟩ := Assignment.yields_parse.1 ha
      simp only [parse, ht]
      exact yields_bind.2 ⟨(a, lengths), final, ha.1, ha, yields_ok.2 ⟨rfl, rfl⟩⟩
    · simp only [parse, ht]
      exact yields_bind.2 ⟨(policy, span), final, hpolicy.1, hpolicy, yields_ok.2 ⟨rfl, rfl⟩⟩
    · simp only [parse, ht]
      exact yields_bind.2 ⟨r, final, hr.1, hr, yields_ok.2 ⟨rfl, rfl⟩⟩

/-- A statement is an assignment, an alpha directive or a rule, and only an assignment changes the
lengths that are known. -/
theorem cases_of_yields_parse (h : Yields (parse finish s ts) (statement, next) final) :
    (∃ a, statement = .assign a ∧
      Yields (Assignment.parse ⟨s.lengths, finish⟩ false ts) (a, next.lengths) final) ∨
    (∃ policy, statement = .alpha policy ∧ next.lengths = s.lengths) ∨
    ∃ r, statement = .rule r ∧ next = s ∧ r.ReadIn ⟨s.lengths, finish⟩ := by
  rcases yields_parse.1 h with ⟨a, lengths, rfl, rfl, ha⟩ |
    ⟨_, _, policy, span, -, -, rfl, rfl, -⟩ | ⟨_, _, r, -, -, rfl, rfl, hr⟩
  · exact .inl ⟨a, rfl, ha⟩
  · exact .inr (.inl ⟨policy, rfl, rfl⟩)
  · exact .inr (.inr ⟨r, rfl, rfl, Rule.readIn_of_yields_parse hr⟩)

end Statement

/-! ## Programs -/

namespace Program

variable {finish : Location} {s final : ReadState} {ts rest : List Token} {p q : Program}
  {statement : Statement}

/-- From the state `s` and the tokens `ts` the parser comes, statement by statement, to another
state with the tokens `rest` left over. -/
inductive Read (finish : Location) :
    ReadState → List Token → Program → ReadState → List Token → Prop where
  | nil {s : ReadState} {ts : List Token} : Read finish s ts [] s ts
  | cons {s next final : ReadState} {ts after rest : List Token} {statement : Statement}
      {more : Program} (h : Yields (Statement.parse finish s ts) (statement, next) after)
      (hmore : Read finish next after more final rest) :
      Read finish s ts (statement :: more) final rest

/-- To read no statement is to stay where one is. -/
theorem read_nil : Read finish s ts [] final rest ↔ final = s ∧ rest = ts := by
  constructor
  · intro h
    cases h
    exact ⟨rfl, rfl⟩
  · rintro ⟨rfl, rfl⟩
    exact .nil

/-- To read several statements is to read the first and then the others. -/
theorem read_cons :
    Read finish s ts (statement :: p) final rest ↔
      ∃ next after, Yields (Statement.parse finish s ts) (statement, next) after ∧
        Read finish next after p final rest := by
  constructor
  · intro h
    cases h with | cons h hmore
    exact ⟨_, _, h, hmore⟩
  · rintro ⟨next, after, h, hmore⟩
    exact .cons h hmore

/-- The parser comes to the end of a part of the program before it goes on with the next. -/
theorem read_append :
    Read finish s ts (p ++ q) final rest ↔
      ∃ next after, Read finish s ts p next after ∧ Read finish next after q final rest := by
  induction p generalizing s ts with
  | nil =>
    simp only [List.nil_append, read_nil]
    constructor
    · intro h
      exact ⟨s, ts, ⟨rfl, rfl⟩, h⟩
    · rintro ⟨next, after, ⟨rfl, rfl⟩, h⟩
      exact h
  | cons statement p ih =>
    simp only [List.cons_append, read_cons, ih]
    constructor
    · rintro ⟨next, after, h, mid, behind, hp, hq⟩
      exact ⟨mid, behind, ⟨next, after, h, hp⟩, hq⟩
    · rintro ⟨mid, behind, ⟨next, after, h, hp⟩, hq⟩
      exact ⟨next, after, h, mid, behind, hp, hq⟩

/-- A program is what the parser reads until no token is left. -/
theorem read_of_parseFrom (h : parseFrom finish s ts = .ok (p, final)) :
    Read finish s ts p final [] := by
  fun_induction parseFrom finish s ts generalizing p with
  | case1 =>
    cases h
    exact .nil
  | case2 s t rest ih =>
    obtain ⟨⟨⟨statement, next⟩, after, less⟩, hstatement, h⟩ := bind_eq_ok.1 h
    obtain ⟨⟨more, last⟩, hmore, h⟩ := bind_eq_ok.1 h
    cases h
    exact .cons ⟨less, hstatement⟩ (ih next after less hmore)

/-- What is read until no token is left is what the parser answers. -/
theorem parseFrom_of_read (h : Read finish s ts p final []) :
    parseFrom finish s ts = .ok (p, final) := by
  induction p generalizing s ts with
  | nil =>
    obtain ⟨rfl, rfl⟩ := read_nil.1 h
    rw [parseFrom]
  | cons statement p ih =>
    obtain ⟨next, after, hstatement, hmore⟩ := read_cons.1 h
    cases ts with
    | nil => exact absurd hstatement not_yields_error
    | cons t ts =>
      obtain ⟨less, hstatement⟩ := hstatement
      rw [parseFrom, hstatement, ok_bind]
      dsimp only
      rw [ih hmore]
      rfl

/-- A program that is parsed is read from the first token to the last. -/
theorem read_of_parse {lengths : Lengths} {warnings : Diagnostics}
    (h : parse ts lengths = .ok (p, warnings)) :
    ∃ final, Read (endLocation ts) { lengths := lengths } ts p final [] := by
  obtain ⟨⟨program, final⟩, hfrom, h⟩ := bind_eq_ok.1 h
  cases h
  exact ⟨final, read_of_parseFrom hfrom⟩

end Program

end Recolor
