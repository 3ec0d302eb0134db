import Recolor.Proofs.ParserComplete
import Recolor.Proofs.ProgramGrammar

/-!
# The parser of programs reads their grammar

For each production for statements there is one lemma that says which tokens it takes, in terms of
`Assignment.Spelled`, `Rule.Spelled` and so on: those that spell what it answers. Assignments, rules
and directives end with a semicolon, so that nothing has to be asked of the tokens behind them. Only
the assignments of a block go on as long as variables follow.

`Program.read_iff_spelled` follows the parser from statement to statement. So `Program.parse`
accepts exactly the programs of the grammar, and the grammar spells no two programs alike
(`Program.Spelled.unique`).
-/

set_option autoImplicit false

namespace Recolor

/-- In front of a token that is no operator, all of an expression is read and nothing else. -/
theorem Expr.yields_parse_close {scope : Scope} {ts final : List Token} {close : Token} {e : Expr}
    {k : TokenKind} (hclose : close.kind = k) (hrank : k.rank = 0) :
    Yields (parse scope ts) e (close :: final) ↔
      ∃ pre, ts = pre ++ close :: final ∧ Derives .disjunction (kinds pre) e ∧
        e.WellShaped scope.lengths := by
  constructor
  · exact sound_parse
  · rintro ⟨pre, hts, he, hshape⟩
    rw [hts]
    exact complete_parse he hshape (headRank_lt_one final hclose hrank)

/-! ## Assignments -/

/-- An assignment begins with the variable that is assigned to. -/
theorem Assignment.Spelled.exists_cons {lengths : Lengths} {inBlock : Bool} {ts : List TokenKind}
    {a : Assignment} (h : a.Spelled lengths inBlock ts) :
    ∃ us, ts = .variable a.target :: us := by
  cases h with
  | plain _ _ _ => exact ⟨_, rfl⟩
  | compound _ _ _ _ => exact ⟨_, rfl⟩

namespace Assignment

variable {scope : Scope} {inBlock : Bool} {ts final : List Token} {a : Assignment}
  {lengths : Lengths}

/-- The sign of a plain assignment is `=`. -/
theorem compound?_eq_plain {t : Token} : compound? t = some none ↔ t.kind = .symbol .assign := by
  unfold compound?
  split <;> simp_all

/-- The sign of a compound assignment is one that stands for an operator. -/
theorem compound?_eq_compound {t : Token} {op : Arithmetic} :
    compound? t = some (some op) ↔ ∃ s, t.kind = .symbol s ∧ s.compound? = some op := by
  unfold compound?
  cases t.kind with
  | symbol s => cases s <;> simp [Symbol.compound?]
  | _ => simp

/-- Tokens of the kinds of an assignment can be taken apart as the kinds can. -/
theorem exists_of_kinds_eq {pre : List Token} {k l m : TokenKind} {ks : List TokenKind}
    (h : kinds pre = k :: l :: (ks ++ [m])) :
    ∃ t u mid v, pre = t :: u :: (mid ++ [v]) ∧ t.kind = k ∧ u.kind = l ∧ kinds mid = ks ∧
      v.kind = m := by
  obtain ⟨t, rest, hpre, ht, hrest⟩ := List.map_eq_cons_iff.1 h
  obtain ⟨u, more, hrest, hu, hmore⟩ := List.map_eq_cons_iff.1 hrest
  obtain ⟨mid, v, last, hmore, hmid, hv, hlast⟩ := exists_of_kinds_eq_append hmore
  have hnil : last = [] := List.map_eq_nil_iff.1 hlast
  refine ⟨t, u, mid, v, ?_, ht, hu, hmid, hv⟩
  rw [hpre, hrest, hmore, hnil]

/-- An assignment is read exactly if the tokens spell it, and the lengths that it leaves known are
those behind it. -/
theorem yields_parse_iff_spelled :
    Yields (parse scope inBlock ts) (a, lengths) final ↔
      (∃ pre, ts = pre ++ final ∧ a.Spelled scope.lengths inBlock (kinds pre)) ∧
        lengths = a.after scope.lengths := by
  obtain ⟨x, value⟩ := a
  constructor
  · intro h
    obtain ⟨t, sign, rest, op?, operand, close, hts, ht, hsign, hplain, hread, hclose, hvalue,
      htarget, hlengths⟩ := yields_parse.1 h
    obtain ⟨pre, hrest, he, hshape⟩ := (Expr.yields_parse_close hclose rfl).1 hread
    have hvector := checkTarget_eq_ok.1 htarget
    refine ⟨⟨t :: sign :: (pre ++ [close]), by simp [hts, hrest], ?_⟩, hlengths⟩
    simp only [kinds, List.map_append, List.map_cons, List.map_nil, ht, hclose]
    cases op? with
    | none =>
      rw [compound?_eq_plain.1 hsign]
      cases hvalue
      exact .plain he hshape hvector
    | some op =>
      have hblock : inBlock = true := by simpa using hplain
      obtain ⟨s, hs, hop⟩ := compound?_eq_compound.1 hsign
      obtain ⟨_, hcheck, hbinary⟩ := bind_eq_ok.1 hvalue
      have heq : Expr.binary (.arithmetic op) (.variable x) operand = value :=
        Except.ok.inj hbinary
      subst heq
      rw [hs, hblock]
      exact .compound hop he (.binary (.variable x) hshape hcheck) hvector
  · rintro ⟨⟨pre, hts, hspelled⟩, hlengths⟩
    generalize hks : kinds pre = ks at hspelled
    apply yields_parse.2
    cases hspelled with
    | plain he hshape hvector =>
      obtain ⟨t, sign, mid, close, hpre, ht, hsign, hmid, hclose⟩ := exists_of_kinds_eq hks
      rw [← hmid] at he
      have hread : Yields (Expr.parse scope (mid ++ close :: final)) value (close :: final) :=
        (Expr.yields_parse_close hclose rfl).2 ⟨mid, rfl, he, hshape⟩
      exact ⟨t, sign, mid ++ close :: final, none, value, close, by simp [hts, hpre], ht,
        compound?_eq_plain.2 hsign, rfl, hread, hclose, rfl, checkTarget_eq_ok.2 hvector, hlengths⟩
    | @compound s op _ _ e hs he hshape hvector =>
      obtain ⟨t, sign, mid, close, hpre, ht, hsign, hmid, hclose⟩ := exists_of_kinds_eq hks
      rw [← hmid] at he
      cases hshape with | binary _ hoperand hcheck
      have hread : Yields (Expr.parse scope (mid ++ close :: final)) e (close :: final) :=
        (Expr.yields_parse_close hclose rfl).2 ⟨mid, rfl, he, hoperand⟩
      have hvalue : desugar scope.lengths x (some op) e =
          .ok (.binary (.arithmetic op) (.variable x) e) := by
        simp only [desugar, Expr.binary?, hcheck]
        rfl
      exact ⟨t, sign, mid ++ close :: final, some op, e, close, by simp [hts, hpre], ht,
        compound?_eq_compound.2 ⟨s, hsign, hs⟩, rfl, hread, hclose, hvalue,
        checkTarget_eq_ok.2 hvector, hlengths⟩

end Assignment

/-! ## Blocks -/

namespace Rule

variable {scope : Scope} {ts pre final : List Token} {statements : List Assignment}
  {blocks : List ActionBlock} {lengths : Lengths}

/-- In front of what spells an assignment the parser expects one. -/
theorem startsAssignment_of_spelled {inBlock : Bool} {a : Assignment}
    (h : a.Spelled lengths inBlock (kinds pre)) : startsAssignment (pre ++ final) = true := by
  obtain ⟨ks, hks⟩ := h.exists_cons
  obtain ⟨t, rest, hpre, ht, -⟩ := List.map_eq_cons_iff.1 hks
  simp [hpre, startsAssignment, ht]

/-- The assignments of a block are read from what spells them, up to a token that is no variable. -/
theorem yields_assignments_iff_spelled :
    Yields (assignments scope ts) statements final ↔
      (∃ pre, ts = pre ++ final ∧ ActionBlock.Spelled scope.lengths (kinds pre) statements) ∧
        startsAssignment final = false := by
  induction statements generalizing scope ts with
  | nil =>
    constructor
    · intro h
      rcases yields_assignments.1 h with ⟨hstarts, -, heq⟩ | ⟨-, _, _, _, _, -, -, hnil⟩
      · rw [heq]
        exact ⟨⟨[], rfl, .nil⟩, hstarts⟩
      · cases hnil
    · rintro ⟨⟨pre, hts, hspelled⟩, hstarts⟩
      generalize hks : kinds pre = ks at hspelled
      cases hspelled
      have hnil : pre = [] := List.map_eq_nil_iff.1 hks
      have heq : ts = final := by rw [hts, hnil, List.nil_append]
      rw [← heq] at hstarts
      exact yields_assignments.2 (.inl ⟨hstarts, rfl, heq.symm⟩)
  | cons a rest ih =>
    constructor
    · intro h
      rcases yields_assignments.1 h with ⟨-, hnil, -⟩ | ⟨-, b, known, after, more, ha, hmore, heq⟩
      · cases hnil
      · cases heq
        obtain ⟨⟨pre, hts, hspelled⟩, hknown⟩ := Assignment.yields_parse_iff_spelled.1 ha
        subst hknown
        obtain ⟨⟨mid, hafter, hrest⟩, hstarts⟩ := ih.1 hmore
        refine ⟨⟨pre ++ mid, by rw [hts, hafter, List.append_assoc], ?_⟩, hstarts⟩
        rw [kinds, List.map_append]
        exact .cons hspelled hrest
    · rintro ⟨⟨pre, hts, hspelled⟩, hstarts⟩
      generalize hks : kinds pre = ks at hspelled
      cases hspelled with
      | cons ha hrest =>
        obtain ⟨first, mid, hpre, hfirst, hmid⟩ := List.map_eq_append_iff.1 hks
        rw [← hfirst] at ha
        rw [← hmid] at hrest
        rw [hts, hpre, List.append_assoc]
        apply yields_assignments.2
        refine .inr ⟨startsAssignment_of_spelled ha, a, a.after scope.lengths, mid ++ final, rest,
          ?_, ?_, rfl⟩
        · exact Assignment.yields_parse_iff_spelled.2 ⟨⟨first, rfl, ha⟩, rfl⟩
        · exact ih.2 ⟨⟨mid, rfl, hrest⟩, hstarts⟩

/-- What the parser reads the sections of a rule from looks like the end of a block. -/
theorem endsBlock_of_yields_sections (h : Yields (sections scope ts) blocks final) :
    endsBlock ts = true := by
  rcases yields_sections.1 h with ⟨t, hts, ht, -⟩ | ⟨t, _, _, _, _, _, _, _, hts, ht, -⟩
  · simp [hts, endsBlock, ht, TokenKind.isKeyword]
  · simp [hts, endsBlock, ht, TokenKind.isKeyword]

/-- Sections up to the `end` of a rule do not look like an assignment, so that the block before them
is over. -/
theorem startsAssignment_of_spelledSections {t : Token} (ht : t.kind = .keyword .endWord)
    (h : SpelledSections lengths (kinds pre) blocks) :
    startsAssignment (pre ++ t :: final) = false := by
  generalize hks : kinds pre = ks at h
  cases h with
  | nil =>
    have hnil : pre = [] := List.map_eq_nil_iff.1 hks
    simp [hnil, startsAssignment, ht]
  | cons _ _ _ =>
    obtain ⟨u, rest, hpre, hu, -⟩ := List.map_eq_cons_iff.1 hks
    simp [hpre, startsAssignment, hu]

/-- Blocks with `using` are read from what spells them, up to the word behind them. -/
theorem yields_sections_iff_spelled :
    Yields (sections scope ts) blocks final ↔
      ∃ pre t, ts = pre ++ t :: final ∧ t.kind = .keyword .endWord ∧
        SpelledSections scope.lengths (kinds pre) blocks := by
  induction blocks generalizing ts with
  | nil =>
    constructor
    · intro h
      rcases yields_sections.1 h with
        ⟨t, hts, ht, -⟩ | ⟨_, _, _, _, _, _, _, _, -, -, -, -, -, -, -, hnil⟩
      · exact ⟨[], t, hts, ht, .nil⟩
      · cases hnil
    · rintro ⟨pre, t, hts, ht, hspelled⟩
      generalize hks : kinds pre = ks at hspelled
      cases hspelled
      have hnil : pre = [] := List.map_eq_nil_iff.1 hks
      rw [hnil, List.nil_append] at hts
      exact yields_sections.2 (.inl ⟨t, hts, ht, rfl⟩)
  | cons block blocks ih =>
    constructor
    · intro h
      rcases yields_sections.1 h with ⟨_, -, -, hnil⟩ | ⟨t, named, colon, opened, space, statements,
        after, more, hts, ht, hnamed, hcolon, hstatements, hempty, hmore, heq⟩
      · cases hnil
      · cases heq
        obtain ⟨⟨mid, hopened, hmid⟩, -⟩ := yields_assignments_iff_spelled.1 hstatements
        obtain ⟨post, u, hafter, hu, hpost⟩ := ih.1 hmore
        -- where blocks go on or end, the parser has refused a block without assignments
        have hne : statements ≠ [] := by
          intro hnil
          rw [hnil, endsBlock_of_yields_sections hmore] at hempty
          cases hempty
        refine ⟨t :: named :: colon :: (mid ++ post), u, by simp [hts, hopened, hafter], hu, ?_⟩
        simp only [kinds, List.map_cons, List.map_append, ht, hnamed, hcolon]
        exact .cons hmid hne hpost
    · rintro ⟨pre, u, hts, hu, hspelled⟩
      generalize hks : kinds pre = ks at hspelled
      cases hspelled with
      | @cons space _ _ statements _ hstatements hne hmore =>
        obtain ⟨t, rest, hpre, ht, hrest⟩ := List.map_eq_cons_iff.1 hks
        obtain ⟨named, rest', heq, hnamed, hrest'⟩ := List.map_eq_cons_iff.1 hrest
        obtain ⟨colon, opened, heq', hcolon, hopened⟩ := List.map_eq_cons_iff.1 hrest'
        obtain ⟨mid, post, heq'', hmid, hpost⟩ := List.map_eq_append_iff.1 hopened
        rw [← hmid] at hstatements
        rw [← hpost] at hmore
        apply yields_sections.2
        refine .inr ⟨t, named, colon, mid ++ (post ++ u :: final), space, statements,
          post ++ u :: final, blocks, by simp [hts, hpre, heq, heq', heq''], ht, hnamed, hcolon, ?_,
          ?_, ?_, rfl⟩
        · exact yields_assignments_iff_spelled.2
            ⟨⟨mid, rfl, hstatements⟩, startsAssignment_of_spelledSections hu hmore⟩
        · simp [hne]
        · exact ih.2 ⟨post, u, rfl, hu, hmore⟩

/-! ## Rules -/

/-- The blocks of a rule are the assignments in front of the first `using`, if there are any, and
the blocks with `using`. -/
theorem spelledBlocks_iff {space : String} {ks : List TokenKind} :
    SpelledBlocks lengths space ks blocks ↔
      ∃ ts us leading more, ks = ts ++ us ∧ ActionBlock.Spelled lengths ts leading ∧
        SpelledSections lengths us more ∧ blocks = leadingBlock space leading ++ more := by
  constructor
  · intro h
    cases h with
    | headed hblocks => exact ⟨[], ks, [], blocks, rfl, .nil, hblocks, rfl⟩
    | @leading ts us statements more hstatements hne hmore =>
      refine ⟨ts, us, statements, more, rfl, hstatements, hmore, ?_⟩
      simp [leadingBlock, hne]
  · rintro ⟨ts, us, leading, more, hks, hleading, hmore, hblocks⟩
    rw [hks, hblocks]
    by_cases hne : leading = []
    · rw [hne] at hleading ⊢
      cases hleading
      exact .headed hmore
    · have hblock : leadingBlock space leading = [⟨space, leading⟩] := by simp [leadingBlock, hne]
      rw [hblock]
      exact .leading hleading hne hmore

/-- The space of a rule is read from what spells it, in front of a token that names none. -/
theorem optionalSpace_iff_spelled {space : String} {t : Token} (ht : t.kind = .keyword .pixels) :
    (optionalSpace ts).1 = space ∧ (optionalSpace ts).2.1 = t :: final ↔
      ∃ pre, ts = pre ++ t :: final ∧ SpelledSpace (kinds pre) space := by
  rw [optionalSpace_eq]
  constructor
  · rintro (⟨u, hu, hts⟩ | ⟨-, hspace, hts⟩)
    · refine ⟨[u], hts, ?_⟩
      rw [kinds, List.map_cons, hu]
      exact .named space
    · rw [hspace]
      exact ⟨[], hts.symm, .default⟩
  · rintro ⟨pre, hts, hspelled⟩
    generalize hks : kinds pre = ks at hspelled
    cases hspelled with
    | named =>
      obtain ⟨u, last, hpre, hu, hlast⟩ := List.map_eq_cons_iff.1 hks
      rw [List.map_eq_nil_iff.1 hlast] at hpre
      exact .inl ⟨u, hu, by simp [hts, hpre]⟩
    | default =>
      have hnil : pre = [] := List.map_eq_nil_iff.1 hks
      rw [hnil, List.nil_append] at hts
      subst hts
      refine .inr ⟨?_, rfl, rfl⟩
      simp [spaceName?, ht]

/-- The tokens that spell a rule, part by part. -/
theorem Spelled.exists_parts {r : Rule} (h : r.Spelled lengths (kinds pre)) :
    ∃ on named pixels having ts doWord us vs finish close leading more,
      pre = on :: (named ++ pixels :: having ::
        (ts ++ doWord :: (us ++ (vs ++ [finish, close])))) ∧
      on.kind = .keyword .on ∧ SpelledSpace (kinds named) r.space ∧
      pixels.kind = .keyword .pixels ∧ having.kind = .keyword .having ∧
      Derives .disjunction (kinds ts) r.predicate ∧ r.predicate.WellShaped lengths ∧
      doWord.kind = .keyword .doWord ∧ ActionBlock.Spelled lengths (kinds us) leading ∧
      SpelledSections lengths (kinds vs) more ∧ finish.kind = .keyword .endWord ∧
      close.kind = .symbol .semicolon ∧ r.blocks = leadingBlock r.space leading ++ more := by
  generalize hks : kinds pre = ks at h
  cases h with
  | intro hspace he hshape hblocks =>
    obtain ⟨_, _, leading, more, hinner, hleading, hmore, hall⟩ := spelledBlocks_iff.1 hblocks
    rw [hinner, List.append_assoc] at hks
    -- from the first token to the last, as the kinds are put together
    obtain ⟨on, rest, hpre, hon, hrest⟩ := List.map_eq_cons_iff.1 hks
    obtain ⟨named, pixels, behind, hnames, hnamed, hpixels, hbehind⟩ :=
      exists_of_kinds_eq_append hrest
    obtain ⟨having, opened, hwords, hhaving, hopened⟩ := List.map_eq_cons_iff.1 hbehind
    obtain ⟨ts, doWord, body, hpredicate, hts, hdo, hbody⟩ := exists_of_kinds_eq_append hopened
    obtain ⟨us, sections, hstatements, hus, hsections⟩ := List.map_eq_append_iff.1 hbody
    obtain ⟨vs, finish, last, hblocks, hvs, hfinish, hlast⟩ := exists_of_kinds_eq_append hsections
    obtain ⟨close, rest', hclosed, hclose, hnil⟩ := List.map_eq_cons_iff.1 hlast
    have hpre' : pre = on :: (named ++ pixels :: having ::
        (ts ++ doWord :: (us ++ (vs ++ [finish, close])))) := by
      rw [hpre, hnames, hwords, hpredicate, hstatements, hblocks, hclosed,
        List.map_eq_nil_iff.1 hnil]
    rw [← hnamed] at hspace
    rw [← hts] at he
    rw [← hus] at hleading
    rw [← hvs] at hmore
    exact ⟨on, named, pixels, having, ts, doWord, us, vs, finish, close, leading, more, hpre', hon,
      hspace, hpixels, hhaving, he, hshape, hdo, hleading, hmore, hfinish, hclose, hall⟩

/-- Behind `on`, a rule is read exactly if the tokens from `on` spell it. -/
theorem yields_parse_iff_spelled {r : Rule} {on : Token} (hon : on.kind = .keyword .on) :
    Yields (parse scope ts) r final ↔
      ∃ pre, on :: ts = pre ++ final ∧ r.Spelled scope.lengths (kinds pre) := by
  constructor
  · intro h
    obtain ⟨pixels, having, opened, doWord, body, leading, rest, more, close, hspace, hnamed,
      hpixels, hhaving, hpredicate, hdo, hleading, hmore, hclose, hblocks⟩ := yields_parse.1 h
    obtain ⟨named, hts, hspelled⟩ := (optionalSpace_iff_spelled hpixels).1 ⟨hspace, hnamed⟩
    obtain ⟨mid, hopened, he, hshape⟩ := (Expr.yields_parse_close hdo rfl).1 hpredicate
    obtain ⟨⟨first, hbody, hfirst⟩, -⟩ := yields_assignments_iff_spelled.1 hleading
    obtain ⟨post, finish, hrest, hfinish, hpost⟩ := yields_sections_iff_spelled.1 hmore
    have hall : SpelledBlocks scope.lengths r.space (kinds (first ++ post)) r.blocks :=
      spelledBlocks_iff.2 ⟨kinds first, kinds post, leading, more, by simp, hfirst, hpost, hblocks⟩
    refine ⟨on :: (named ++ pixels :: having ::
      (mid ++ doWord :: ((first ++ post) ++ [finish, close]))), ?_, ?_⟩
    · simp [hts, hopened, hbody, hrest]
    · have hrule := Spelled.intro hspelled he hshape hall
      simpa [kinds, hon, hpixels, hhaving, hdo, hfinish, hclose] using hrule
  · rintro ⟨pre, hts, hspelled⟩
    obtain ⟨_, named, pixels, having, mid, doWord, first, post, finish, close, leading, more, hpre,
      -, hspace, hpixels, hhaving, he, hshape, hdo, hleading, hmore, hfinish, hclose, hblocks⟩ :=
      hspelled.exists_parts
    have hrest : ts = named ++ pixels :: having ::
        (mid ++ doWord :: (first ++ (post ++ finish :: close :: final))) := by
      rw [hpre] at hts
      simpa using (List.cons.inj hts).2
    obtain ⟨hname, hnamed⟩ := (optionalSpace_iff_spelled hpixels).2 ⟨named, hrest, hspace⟩
    apply yields_parse.2
    refine ⟨pixels, having, _, doWord, first ++ (post ++ finish :: close :: final), leading,
      post ++ finish :: close :: final, more, close, hname, hnamed, hpixels, hhaving, ?_, hdo, ?_,
      ?_, hclose, hblocks⟩
    · exact (Expr.yields_parse_close hdo rfl).2 ⟨mid, rfl, he, hshape⟩
    · exact yields_assignments_iff_spelled.2
        ⟨⟨first, rfl, hleading⟩, startsAssignment_of_spelledSections hfinish hmore⟩
    · exact yields_sections_iff_spelled.2 ⟨post, finish, rfl, hfinish, hmore⟩

end Rule

/-! ## Statements -/

/-- A token stands for a policy exactly if it is the keyword of that policy. -/
theorem AlphaPolicy.ofToken?_eq_some {t : Token} {policy : AlphaPolicy} :
    ofToken? t = some policy ↔ t.kind = .keyword policy.keyword := by
  unfold ofToken?
  cases policy <;> split <;> simp_all [keyword]

namespace Statement

variable {finish : Location} {s next : ReadState} {ts pre final : List Token}
  {statement : Statement}

/-- A statement that is read is spelled by the tokens taken, and leaves known the lengths
behind it. -/
theorem spelled_of_yields_parse (h : Yields (parse finish s ts) (statement, next) final) :
    (∃ pre, ts = pre ++ final ∧ statement.Spelled s.lengths (kinds pre)) ∧
      next.lengths = statement.after s.lengths := by
  rcases yields_parse.1 h with ⟨a, lengths, hstatement, hnext, ha⟩ |
    ⟨t, rest, policy, span, hts, ht, hstatement, hnext, hpolicy⟩ |
    ⟨t, rest, r, hts, ht, hstatement, hnext, hr⟩
  · rw [hstatement, hnext]
    obtain ⟨⟨pre, hts, hspelled⟩, hlengths⟩ := Assignment.yields_parse_iff_spelled.1 ha
    exact ⟨⟨pre, hts, .assign hspelled⟩, hlengths⟩
  · rw [hstatement, hnext]
    obtain ⟨word, close, hrest, hword, hclose, -⟩ := AlphaPolicy.yields_parse.1 hpolicy
    refine ⟨⟨[t, word, close], by simp [hts, hrest], ?_⟩, rfl⟩
    simp only [kinds, List.map_cons, List.map_nil, ht, AlphaPolicy.ofToken?_eq_some.1 hword, hclose]
    exact .alpha policy
  · rw [hstatement, hnext]
    obtain ⟨pre, hpre, hspelled⟩ := (Rule.yields_parse_iff_spelled ht).1 hr
    exact ⟨⟨pre, hts.trans hpre, .rule hspelled⟩, rfl⟩

/-- A statement that tokens spell is read from them, whatever follows. -/
theorem exists_yields_parse (h : statement.Spelled s.lengths (kinds pre)) :
    ∃ next, Yields (parse finish s (pre ++ final)) (statement, next) final := by
  generalize hks : kinds pre = ks at h
  cases h with
  | @assign _ a ha =>
    rw [← hks] at ha
    refine ⟨{ s with lengths := a.after s.lengths }, yields_parse.2 (.inl ⟨a, _, rfl, rfl, ?_⟩)⟩
    exact Assignment.yields_parse_iff_spelled.2 ⟨⟨pre, rfl, ha⟩, rfl⟩
  | alpha policy =>
    obtain ⟨t, rest, hpre, ht, hrest⟩ := List.map_eq_cons_iff.1 hks
    obtain ⟨word, rest', hrest', hword, hlast⟩ := List.map_eq_cons_iff.1 hrest
    obtain ⟨close, rest'', hlast', hclose, hnil⟩ := List.map_eq_cons_iff.1 hlast
    have hpre' : pre ++ final = t :: word :: close :: final := by
      rw [hpre, hrest', hlast', List.map_eq_nil_iff.1 hnil]
      rfl
    refine ⟨s.noteAlpha (t.span.merge close.span), yields_parse.2 (.inr (.inl
      ⟨t, word :: close :: final, policy, _, hpre', ht, rfl, rfl, ?_⟩))⟩
    exact AlphaPolicy.yields_parse.2
      ⟨word, close, rfl, AlphaPolicy.ofToken?_eq_some.2 hword, hclose, rfl⟩
  | @rule _ r hr =>
    rw [← hks] at hr
    obtain ⟨t, rest, hpre, ht⟩ : ∃ t rest, pre = t :: rest ∧ t.kind = .keyword .on := by
      obtain ⟨t, _, _, _, _, _, _, _, _, _, _, _, hpre, ht, -⟩ := hr.exists_parts
      exact ⟨t, _, hpre, ht⟩
    have hts : pre ++ final = t :: (rest ++ final) := by rw [hpre, List.cons_append]
    refine ⟨s, yields_parse.2 (.inr (.inr ⟨t, rest ++ final, r, hts, ht, rfl, rfl, ?_⟩))⟩
    exact (Rule.yields_parse_iff_spelled ht).2 ⟨pre, hts.symm, hr⟩

end Statement

/-! ## Programs -/

namespace Program

variable {finish : Location} {s : ReadState} {ts rest : List Token} {p q : Program}
  {lengths : Lengths}

/-- From statement to statement, the parser comes through the tokens that spell a program. -/
theorem read_iff_spelled :
    (∃ state, Read finish s ts p state rest) ↔
      ∃ pre, ts = pre ++ rest ∧ Spelled s.lengths (kinds pre) p := by
  induction p generalizing s ts with
  | nil =>
    constructor
    · rintro ⟨state, h⟩
      obtain ⟨-, heq⟩ := read_nil.1 h
      exact ⟨[], heq.symm, .nil⟩
    · rintro ⟨pre, hts, hspelled⟩
      generalize hks : kinds pre = ks at hspelled
      cases hspelled
      have hnil : pre = [] := List.map_eq_nil_iff.1 hks
      exact ⟨s, read_nil.2 ⟨rfl, by rw [hts, hnil]; rfl⟩⟩
  | cons statement p ih =>
    constructor
    · rintro ⟨state, h⟩
      obtain ⟨next, after, hstatement, hmore⟩ := read_cons.1 h
      obtain ⟨⟨pre, hts, hspelled⟩, hlengths⟩ := Statement.spelled_of_yields_parse hstatement
      obtain ⟨mid, hafter, hrest⟩ := ih.1 ⟨state, hmore⟩
      refine ⟨pre ++ mid, by rw [hts, hafter, List.append_assoc], ?_⟩
      rw [hlengths] at hrest
      rw [kinds, List.map_append]
      exact .cons hspelled hrest
    · rintro ⟨pre, hts, hspelled⟩
      generalize hks : kinds pre = ks at hspelled
      cases hspelled with
      | cons h hmore =>
        obtain ⟨first, mid, hpre, hfirst, hmid⟩ := List.map_eq_append_iff.1 hks
        rw [← hfirst] at h
        rw [← hmid] at hmore
        rw [hts, hpre, List.append_assoc]
        obtain ⟨next, hread⟩ := Statement.exists_yields_parse h
        -- the lengths that the parser goes on with are those of the grammar
        rw [← (Statement.spelled_of_yields_parse hread).2] at hmore
        obtain ⟨state, hstate⟩ := ih.2 ⟨mid, rfl, hmore⟩
        exact ⟨state, .cons hread hstate⟩

/-- All tokens are read as a program exactly if they spell it. -/
theorem exists_parseFrom_iff_spelled (finish : Location) :
    (∃ state, parseFrom finish ⟨lengths, none, []⟩ ts = .ok (p, state)) ↔
      Spelled lengths (kinds ts) p := by
  have hread : (∃ state, parseFrom finish ⟨lengths, none, []⟩ ts = .ok (p, state)) ↔
      ∃ state, Read finish ⟨lengths, none, []⟩ ts p state [] :=
    ⟨fun ⟨state, h⟩ => ⟨state, read_of_parseFrom h⟩, fun ⟨state, h⟩ => ⟨state, parseFrom_of_read h⟩⟩
  rw [hread, read_iff_spelled]
  simp

/-- The grammar spells no two programs alike. -/
theorem Spelled.unique {ks : List TokenKind} (hp : Spelled lengths ks p)
    (hq : Spelled lengths ks q) : p = q := by
  -- tokens of these kinds are parsed alike wherever they stand, and to one program only
  have hkinds : kinds (ks.map fun k => ⟨k, ⟨.nowhere, .nowhere⟩⟩) = ks := by
    rw [kinds, List.map_map]
    exact List.map_id ks
  rw [← hkinds] at hp hq
  obtain ⟨_, hp⟩ := (exists_parseFrom_iff_spelled .nowhere).2 hp
  obtain ⟨_, hq⟩ := (exists_parseFrom_iff_spelled .nowhere).2 hq
  exact congrArg Prod.fst (Except.ok.inj (hp.symm.trans hq))

/-- The parser accepts exactly the programs of the grammar, and answers their statements. -/
theorem parse_eq_ok_iff (ts : List Token) (lengths : Lengths) (p : Program) :
    (∃ warnings, parse ts lengths = .ok (p, warnings)) ↔
      Spelled lengths (ts.map (·.kind)) p := by
  have hfrom : (∃ warnings, parse ts lengths = .ok (p, warnings)) ↔
      ∃ state, parseFrom (endLocation ts) ⟨lengths, none, []⟩ ts = .ok (p, state) := by
    constructor
    · rintro ⟨warnings, h⟩
      obtain ⟨⟨program, state⟩, hparse, h⟩ := bind_eq_ok.1 h
      cases h
      exact ⟨state, hparse⟩
    · rintro ⟨state, h⟩
      exact ⟨state.warnings, bind_eq_ok.2 ⟨(p, state), h, rfl⟩⟩
  rw [hfrom]
  exact exists_parseFrom_iff_spelled (endLocation ts)

end Program

end Recolor
