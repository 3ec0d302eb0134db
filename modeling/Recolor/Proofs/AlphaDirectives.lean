import Recolor.Proofs.PlacesInSource
import Recolor.Proofs.PolicyFaults
import Recolor.Proofs.ProgramParser

/-!
# Alpha directives

`directivesIn` finds the alpha directives of a script without parsing it: they stand wherever the
word `alpha`, a policy and a semicolon follow one another. In a script that compiles, no statement
but a directive has the word `alpha` in it (`Rule.Spelled.alpha_not_mem` and the lemmas before), so
these are the directives that the parser comes across.

What the parser remembers of them is only the span of the last one. One statement either is a
directive, and moves the memory on with a warning if there was one before, or leaves memory and
warnings alone (`Statement.notes_of_yields_parse`); a program has the warnings of all its directives
after the first (`Program.Read.directives`).
-/

set_option autoImplicit false

namespace Recolor

/-! ## Directives among tokens -/

/-- The policy that a word names. -/
def AlphaPolicy.named? (word : Token) : Option AlphaPolicy :=
  [.require, .allow, .forbid].find? fun policy => word.kind.isKeyword policy.keyword

/-- An alpha directive of a script: its policy, and its span from the word `alpha` to the
semicolon. -/
structure AlphaDirective where
  policy : AlphaPolicy
  span : Span
deriving DecidableEq

namespace AlphaDirective

/-- The directive that tokens start with. -/
def atHead? : List Token → Option AlphaDirective
  | first :: word :: close :: _ =>
    if first.kind.isKeyword .alpha && close.kind.isSymbol .semicolon then
      (AlphaPolicy.named? word).map fun policy => ⟨policy, ⟨first.span.start, close.span.stop⟩⟩
    else none
  | _ => none

/-- The directives among tokens, in their order. -/
def all : List Token → List AlphaDirective
  | [] => []
  | t :: rest => (atHead? (t :: rest)).toList ++ all rest

end AlphaDirective

/-- The alpha directives of a script. -/
def directivesIn (source : String) : List AlphaDirective :=
  AlphaDirective.all (tokenize source).tokens

/-- A word names a policy exactly if it is the keyword of that policy. -/
theorem AlphaPolicy.named?_eq_some {word : Token} {policy : AlphaPolicy} :
    named? word = some policy ↔ word.kind = .keyword policy.keyword := by
  unfold named?
  cases word.kind with
  | keyword k =>
    rw [TokenKind.keyword.injEq]
    cases k <;> cases policy <;> decide
  | _ => simp [List.find?, TokenKind.isKeyword]

namespace AlphaDirective

variable {pre rest : List Token} {t first word close : Token} {policy : AlphaPolicy}

/-- A token that does not open a directive adds none. -/
theorem all_cons (ht : t.kind ≠ .keyword .alpha) : all (t :: rest) = all rest := by
  have hhead : atHead? (t :: rest) = none := by
    unfold atHead?
    split
    next heq =>
      obtain ⟨rfl, -⟩ := List.cons.inj heq
      rw [if_neg]
      simp [ht]
    next => rfl
  rw [all, hhead]
  rfl

/-- Tokens without the word `alpha` hold no directive, and start none. -/
theorem all_append (hpre : .keyword .alpha ∉ kinds pre) : all (pre ++ rest) = all rest := by
  induction pre with
  | nil => rfl
  | cons t pre ih =>
    simp only [kinds, List.map_cons, List.mem_cons, not_or] at hpre
    rw [List.cons_append, all_cons (Ne.symm hpre.1), ih hpre.2]

/-- A directive is read off from its three tokens, with the span from the first to the last. -/
theorem all_directive (hfirst : first.kind = .keyword .alpha)
    (hword : word.kind = .keyword policy.keyword) (hclose : close.kind = .symbol .semicolon) :
    all (first :: word :: close :: rest) =
      ⟨policy, ⟨first.span.start, close.span.stop⟩⟩ :: all rest := by
  have hwords : all (word :: close :: rest) = all rest := by
    rw [all_cons, all_cons]
    · rw [hclose]
      exact TokenKind.noConfusion
    · rw [hword]
      cases policy <;> simp [AlphaPolicy.keyword]
  rw [all, hwords, atHead?, AlphaPolicy.named?_eq_some.2 hword, if_pos (by simp [hfirst, hclose])]
  rfl

end AlphaDirective

/-! ## Statements without the word `alpha` -/

/-- No expression has the word in it, whatever else stands between its brackets. -/
theorem Derives.alpha_not_mem {l : Nonterminal} {ks : List TokenKind} {e : Expr}
    (h : Derives l ks e) : .keyword .alpha ∉ ks := by
  have hbound : ∀ {ts : List TokenKind} {bound : Option Expr}, (bound = none → ts = []) →
      (∀ e, bound = some e → .keyword .alpha ∉ ts) → .keyword .alpha ∉ ts := by
    intro ts bound hnone hsome
    cases bound with
    | none => simp [hnone rfl]
    | some e => exact hsome e rfl
  induction h with
  | lower _ _ ih => exact ih
  | join _ _ _ _ ihl ihr => simp [ihl, ihr]
  | @compare k _ _ _ _ _ hop _ _ ihl ihr =>
    have hk : TokenKind.keyword .alpha ≠ k := by
      rintro rfl
      cases hop
    simp [ihl, ihr, hk]
  | interval _ _ ihl ihr => simp [ihl, ihr]
  | tolerance _ _ ihl ihr => simp [ihl, ihr]
  | @sign k _ _ _ hop _ ih =>
    have hk : TokenKind.keyword .alpha ≠ k := by
      rintro rfl
      cases hop
    simp [ih, hk]
  | index _ _ ihl ihr => simp [ihl, ihr]
  | @literal k _ hk =>
    have hk : TokenKind.keyword .alpha ≠ k := by
      rintro rfl
      cases hk
    simp [hk]
  | parenthesised _ ih => simp [ih]
  | saturated _ ih => simp [ih]
  | empty => simp
  | vector _ ih => simp [ih]
  | element _ ih => exact ih
  | elements _ _ ihl ihr => simp [ihl, ihr]
  | place _ ih => exact ih
  | slice hts _ hus _ ihts ihus => simp [hbound hts ihts, hbound hus ihus]
  | steppedSlice hts _ hus _ hvs _ ihts ihus ihvs =>
    simp [hbound hts ihts, hbound hus ihus, hbound hvs ihvs]

section Statements

variable {lengths : Lengths} {ks : List TokenKind}

/-- No assignment is spelled with the keyword that opens a directive. -/
theorem Assignment.Spelled.alpha_not_mem {inBlock : Bool} {a : Assignment}
    (h : a.Spelled lengths inBlock ks) : .keyword .alpha ∉ ks := by
  cases h with
  | plain he _ _ => simp [he.alpha_not_mem]
  | compound _ he _ _ => simp [he.alpha_not_mem]

/-- The statements of a block are spelled without the keyword that opens a directive. -/
theorem ActionBlock.Spelled.alpha_not_mem {statements : List Assignment}
    (h : ActionBlock.Spelled lengths ks statements) : .keyword .alpha ∉ ks := by
  induction h with
  | nil => simp
  | cons ha _ ih => simp [ha.alpha_not_mem, ih]

namespace Rule

/-- The blocks of a rule are spelled without the keyword that opens a directive. -/
theorem SpelledSections.alpha_not_mem {blocks : List ActionBlock}
    (h : SpelledSections lengths ks blocks) : .keyword .alpha ∉ ks := by
  induction h with
  | nil => simp
  | cons hstatements _ _ ih => simp [hstatements.alpha_not_mem, ih]

/-- A rule is spelled without the keyword that opens a directive, so that directives stand between
rules only. -/
theorem Spelled.alpha_not_mem {r : Rule} (h : r.Spelled lengths ks) : .keyword .alpha ∉ ks := by
  cases h with
  | @intro named _ _ space _ _ hspace hpredicate _ hblocks =>
    have hnamed : TokenKind.keyword .alpha ∉ named := by
      cases hspace <;> simp
    obtain ⟨_, _, _, _, rfl, hleading, hmore, -⟩ := spelledBlocks_iff.1 hblocks
    simp [hnamed, hpredicate.alpha_not_mem, hleading.alpha_not_mem, hmore.alpha_not_mem]

end Rule

end Statements

/-! ## Tokens in their order -/

/-- Each token starts and ends before the tokens behind it do. -/
def InOrder (ts : List Token) : Prop :=
  ts.Pairwise fun t u =>
    t.span.start.offset < u.span.start.offset ∧ t.span.stop.offset < u.span.stop.offset

/-- The tokens of a script stand one behind the other. -/
theorem inOrder_tokens (source : String) : InOrder (tokenize source).tokens := by
  have hcut := cut_scriptItems source
  have hitems := hcut.pairwise (Nat.le_of_eq (Nat.zero_add _))
  have hordered : (scriptItems source).Pairwise fun i j =>
      i.span.start.offset < j.span.start.offset ∧ i.span.stop.offset < j.span.stop.offset := by
    apply hitems.imp_of_mem
    intro i j hi hj hij
    have hfirst := (hcut.boundaries rfl hi).2.2
    have hsecond := (hcut.boundaries rfl hj).2.2
    omega
  exact List.pairwise_map.1 (hordered.sublist (Lexed.sublist_tokens _))

/-- Two spans in their order are covered from the start of the first to the end of the second. -/
theorem Span.merge_eq {a b : Span} (hstart : a.start.offset < b.start.offset)
    (hstop : a.stop.offset < b.stop.offset) : a.merge b = ⟨a.start, b.stop⟩ := by
  rw [merge, if_pos (by omega), if_neg (by omega)]

/-! ## What the parser notes -/

/-- The warnings on directives that stand behind another, or behind none. -/
def repeatedFrom : Option Span → List AlphaDirective → Diagnostics
  | _, [] => []
  | last?, d :: ds =>
    (last?.map (repeatedAlpha d.span)).toList ++ repeatedFrom (some d.span) ds

/-- The policies that the directives of a program set. -/
def Program.policies (p : Program) : List AlphaPolicy :=
  p.filterMap fun
    | .alpha policy => some policy
    | _ => none

/-- A statement is the next directive of the tokens, or there is no directive in it and the memory
of the parser stays as it is. -/
theorem Statement.notes_of_yields_parse {finish : Location} {s next : ReadState}
    {ts final : List Token} {statement : Statement} (hts : InOrder ts)
    (h : Yields (parse finish s ts) (statement, next) final) :
    (∃ d : AlphaDirective, statement = .alpha d.policy ∧ next = s.noteAlpha d.span ∧
      AlphaDirective.all ts = d :: AlphaDirective.all final) ∨
    ((∀ policy, statement ≠ .alpha policy) ∧ next.lastAlpha = s.lastAlpha ∧
      next.warnings = s.warnings ∧ AlphaDirective.all ts = AlphaDirective.all final) := by
  rcases yields_parse.1 h with ⟨a, lengths, rfl, rfl, ha⟩ |
    ⟨first, rest, policy, span, rfl, hfirst, rfl, rfl, hpolicy⟩ |
    ⟨on, rest, r, rfl, hon, rfl, rfl, hr⟩
  · obtain ⟨⟨pre, rfl, hspelled⟩, -⟩ := Assignment.yields_parse_iff_spelled.1 ha
    refine .inr ⟨fun _ => Statement.noConfusion, rfl, rfl, ?_⟩
    exact AlphaDirective.all_append hspelled.alpha_not_mem
  · obtain ⟨word, close, rfl, hword, hclose, rfl⟩ := AlphaPolicy.yields_parse.1 hpolicy
    have horder := (List.pairwise_cons.1 hts).1 close (by simp)
    rw [Span.merge_eq horder.1 horder.2]
    refine .inl ⟨⟨policy, ⟨first.span.start, close.span.stop⟩⟩, rfl, rfl, ?_⟩
    exact AlphaDirective.all_directive hfirst (AlphaPolicy.ofToken?_eq_some.1 hword) hclose
  · obtain ⟨pre, hpre, hspelled⟩ := (Rule.yields_parse_iff_spelled hon).1 hr
    refine .inr ⟨fun _ => Statement.noConfusion, rfl, rfl, ?_⟩
    rw [hpre]
    exact AlphaDirective.all_append hspelled.alpha_not_mem

/-- What is left behind a statement is in order too. -/
theorem Statement.inOrder_of_yields_parse {finish : Location} {s next : ReadState}
    {ts final : List Token} {statement : Statement} (hts : InOrder ts)
    (h : Yields (parse finish s ts) (statement, next) final) : InOrder final := by
  obtain ⟨⟨pre, rfl, -⟩, -⟩ := spelled_of_yields_parse h
  exact hts.sublist (List.sublist_append_right pre final)

namespace Program

/-- From the start of a program to its end, the policies are those of the directives among the
tokens, and there is a warning on each of them with another before it. -/
theorem Read.directives {finish : Location} {s final : ReadState} {ts : List Token} {p : Program}
    (hts : InOrder ts) (h : Read finish s ts p final []) :
    p.policies = (AlphaDirective.all ts).map (·.policy) ∧
      final.warnings = s.warnings ++ repeatedFrom s.lastAlpha (AlphaDirective.all ts) := by
  induction p generalizing s ts with
  | nil =>
    obtain ⟨rfl, rfl⟩ := read_nil.1 h
    exact ⟨rfl, (List.append_nil _).symm⟩
  | cons statement p ih =>
    obtain ⟨next, after, hstatement, hmore⟩ := read_cons.1 h
    obtain ⟨hpolicies, hwarnings⟩ :=
      ih (Statement.inOrder_of_yields_parse hts hstatement) hmore
    rcases Statement.notes_of_yields_parse hts hstatement with ⟨d, rfl, rfl, hall⟩ |
      ⟨hother, hlast, hsame, hall⟩
    · rw [hall]
      constructor
      · rw [List.map_cons, ← hpolicies]
        rfl
      · rw [hwarnings, repeatedFrom, ← List.append_assoc]
        rfl
    · rw [hall, hwarnings, hlast, hsame, ← hpolicies]
      refine ⟨?_, rfl⟩
      cases statement with
      | alpha policy => exact absurd rfl (hother policy)
      | assign a => rfl
      | rule r => rfl

end Program

/-- The warnings on all directives but the first, each about the directive before it. -/
theorem repeatedFrom_some (d : AlphaDirective) (ds : List AlphaDirective) :
    repeatedFrom (some d.span) ds =
      List.zipWith (fun d before => repeatedAlpha d.span before.span) ds (d :: ds) := by
  induction ds generalizing d with
  | nil => rfl
  | cons e ds ih =>
    rw [repeatedFrom, ih]
    rfl

/-- Before the first directive there is none to be repeated. -/
theorem repeatedFrom_none (ds : List AlphaDirective) :
    repeatedFrom none ds =
      List.zipWith (fun d before => repeatedAlpha d.span before.span) (ds.drop 1) ds := by
  cases ds with
  | nil => rfl
  | cons d ds => exact repeatedFrom_some d ds

/-! ## Warnings among the diagnostics -/

/-- The code of the warnings on repeated directives. -/
def repeatedCode : String := "colormap::syntax::repeated-alpha"

/-- What is wrong with a piece of text is never reported under the code of a repeated directive. -/
theorem ScriptItem.Made.code_ne {text rest : List Char} {span : Span} {i : ScriptItem}
    (h : i.Made text rest span) {d : Diagnostic} (hd : i = .error d) : d.code ≠ repeatedCode := by
  cases h with
  | @piece _ _ _ piece _ =>
    cases piece with
    | openString =>
      cases hd
      simp [Lexeme.malformedString, repeatedCode]
    | word =>
      simp only [Lexeme.item] at hd
      split at hd
      next => cases hd
      next =>
        cases hd
        simp [Lexeme.unknownWord, repeatedCode]
    | number | string | scalar | vector | symbol => cases hd
  | illegal _ =>
    cases hd
    simp [Lexeme.illegalCharacter, repeatedCode]

/-- No remark on the text of a script has the code of a repeated directive. -/
theorem code_ne_of_mem_diagnostics {source : String} {d : Diagnostic}
    (hd : d ∈ (tokenize source).diagnostics) : d.code ≠ repeatedCode := by
  have hitem : Except.error d ∈ scriptItems source :=
    (Lexed.sublist_diagnostics (scriptItems source)).subset (List.mem_map_of_mem hd)
  obtain ⟨_, _, _, -, -, hmade, -, -⟩ :=
    (cut_scriptItems source).exists_split (Nat.le_of_eq (Nat.zero_add _)) hitem
  exact hmade.code_ne rfl

namespace CompiledScript

variable {source : String} {registry : Registry} {config : Config} {s : CompiledScript}

/-- However lexical faults are dealt with, tokens that are handed on are those of the whole text. -/
theorem eq_tokenize_of_readTokens {strict : Bool} {lexed : Lexed}
    (h : readTokens source strict = .ok lexed) : lexed = tokenize source := by
  unfold readTokens at h
  split at h
  · obtain ⟨ts, hts, rfl⟩ := map_eq_ok.1 h
    obtain ⟨hnone, rfl⟩ := of_tokenizeStrict_eq_ok hts
    rw [← hnone]
  · cases h
    rfl

/-- Policy and diagnostics of a compiled script, by the directives among its tokens. -/
theorem alpha_diagnostics_of_compile (h : compile source registry config = .ok s) :
    s.alpha = config.alpha.getD (((directivesIn source).map (·.policy)).getLastD .allow) ∧
      s.diagnostics = (tokenize source).diagnostics ++
        List.zipWith (fun d before => repeatedAlpha d.span before.span)
          ((directivesIn source).drop 1) (directivesIn source) := by
  obtain ⟨lexed, hlexed, h⟩ := bind_eq_ok.1 h
  obtain ⟨⟨program, warnings⟩, hparse, h⟩ := bind_eq_ok.1 h
  obtain ⟨globals, -, h⟩ := bind_eq_ok.1 h
  obtain ⟨entries, -, h⟩ := bind_eq_ok.1 h
  cases h
  rw [eq_tokenize_of_readTokens hlexed] at hparse ⊢
  obtain ⟨⟨_, final⟩, hfrom, hfinal⟩ := bind_eq_ok.1 hparse
  cases hfinal
  obtain ⟨hpolicies, hwarnings⟩ :=
    (Program.read_of_parseFrom hfrom).directives (inOrder_tokens source)
  rw [repeatedFrom_none] at hwarnings
  constructor
  · rw [directivesIn, ← hpolicies]
    rfl
  · rw [hwarnings]
    rfl

/-- The alpha policy of a script that compiles, and the warnings on its directives, depend on the
directives in its text. The policy is that of the options if these have one, else that of the last
directive; without a directive, alpha bands are allowed. Behind the remarks on the text there is one
warning for each directive but the first, on the span of the directive, that names where the
directive before it starts. A run fails on the policy exactly if the one of its own options, or else
that of the script, is not met by the image, and then it fails whatever rules the script has. -/
theorem alpha_of_directives (h : compile source registry config = .ok s) :
    s.alpha = config.alpha.getD (((directivesIn source).map (·.policy)).getLastD .allow) ∧
    (∃ warnings, s.diagnostics = (tokenize source).diagnostics ++ warnings ∧
      warnings.length = (directivesIn source).length - 1 ∧
      ∀ i before d, (directivesIn source)[i]? = some before →
        (directivesIn source)[i + 1]? = some d →
        warnings[i]? = some {
          severity := .warning
          code := repeatedCode
          message := "Alpha directive overrides an earlier one"
          span := d.span
          help := some ("The earlier directive is at " ++ before.span.start.text) }) ∧
    (s.diagnostics.filter (·.code == repeatedCode)).length = (directivesIn source).length - 1 ∧
    ∀ image other,
      (s.runWith image other = .error (.image .alphaRequired) ↔
        other.alpha.getD s.alpha = .require ∧ image.hasAlpha = false) ∧
      (s.runWith image other = .error (.image .alphaForbidden) ↔
        other.alpha.getD s.alpha = .forbid ∧ image.hasAlpha = true) ∧
      ∀ fault : Fault, fault.OfPolicy → s.runWith image other = .error fault →
        ∀ mapper, ({ s with mapper := mapper } : CompiledScript).runWith image other =
          .error fault := by
  obtain ⟨halpha, hdiagnostics⟩ := alpha_diagnostics_of_compile h
  have hcompiled := compiled_entries h
  refine ⟨halpha, ⟨_, hdiagnostics, ?_, ?_⟩, ?_, ?_⟩
  · simp
  · intro i before d hbefore hd
    simp only [List.getElem?_zipWith, List.getElem?_drop, Nat.add_comm 1 i, hbefore, hd]
    rfl
  · have hlexical : (tokenize source).diagnostics.filter (·.code == repeatedCode) = [] :=
      List.filter_eq_nil_iff.2 fun d hd => by simp [code_ne_of_mem_diagnostics hd]
    have hwarnings : ∀ w ∈ List.zipWith (fun d before => repeatedAlpha d.span before.span)
        ((directivesIn source).drop 1) (directivesIn source), w.code == repeatedCode := by
      intro w hw
      obtain ⟨i, hi, rfl⟩ := List.mem_iff_getElem.1 hw
      rw [List.getElem_zipWith]
      rfl
    rw [hdiagnostics, List.filter_append, hlexical, List.filter_eq_self.2 hwarnings]
    simp
  · intro image other
    refine ⟨?_, ?_, ?_⟩
    · rw [← checkAlpha_eq_required]
      exact runWith_eq_error_iff hcompiled trivial
    · rw [← checkAlpha_eq_forbidden]
      exact runWith_eq_error_iff hcompiled trivial
    · intro fault hfault hrun
      exact runWith_eq_error_anyway hcompiled hfault hrun

/-- Three directives with an assignment and a rule between them, and a character of no token. -/
def changingMinds : String :=
  "alpha require;\n$a = 0.5;\nalpha ? allow;\n" ++
    "on pixels having $r > $a do $r = $a; end;\nALPHA forbid;"

/-- The directives of that script: the last one forbids alpha bands. -/
theorem directivesIn_changingMinds : directivesIn changingMinds =
    [⟨.require, ⟨⟨0, 1, 1⟩, ⟨14, 1, 15⟩⟩⟩, ⟨.allow, ⟨⟨25, 3, 1⟩, ⟨39, 3, 15⟩⟩⟩,
      ⟨.forbid, ⟨⟨82, 5, 1⟩, ⟨95, 5, 14⟩⟩⟩] := by
  decide +kernel

/-- Of three directives the last one counts, the two before it are warned about, and images are
refused by it unless the configuration says otherwise. -/
theorem alpha_of_directives_changingMinds :
    ∃ s, compile changingMinds .standard = .ok s ∧ s.alpha = .forbid ∧
      (s.diagnostics.filter (·.code == repeatedCode)).length = 2 ∧
      (∃ w ∈ s.diagnostics, w.span = ⟨⟨82, 5, 1⟩, ⟨95, 5, 14⟩⟩ ∧
        w.help = some "The earlier directive is at 3:1") ∧
      s.runWith ⟨1, 1, 4, [[0, 0, 0, 1]]⟩ .standard = .error (.image .alphaForbidden) ∧
      s.runWith ⟨1, 1, 3, [[0, 0, 0]]⟩ { alpha := some .require } =
        .error (.image .alphaRequired) := by
  have hok : (compile changingMinds .standard).isOk = true := by decide +kernel
  obtain ⟨s, hs⟩ := exists_of_isOk hok
  obtain ⟨halpha, ⟨warnings, hdiagnostics, -, hwarnings⟩, hcount, hruns⟩ := alpha_of_directives hs
  rw [directivesIn_changingMinds] at halpha hwarnings hcount
  have hlast := List.mem_append_right (tokenize changingMinds).diagnostics
    (List.mem_of_getElem? (hwarnings 1 _ _ rfl rfl))
  rw [← hdiagnostics] at hlast
  refine ⟨s, hs, halpha, hcount, ⟨_, hlast, rfl, ?_⟩, ?_, ?_⟩
  · decide +kernel
  · exact (hruns _ _).2.1.2 ⟨halpha, rfl⟩
  · exact (hruns _ _).1.2 ⟨rfl, rfl⟩

end CompiledScript

end Recolor
