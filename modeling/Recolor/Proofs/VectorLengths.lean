import Recolor.Proofs.Checked

/-!
# The lengths that a rule is checked with

The parser checks a rule with the lengths of the vectors that are assigned in front of it. The rule
runs over what all global assignments leave behind, which includes those that stand behind the rule.
As long as assignments run, the variables `Track` the lengths that the parser knows
(`tracks_of_execute`). So they do wherever the parser stands in a program, since blocks of rules
change neither (`Program.tracks_of_read`). Behind the rule a vector keeps its items if nothing is
assigned to it (`vector?_of_execute`), and stays bound in any case (`isSome_vector?_of_execute`). So
a rule runs with the lengths that it was checked with, but for vectors that are assigned again
behind it and of which another length is known at the end, or none (`vectors_of_rule`).
-/

set_option autoImplicit false

namespace Recolor

variable {env next final : Environment} {lengths : Lengths} {a : Assignment}
  {statements : List Assignment} {name : String}

/-! ## Lengths and variables in step -/

/-- The environment agrees with the lengths, and binds each vector of which the length is known. -/
structure Environment.Tracks (env : Environment) (lengths : Lengths) : Prop
    extends env.Agrees lengths where
  bound : ∀ name n, lengths.get? name = some n → (env.vector? name).isSome

/-- Without variables no length is known. -/
theorem Environment.tracks_empty : empty.Tracks [] where
  toAgrees := agrees_empty
  bound name n hn := by cases hn

namespace Assignment

/-- An assignment to a variable that is no vector changes no length. -/
theorem after_of_scalar (h : a.target = .scalar name) : a.after lengths = lengths := by
  unfold after lengthsAfter
  rw [h]

/-- An assignment to a vector makes the length of that vector known, or unknown, and no other. -/
theorem get?_after_of_vector {length : Option Nat} (h : a.target = .vector name)
    (hshape : a.value.shape lengths = .vector length) (other : String) :
    (a.after lengths).get? other = if other = name then length else lengths.get? other := by
  unfold after lengthsAfter
  rw [h, hshape]
  cases length with
  | none => exact Bindings.get?_erase lengths name other
  | some n => exact Bindings.get?_insert lengths name other n

/-- One step: a checked assignment changes variables as it changes lengths. -/
theorem tracks_of_run (ha : a.Checked lengths) (henv : env.Tracks lengths)
    (h : a.run env = .ok next) : next.Tracks (a.after lengths) := by
  rcases cases_of_run h with
    ⟨name, items, htarget, hitems, rfl⟩ | ⟨name, v, htarget, hv, hvector, rfl⟩
  · have hadmits := Expr.admits_of_evaluate henv.toAgrees hitems
    cases hshape : a.value.shape lengths with
    | plain =>
      rw [hshape] at hadmits
      cases hadmits
    | vector length =>
      rw [hshape] at hadmits
      have hget := get?_after_of_vector htarget hshape
      refine ⟨henv.bindVector (fun n hn => ?_) (fun other hother => ?_), fun other n hn => ?_⟩
      · -- a length that is known behind the assignment is that of the shape
        rw [hget, if_pos rfl] at hn
        rw [hn] at hadmits
        exact Option.some.inj hadmits
      · rw [hget, if_neg hother]
      · rw [Environment.vector?_bindVector]
        rw [hget] at hn
        split at hn
        next heq => rw [if_pos heq]; rfl
        next hne => rw [if_neg hne]; exact henv.bound other n hn
  · have hslice := (Expr.isSlice_of_evaluate henv.toAgrees hv).trans ha.isSlice
    rw [after_of_scalar htarget]
    exact ⟨henv.bind ⟨hvector, hslice⟩, henv.bound⟩

/-- An assignment to something else keeps a vector. -/
theorem vector?_of_run (h : a.run env = .ok next) (hname : a.target ≠ .vector name) :
    next.vector? name = env.vector? name := by
  rcases cases_of_run h with ⟨other, items, htarget, -, rfl⟩ | ⟨_, _, -, -, -, rfl⟩
  · have hother : name ≠ other := fun heq => hname (heq ▸ htarget)
    rw [Environment.vector?_bindVector, if_neg hother]
  · rfl

/-- A vector that is bound stays bound behind an assignment. -/
theorem isSome_vector?_of_run (h : a.run env = .ok next) (hname : (env.vector? name).isSome) :
    (next.vector? name).isSome := by
  rcases cases_of_run h with ⟨other, items, -, -, rfl⟩ | ⟨_, _, -, -, -, rfl⟩
  · rw [Environment.vector?_bindVector]
    split
    · rfl
    · exact hname
  · exact hname

end Assignment

/-- A whole run: assignments that are checked leave variables behind that track the lengths. -/
theorem tracks_of_execute (hstatements : CheckedAll lengths statements) (henv : env.Tracks lengths)
    (h : execute statements env = .ok final) : final.Tracks (lengthsBehind lengths statements) := by
  induction statements generalizing env lengths with
  | nil =>
    cases h
    exact henv
  | cons a rest ih =>
    obtain ⟨next, hnext, hrest⟩ := bind_eq_ok.1 h
    exact ih hstatements.2 (Assignment.tracks_of_run hstatements.1 henv hnext) hrest

/-! ## What assignments leave alone -/

/-- A vector that nothing is assigned to keeps its items. -/
theorem vector?_of_execute (h : execute statements env = .ok final)
    (hname : ∀ a ∈ statements, a.target ≠ .vector name) :
    final.vector? name = env.vector? name := by
  induction statements generalizing env with
  | nil =>
    cases h
    rfl
  | cons a rest ih =>
    obtain ⟨next, hnext, hrest⟩ := bind_eq_ok.1 h
    rw [ih hrest fun b hb => hname b (List.mem_cons_of_mem a hb)]
    exact Assignment.vector?_of_run hnext (hname a List.mem_cons_self)

/-- A vector that is bound stays bound. -/
theorem isSome_vector?_of_execute (h : execute statements env = .ok final)
    (hname : (env.vector? name).isSome) : (final.vector? name).isSome := by
  induction statements generalizing env with
  | nil =>
    cases h
    exact hname
  | cons a rest ih =>
    obtain ⟨next, hnext, hrest⟩ := bind_eq_ok.1 h
    exact ih hrest (Assignment.isSome_vector?_of_run hnext hname)

/-- Assignments can be executed in two parts, one after the other. -/
theorem execute_append {more : List Assignment} :
    execute (statements ++ more) env = execute statements env >>= execute more := by
  induction statements generalizing env with
  | nil => rfl
  | cons a rest ih =>
    simp only [List.cons_append, execute, ih]
    cases a.run env <;> rfl

/-! ## Parts of programs -/

namespace Program

variable {ts rest : List Token} {before behind : Program} {state : ReadState}
  {warnings : Diagnostics}

/-- The variables in front of any place of the program track what the parser knows there. -/
theorem tracks_of_read {finish : Location} (h : Read finish {} ts before state rest)
    (henv : execute before.assignments .empty = .ok env) : env.Tracks state.lengths := by
  obtain ⟨hchecked, hlengths⟩ := h.checkedAll
  rw [hlengths]
  exact tracks_of_execute hchecked Environment.tracks_empty henv

/-- Wherever the parser stands in a program, it knows lengths that the vectors have once the
assignments in front of that place have run. -/
theorem vector?_of_read (h : parse ts = .ok (before ++ behind, warnings))
    (henv : execute before.assignments .empty = .ok env) :
    (∃ state rest, Read (endLocation ts) {} ts before state rest) ∧
      ∀ state rest, Read (endLocation ts) {} ts before state rest →
        ∀ name n, state.lengths.get? name = some n →
          ∃ items, env.vector? name = some items ∧ items.length = n := by
  obtain ⟨final, hread⟩ := read_of_parse h
  obtain ⟨state, rest, hbefore, -⟩ := read_append.1 hread
  refine ⟨⟨state, rest, hbefore⟩, fun state rest hbefore name n hn => ?_⟩
  have htracks := tracks_of_read hbefore henv
  obtain ⟨items, hitems⟩ := Option.isSome_iff_exists.1 (htracks.bound name n hn)
  exact ⟨items, hitems, htracks.vector name n items hn hitems⟩

/-- A script with a rule whose block gives `$$v` another length for its own statements. -/
def shadowing : String :=
  "$$v = [1, 2]; on pixels having $r > 0 do $$v = [1]; $r = $$v[0]; end; $$w = $$v + [3, 4];"

/-- The assignment, the rule and the assignment that a program is made of. -/
def aroundRule : Program → Except Fault (Assignment × Rule × Assignment)
  | [.assign a, .rule r, .assign b] => .ok (a, r, b)
  | _ => .error (.config (.invalid ""))

/-- What is taken apart is the program. -/
theorem eq_of_aroundRule {p : Program} {a b : Assignment} {r : Rule}
    (h : aroundRule p = .ok (a, r, b)) : p = [.assign a, .rule r] ++ [.assign b] := by
  unfold aroundRule at h
  split at h <;> cases h
  rfl

/-- Behind the rule `$$v` has two items, whatever the block of the rule assigns to it. -/
theorem vector?_of_read_shadowing :
    ∃ lexed warnings a r b env state rest items,
      CompiledScript.readTokens shadowing Config.standard.strictLexing = .ok lexed ∧
      parse lexed.tokens = .ok ([.assign a, .rule r] ++ [.assign b], warnings) ∧
      execute (assignments [.assign a, .rule r]) .empty = .ok env ∧
      Read (endLocation lexed.tokens) {} lexed.tokens [.assign a, .rule r] state rest ∧
      state.lengths.get? "v" = some 2 ∧ env.vector? "v" = some items ∧ items.length = 2 := by
  have hok : (CompiledScript.readTokens shadowing Config.standard.strictLexing >>= fun lexed =>
      parse lexed.tokens >>= fun p => aroundRule p.1 >>= fun parts =>
      if lengthsBehind [] [parts.1] = [("v", 2)] then execute [parts.1] .empty
      else .error (.config (.invalid ""))).isOk = true := by decide +kernel
  obtain ⟨env, hok⟩ := exists_of_isOk hok
  obtain ⟨lexed, hlexed, hok⟩ := bind_eq_ok.1 hok
  obtain ⟨⟨program, warnings⟩, hparse, hok⟩ := bind_eq_ok.1 hok
  obtain ⟨⟨a, r, b⟩, hparts, hrun⟩ := bind_eq_ok.1 hok
  obtain rfl : program = [.assign a, .rule r] ++ [.assign b] := eq_of_aroundRule hparts
  split at hrun
  next hlengths =>
    have henv : execute (assignments [.assign a, .rule r]) .empty = .ok env := hrun
    obtain ⟨⟨state, rest, hread⟩, hvectors⟩ := vector?_of_read hparse henv
    have hv : state.lengths.get? "v" = some 2 := by
      rw [hread.checkedAll.2]
      exact congrArg (Bindings.get? · "v") hlengths
    obtain ⟨items, hitems, hlength⟩ := hvectors state rest hread "v" 2 hv
    exact ⟨lexed, warnings, a, r, b, env, state, rest, items, hlexed, hparse, henv, hread, hv,
      hitems, hlength⟩
  next => cases hrun

end Program

/-! ## Rules over the global variables -/

namespace Program

variable {before behind : Program} {r : Rule}

/-- The assignments of a program are those before a rule and those behind it. -/
theorem assignments_around :
    assignments (before ++ .rule r :: behind) = assignments before ++ assignments behind := by
  unfold assignments
  rw [List.filterMap_append, List.filterMap_cons_none rfl]

/-- The parser comes to each rule of a program, and reads it with the lengths that it knows then. -/
theorem exists_read_rule {ts : List Token} {warnings : Diagnostics}
    (h : parse ts = .ok (before ++ .rule r :: behind, warnings)) :
    ∃ state us next after, Read (endLocation ts) {} ts before state us ∧
      Yields (Statement.parse (endLocation ts) state us) (.rule r, next) after ∧
      r.ReadIn ⟨state.lengths, endLocation ts⟩ := by
  obtain ⟨final, hread⟩ := read_of_parse h
  obtain ⟨state, us, hbefore, hrest⟩ := read_append.1 hread
  obtain ⟨next, after, hrule, -⟩ := read_cons.1 hrest
  rcases Statement.cases_of_yields_parse hrule with ⟨_, heq, -⟩ | ⟨_, heq, -⟩ | ⟨_, heq, -, hin⟩
  · cases heq
  · cases heq
  · cases heq
    exact ⟨state, us, next, after, hbefore, hrule, hin⟩

/-- A rule that stands in a program is one of its rules. -/
theorem mem_rules_around : r ∈ rules (before ++ .rule r :: behind) :=
  List.mem_filterMap.2 ⟨.rule r, List.mem_append_right _ List.mem_cons_self, rfl⟩

end Program

namespace CompiledScript

variable {source : String} {registry : Registry} {config : Config} {s : CompiledScript}
  {lexed : Lexed} {program before behind : Program} {warnings : Diagnostics} {r : Rule}

/-- The global variables track the lengths that the parser knows at the end of the script. -/
theorem tracks_globals (hlexed : readTokens source config.strictLexing = .ok lexed)
    (hparse : Program.parse lexed.tokens = .ok (program, warnings))
    (hs : compile source registry config = .ok s) :
    s.globals.Tracks (lengthsBehind [] program.assignments) := by
  obtain ⟨final, hread⟩ := Program.read_of_parse hparse
  rw [compile_of_parse hlexed hparse] at hs
  obtain ⟨hglobals, -⟩ := of_ofProgram_eq_ok hs
  exact tracks_of_execute hread.checkedAll.1 Environment.tracks_empty hglobals

/-- Where the parser reads a rule, it knows lengths of vectors that the rule finds bound when it
runs. Each has as many items as was known, if the vector is not assigned again behind the rule, or
if what the parser knows of it at the end of the script is the same length. -/
theorem vectors_of_rule (hlexed : readTokens source config.strictLexing = .ok lexed)
    (hparse : Program.parse lexed.tokens = .ok (before ++ .rule r :: behind, warnings))
    (hs : compile source registry config = .ok s) :
    ∃ state ts next after,
      Program.Read (endLocation lexed.tokens) {} lexed.tokens before state ts ∧
      Yields (Statement.parse (endLocation lexed.tokens) state ts) (.rule r, next) after ∧
      r.ReadIn ⟨state.lengths, endLocation lexed.tokens⟩ ∧
      (∃ e ∈ s.mapper.entries, entry registry s.globals r = .ok e) ∧
      ∀ name n, state.lengths.get? name = some n →
        ∃ items, s.globals.vector? name = some items ∧
          ((∀ a ∈ behind.assignments, a.target ≠ .vector name) ∨
            (lengthsBehind [] (Program.assignments (before ++ .rule r :: behind))).get? name =
              some n → items.length = n) := by
  obtain ⟨state, ts, next, after, hbefore, hrule, hin⟩ := Program.exists_read_rule hparse
  have htracks := tracks_globals hlexed hparse hs
  rw [compile_of_parse hlexed hparse] at hs
  obtain ⟨hglobals, hentries⟩ := of_ofProgram_eq_ok hs
  refine ⟨state, ts, next, after, hbefore, hrule, hin,
    exists_mem_of_mapM hentries Program.mem_rules_around, fun name n hn => ?_⟩
  -- the variables in front of the rule track what is known there, and those behind it run on
  rw [Program.assignments_around, execute_append] at hglobals
  obtain ⟨env, henv, hbehind⟩ := bind_eq_ok.1 hglobals
  have hknown : env.Tracks state.lengths := Program.tracks_of_read hbefore henv
  obtain ⟨items, hitems⟩ := Option.isSome_iff_exists.1
    (isSome_vector?_of_execute hbehind (hknown.bound name n hn))
  refine ⟨items, hitems, ?_⟩
  rintro (hunassigned | hsame)
  · refine hknown.vector name n items hn ?_
    rw [← vector?_of_execute hbehind hunassigned, hitems]
  · exact htracks.vector name n items hsame hitems

/-- A script that assigns two vectors again behind the rule that is read with their lengths: one of
them becomes longer, the other keeps its length. -/
def lengthening : String :=
  "$$v = [1, 2]; $$w = [1]; on pixels having ($$v + [1, 2])[0] > 0 do $r = 1; end; " ++
    "$$v = [1, 2, 3]; $$w = [4];"

/-- The two assignments, the rule and the two assignments that a program is made of. -/
def aroundThird :
    Program → Except Fault (Assignment × Assignment × Rule × Assignment × Assignment)
  | [.assign a, .assign b, .rule r, .assign c, .assign d] => .ok (a, b, r, c, d)
  | _ => .error (.config (.invalid ""))

/-- A program whose parts around its third statement are known is made of these. -/
theorem eq_of_aroundThird {p : Program} {a b c d : Assignment} {r : Rule}
    (h : aroundThird p = .ok (a, b, r, c, d)) :
    p = [.assign a, .assign b] ++ .rule r :: [.assign c, .assign d] := by
  unfold aroundThird at h
  split at h <;> cases h
  rfl

/-- In front of the rule `$$v` has two items and `$$w` one, and at the end `$$v` has three. -/
theorem parts_of_lengthening :
    ∃ lexed warnings a b r c d s,
      readTokens lengthening Config.standard.strictLexing = .ok lexed ∧
      Program.parse lexed.tokens =
        .ok ([.assign a, .assign b] ++ .rule r :: [.assign c, .assign d], warnings) ∧
      compile lengthening .standard = .ok s ∧
      lengthsBehind [] [a, b] = [("w", 1), ("v", 2)] ∧
      lengthsBehind [] [a, b, c, d] = [("w", 1), ("v", 3)] := by
  have hok : (readTokens lengthening Config.standard.strictLexing >>= fun lexed =>
      Program.parse lexed.tokens >>= fun p => aroundThird p.1 >>= fun parts =>
      if lengthsBehind [] [parts.1, parts.2.1] = [("w", 1), ("v", 2)] ∧
          lengthsBehind [] [parts.1, parts.2.1, parts.2.2.2.1, parts.2.2.2.2] =
            [("w", 1), ("v", 3)] then
        ofProgram p.1 (lexed.diagnostics ++ p.2) .standard .standard
      else .error (.config (.invalid ""))).isOk = true := by decide +kernel
  obtain ⟨s, hok⟩ := exists_of_isOk hok
  obtain ⟨lexed, hlexed, hok⟩ := bind_eq_ok.1 hok
  obtain ⟨⟨program, warnings⟩, hparse, hok⟩ := bind_eq_ok.1 hok
  obtain ⟨⟨a, b, r, c, d⟩, hparts, hrun⟩ := bind_eq_ok.1 hok
  obtain rfl : program = [.assign a, .assign b] ++ .rule r :: [.assign c, .assign d] :=
    eq_of_aroundThird hparts
  split at hrun
  next hlengths =>
    have hs : compile lengthening .standard = .ok s := by rw [compile_of_parse hlexed hparse, hrun]
    exact ⟨lexed, warnings, a, b, r, c, d, s, hlexed, hparse, hs, hlengths⟩
  next => cases hrun

/-- The rule finds `$$w` with the one item that was known where it was read, although the vector is
assigned again behind it. -/
theorem vectors_of_rule_lengthening :
    ∃ s items, compile lengthening .standard = .ok s ∧ s.globals.vector? "w" = some items ∧
      items.length = 1 := by
  obtain ⟨lexed, warnings, a, b, r, c, d, s, hlexed, hparse, hs, hknown, hfinal⟩ :=
    parts_of_lengthening
  obtain ⟨state, _, _, _, hread, -, -, -, hvectors⟩ := vectors_of_rule hlexed hparse hs
  have hlengths : state.lengths = [("w", 1), ("v", 2)] := hread.checkedAll.2.trans hknown
  obtain ⟨items, hitems, hlength⟩ := hvectors "w" 1 (hlengths ▸ rfl)
  have hsame : (lengthsBehind [] [a, b, c, d]).get? "w" = some 1 := hfinal ▸ rfl
  exact ⟨s, items, hs, hitems, hlength (.inr hsame)⟩

/-- The rule is read with two items for `$$v`, but finds three when it runs, and fails on them. -/
theorem longer_vector_of_lengthening :
    ∃ lexed warnings s before r behind state ts next after items fault,
      readTokens lengthening Config.standard.strictLexing = .ok lexed ∧
      Program.parse lexed.tokens = .ok (before ++ .rule r :: behind, warnings) ∧
      compile lengthening .standard = .ok s ∧
      Program.Read (endLocation lexed.tokens) {} lexed.tokens before state ts ∧
      Yields (Statement.parse (endLocation lexed.tokens) state ts) (.rule r, next) after ∧
      r.ReadIn ⟨state.lengths, endLocation lexed.tokens⟩ ∧
      state.lengths.get? "v" = some 2 ∧
      s.globals.vector? "v" = some items ∧ items.length = 3 ∧
      s.run ⟨1, 1, 3, [[0, 0, 0]]⟩ true = .error fault ∧
      fault.message = "Shape error: Cannot apply '+' to vectors of length 3 and 2" := by
  obtain ⟨lexed, warnings, a, b, r, c, d, s, hlexed, hparse, hs, hknown, hfinal⟩ :=
    parts_of_lengthening
  have hmessage : (match compile lengthening .standard >>= fun s =>
        s.run ⟨1, 1, 3, [[0, 0, 0]]⟩ true with
      | .ok _ => ""
      | .error fault => fault.message) =
        "Shape error: Cannot apply '+' to vectors of length 3 and 2" := by decide +kernel
  obtain ⟨state, ts, next, after, hread, hrule, hin⟩ :=
    Program.exists_read_rule hparse
  have hlengths : state.lengths = [("w", 1), ("v", 2)] := hread.checkedAll.2.trans hknown
  have htracks : s.globals.Tracks [("w", 1), ("v", 3)] := hfinal ▸ tracks_globals hlexed hparse hs
  obtain ⟨items, hitems⟩ := Option.isSome_iff_exists.1 (htracks.bound "v" 3 rfl)
  rw [hs, ok_bind] at hmessage
  split at hmessage
  next => exact absurd hmessage (by decide)
  next fault hrun =>
    exact ⟨lexed, warnings, s, [.assign a, .assign b], r, [.assign c, .assign d], state, ts, next,
      after, items, fault, hlexed, hparse, hs, hread, hrule, hin, hlengths ▸ rfl, hitems,
      htracks.vector "v" 3 items rfl hitems, hrun, hmessage⟩

end CompiledScript

end Recolor
