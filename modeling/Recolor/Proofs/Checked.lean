import Recolor.CompiledScript
import Recolor.Proofs.ParserSound
import Recolor.Proofs.StatementReading
import Recolor.Proofs.StaticShape

/-!
# What the parser has checked

Assignments that are read are `Checked` against the lengths that are known where they stand: all
nodes of the right side pass the checks of shapes, it is no slice, and its shape fits the variable.
So the variable takes the value of the right side (`Checked.exists_assign`), and no checked
assignment binds a vector or a slice to `$name` (`agrees_nil_of_run`).

Whether an expression is a vector does not depend on the lengths that are known
(`isVector_shape`). So an assignment that was checked with other lengths than those of the variables
that it meets still binds values of the right kind.
-/

set_option autoImplicit false

namespace Recolor

/-! ## Expressions -/

/-- Only positions in brackets are slices. -/
theorem Derives.isSlice_eq_false {l : Nonterminal} {ts : List TokenKind} {e : Expr}
    (h : Derives l ts e) (hl : l ≠ .position) : e.isSlice = false := by
  induction h with
  | lower hm _ ih => exact ih (Nonterminal.ne_position_of_below? hm)
  | literal h =>
    unfold TokenKind.literal? at h
    split at h <;> cases h <;> rfl
  | parenthesised _ ih => exact ih (by decide)
  | place _ _ => exact absurd rfl hl
  | slice _ _ _ _ _ _ => exact absurd rfl hl
  | steppedSlice _ _ _ _ _ _ _ _ _ => exact absurd rfl hl
  | _ => rfl

namespace Expr

variable {env : Environment} {lengths : Lengths} {v : Value}

/-- Whether an expression is a vector does not depend on the lengths that are known. -/
theorem isVector_shape (lengths known : Lengths) (e : Expr) :
    (e.shape lengths).isVector = (e.shape known).isVector := by
  induction e with
  | var x => cases x <;> rfl
  | binary op left right ihl ihr =>
    cases op with
    | arithmetic op =>
      rw [shape_arithmetic, shape_arithmetic, ← ihl]
      cases hl : (left.shape lengths).isVector with
      | true => simp [hl, ← ihl]
      | false => simp [ihr]
    | _ => rfl
  | unary op operand ih => simpa only [shape] using ih
  | saturated inner ih => simpa only [shape] using ih
  | index vector position _ _ => simp only [shape]
  | _ => rfl

/-- A value is a vector if the expression was taken for one, whatever lengths were known then. -/
theorem isVector_of_evaluate (henv : env.Agrees []) {e : Expr} (h : e.evaluate env = .ok v) :
    v.isVector = (e.shape lengths).isVector := by
  rw [isVector_shape lengths [], Value.isVector_eq]
  have hadmits := admits_of_evaluate henv h
  cases hs : e.shape [] with
  | plain =>
    rw [hs] at hadmits
    have hnone : v.vectorLength? = Option.none := hadmits
    rw [hnone]
    rfl
  | vector n =>
    rw [hs] at hadmits
    cases n with
    | none => exact hadmits
    | some n =>
      have hsome : v.vectorLength? = some n := hadmits
      rw [hsome]
      rfl

/-- What is read as an expression passes all checks, and is no slice. -/
theorem wellShaped_of_yields {scope : Scope} {ts rest : List Token} {e : Expr}
    (h : Yields (parse scope ts) e rest) : e.WellShaped scope.lengths ∧ e.isSlice = false := by
  obtain ⟨_, -, hderives, hshaped⟩ := sound_parse h
  exact ⟨hshaped, hderives.isSlice_eq_false (by decide)⟩

end Expr

/-! ## Assignments -/

/-- The variable holds vectors. -/
def Variable.isVector : Variable → Bool
  | .scalar _ => false
  | .vector _ => true

/-- The values of vector shape are the vectors. -/
theorem Value.isVector_eq_true {v : Value} : v.isVector = true ↔ ∃ items, v = .vector items := by
  cases v <;> simp [isVector]

namespace Environment

variable {env : Environment}

/-- Whatever is no vector can be assigned to `$name`. -/
theorem assign_scalar {name : String} {v : Value} (h : v.isVector = false) :
    env.assign (.scalar name) v = .ok (env.bind name v) := by
  cases v with
  | vector items => cases h
  | _ => rfl

end Environment

namespace Assignment

variable {env next : Environment} {lengths : Lengths} {a : Assignment}

/-- The lengths that are known behind the assignment. -/
def after (lengths : Lengths) (a : Assignment) : Lengths :=
  lengthsAfter lengths a.target (a.value.shape lengths)

/-- The assignment passes the checks of the parser. -/
structure Checked (lengths : Lengths) (a : Assignment) : Prop where
  wellShaped : a.value.WellShaped lengths
  isSlice : a.value.isSlice = false
  target : checkTarget a.target (a.value.shape lengths) = .ok ()

/-- An assignment that is read has been checked with the lengths in scope, and hands on the lengths
behind it. -/
theorem checked_of_yields {scope : Scope} {inBlock : Bool} {ts final : List Token}
    (h : Yields (parse scope inBlock ts) (a, lengths) final) :
    a.Checked scope.lengths ∧ lengths = a.after scope.lengths := by
  obtain ⟨_, _, _, op?, operand, _, -, -, -, -, hread, -, hvalue, htarget, rfl⟩ := yields_parse.1 h
  obtain ⟨hshaped, hslice⟩ := Expr.wellShaped_of_yields hread
  refine ⟨?_, rfl⟩
  cases op? with
  | none =>
    obtain rfl : operand = a.value := Except.ok.inj hvalue
    exact ⟨hshaped, hslice, htarget⟩
  | some op =>
    obtain ⟨_, hop, hbinary⟩ := bind_eq_ok.1 hvalue
    have heq : Expr.binary (.arithmetic op) (.variable a.target) operand = a.value :=
      Except.ok.inj hbinary
    refine ⟨heq ▸ .binary (.variable _) hshaped hop, heq ▸ rfl, htarget⟩

/-- A value can be assigned if it is a vector exactly when the variable is one. -/
theorem checkTarget_eq_ok {x : Variable} {shape : Shape} :
    checkTarget x shape = .ok () ↔ shape.isVector = x.isVector := by
  cases x <;> cases shape <;> simp [checkTarget, Variable.isVector, Shape.isVector]

/-- The shape of the right side fits the variable. -/
theorem Checked.isVector_shape (h : a.Checked lengths) :
    (a.value.shape lengths).isVector = a.target.isVector :=
  checkTarget_eq_ok.1 h.target

/-- The variable takes the value of the right side. The lengths that the assignment was checked with
need not be those of the variables that it sees. -/
theorem Checked.exists_assign {v : Value} (ha : a.Checked lengths) (henv : env.Agrees [])
    (hv : a.value.evaluate env = .ok v) : ∃ next, env.assign a.target v = .ok next := by
  have hvector : v.isVector = a.target.isVector := by
    rw [Expr.isVector_of_evaluate henv hv, ha.isVector_shape]
  cases htarget : a.target with
  | scalar name =>
    rw [htarget] at hvector
    exact ⟨_, Environment.assign_scalar hvector⟩
  | vector name =>
    rw [htarget] at hvector
    obtain ⟨items, rfl⟩ := Value.isVector_eq_true.1 hvector
    exact ⟨_, rfl⟩

/-- No checked assignment binds a vector or a slice to `$name`. -/
theorem agrees_nil_of_run (ha : a.Checked lengths) (henv : env.Agrees [])
    (h : a.run env = .ok next) : next.Agrees [] := by
  rcases cases_of_run h with ⟨name, items, -, -, rfl⟩ | ⟨name, v, -, hv, hvector, rfl⟩
  · exact henv.bindVector (fun n hn => by cases hn) (fun _ _ => rfl)
  · exact henv.bind ⟨hvector, (Expr.isSlice_of_evaluate henv hv).trans ha.isSlice⟩

end Assignment

/-- Each assignment passes the checks with the lengths that are known behind those before it. -/
def CheckedAll : Lengths → List Assignment → Prop
  | _, [] => True
  | lengths, a :: rest => a.Checked lengths ∧ CheckedAll (a.after lengths) rest

/-- The lengths that are known behind assignments. -/
def lengthsBehind (lengths : Lengths) (statements : List Assignment) : Lengths :=
  statements.foldl Assignment.after lengths

section Run

variable {env final : Environment} {lengths : Lengths} {statements : List Assignment}

/-- No run of checked assignments binds a vector or a slice to `$name`. -/
theorem agrees_nil_of_execute (hstatements : CheckedAll lengths statements) (henv : env.Agrees [])
    (h : execute statements env = .ok final) : final.Agrees [] := by
  induction statements generalizing env lengths with
  | nil =>
    cases h
    exact henv
  | cons a rest ih =>
    obtain ⟨next, hnext, hrest⟩ := bind_eq_ok.1 h
    exact ih hstatements.2 (Assignment.agrees_nil_of_run hstatements.1 henv hnext) hrest

end Run

/-! ## Rules and programs -/

namespace Rule

variable {scope : Scope}

/-- The predicate and all blocks of the rule pass the checks of the parser. -/
structure Checked (lengths : Lengths) (r : Rule) : Prop where
  predicate : r.predicate.WellShaped lengths
  blocks : ∀ block ∈ r.blocks, CheckedAll lengths block.statements

/-- Statements that are read have each been checked with the lengths that those before it leave. -/
theorem checkedAll_of_yields {ts final : List Token} {statements : List Assignment}
    (h : Yields (assignments scope ts) statements final) :
    CheckedAll scope.lengths statements := by
  induction statements generalizing scope ts with
  | nil => exact trivial
  | cons a rest ih =>
    rcases yields_assignments.1 h with ⟨-, hnil, -⟩ | ⟨-, a', lengths, _, _, ha, hmore, heq⟩
    · cases hnil
    · cases heq
      obtain ⟨hchecked, rfl⟩ := Assignment.checked_of_yields ha
      exact ⟨hchecked, ih hmore⟩

/-- A rule that is read with some lengths in scope is checked with them. -/
theorem ReadIn.checked {r : Rule} (h : r.ReadIn scope) : r.Checked scope.lengths where
  predicate := by
    obtain ⟨_, _, hread⟩ := h.predicate
    exact (Expr.wellShaped_of_yields hread).1
  blocks block hblock := by
    obtain ⟨_, _, hread⟩ := h.blocks block hblock
    exact checkedAll_of_yields hread

end Rule

namespace Program

variable {finish : Location} {s final : ReadState} {ts rest : List Token} {p : Program}

/-- The global assignments of a program that is read pass the checks, and the parser knows the
lengths that they leave behind. -/
theorem Read.checkedAll (h : Read finish s ts p final rest) :
    CheckedAll s.lengths p.assignments ∧
      final.lengths = lengthsBehind s.lengths p.assignments := by
  induction h with
  | nil => exact ⟨trivial, rfl⟩
  | cons hstatement _ ih =>
    rcases Statement.cases_of_yields_parse hstatement with
      ⟨a, rfl, ha⟩ | ⟨policy, rfl, hlengths⟩ | ⟨r, rfl, rfl, -⟩
    · obtain ⟨hchecked, hlengths⟩ := Assignment.checked_of_yields ha
      rw [hlengths] at ih
      exact ⟨⟨hchecked, ih.1⟩, ih.2⟩
    · rw [hlengths] at ih
      exact ih
    · exact ih

/-- Each rule of a program that is read passes the checks with the lengths that are known where it
stands. -/
theorem Read.checked_of_mem_rules (h : Read finish s ts p final rest) {r : Rule}
    (hr : r ∈ p.rules) : ∃ lengths, r.Checked lengths := by
  induction h with
  | nil => cases hr
  | @cons s _ _ _ _ _ statement _ hstatement _ ih =>
    rcases Statement.cases_of_yields_parse hstatement with
      ⟨a, rfl, -⟩ | ⟨policy, rfl, -⟩ | ⟨r', rfl, rfl, hread⟩
    · exact ih hr
    · exact ih hr
    · rcases List.mem_cons.1 (show r ∈ r' :: rules _ from hr) with rfl | hr
      · exact ⟨_, hread.checked⟩
      · exact ih hr

end Program

/-! ## Compiled scripts -/

namespace CompiledScript

variable {source : String} {registry : Registry} {config : Config} {s : CompiledScript}
  {lexed : Lexed} {program : Program} {warnings : Diagnostics}

/-- A script whose tokens and statements are read is compiled from these. -/
theorem compile_of_parse (hlexed : readTokens source config.strictLexing = .ok lexed)
    (hparse : Program.parse lexed.tokens = .ok (program, warnings)) :
    compile source registry config =
      ofProgram program (lexed.diagnostics ++ warnings) registry config := by
  unfold compile
  rw [hlexed, ok_bind, hparse, ok_bind]

/-- The global variables of a script are those that its assignments leave behind, and its entries
are those of its rules over them. -/
theorem of_ofProgram_eq_ok {diagnostics : Diagnostics}
    (h : ofProgram program diagnostics registry config = .ok s) :
    execute program.assignments .empty = .ok s.globals ∧
      program.rules.mapM (entry registry s.globals) = .ok s.mapper.entries := by
  obtain ⟨globals, hglobals, h⟩ := bind_eq_ok.1 h
  obtain ⟨entries, hentries, h⟩ := bind_eq_ok.1 h
  cases h
  exact ⟨hglobals, hentries⟩

/-- A compiled script is that of some program. -/
theorem of_compile_eq_ok (h : compile source registry config = .ok s) :
    ∃ program : Program, execute program.assignments .empty = .ok s.globals ∧
      program.rules.mapM (entry registry s.globals) = .ok s.mapper.entries := by
  obtain ⟨lexed, -, h⟩ := bind_eq_ok.1 h
  obtain ⟨⟨program, warnings⟩, -, h⟩ := bind_eq_ok.1 h
  exact ⟨program, of_ofProgram_eq_ok h⟩

/-- The action of a block runs its statements over the global variables, in the space that the
registry has for it. -/
theorem of_action_eq_ok {globals : Environment} {block : ActionBlock} {a : Action}
    (h : action registry globals block = .ok a) :
    a.transform = .compiled block.statements globals ∧
      registry.resolve block.space = .ok a.space := by
  obtain ⟨space, hspace, h⟩ := bind_eq_ok.1 h
  cases h
  exact ⟨rfl, hspace⟩

/-- The entry of a rule evaluates its predicate over the global variables, in the space that the
registry has for it, and its actions are those of blocks of the rule. -/
theorem of_entry_eq_ok {globals : Environment} {r : Rule} {e : Entry}
    (h : entry registry globals r = .ok e) :
    e.masker.predicate = .compiled r.predicate globals ∧
      registry.resolve r.space = .ok e.masker.space ∧
      ∀ a ∈ e.actions, ∃ block ∈ r.blocks, a.transform = .compiled block.statements globals ∧
        registry.resolve block.space = .ok a.space := by
  obtain ⟨space, hspace, h⟩ := bind_eq_ok.1 h
  obtain ⟨actions, hactions, h⟩ := bind_eq_ok.1 h
  cases h
  refine ⟨rfl, hspace, fun a ha => ?_⟩
  obtain ⟨block, hmem, hblock⟩ := exists_of_mem_mapM hactions ha
  exact ⟨block, hmem, of_action_eq_ok hblock⟩

end CompiledScript

end Recolor
