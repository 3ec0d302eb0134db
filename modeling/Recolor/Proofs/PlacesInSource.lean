import Recolor.CompiledScript
import Recolor.Proofs.Evaluation
import Recolor.Proofs.FaultPlaces
import Recolor.Proofs.OperatorFaults
import Recolor.Proofs.Pieces
import Recolor.Proofs.Strictness

/-!
# Faults point into the script

A fault of a script with a place has the line and the column of some byte offset of the script. The
items of the lexer do (`inScript_of_mem_scriptItems`), with the tokens and the remarks among them;
the parser points at tokens; and once a program is read, its faults have no place any more
(`CompiledScript.not_located_ofProgram`).

There is one exception. A predicate that stands alone and is nothing but blanks has no token whose
end could be pointed at, so that its fault points nowhere: at line 0 (`Masker.ofSource_of_blank`).
-/

set_option autoImplicit false

namespace Recolor

/-! ## Places of a script -/

/-- The location is that of some byte offset of the script. -/
def Location.InScript (source : String) (l : Location) : Prop :=
  ∃ offset ≤ Text.byteLength source.toList, l = (LineIndex.ofString source).location offset

namespace Location

variable {source : String} {l : Location}

/-- An offset past the end counts as the end, so that each offset has its place in the script. -/
theorem inScript_location (source : String) (offset : Nat) :
    ((LineIndex.ofString source).location offset).InScript source := by
  refine ⟨min offset (Text.byteLength source.toList), Nat.min_le_right _ _, ?_⟩
  have htext : (LineIndex.ofString source).text = source.toList := rfl
  simp only [LineIndex.location, htext, Nat.min_assoc, Nat.min_self]

/-- Lines and columns are counted from 1. -/
theorem InScript.one_le (h : l.InScript source) : 1 ≤ l.line ∧ 1 ≤ l.column := by
  obtain ⟨offset, -, rfl⟩ := h
  constructor
  · simp [LineIndex.location, LineIndex.ofString, LineIndex.ofText]
  · exact Nat.le_add_left 1 _

/-- The place of what has none is not one of a script, since lines are counted from one. -/
theorem not_inScript_nowhere (source : String) : ¬nowhere.InScript source := by
  intro h
  have hline := h.one_le.1
  cases hline

end Location

/-! ## Items -/

section Items

variable {source : String} {offset : Nat} {text : List Char} {items : List ScriptItem}
  {i : ScriptItem}

/-- The pieces that a script is cut into stand in it. -/
theorem Cut.inScript (h : Cut (LineIndex.ofString source) offset text items) (hi : i ∈ items) :
    i.span.start.InScript source ∧ i.span.stop.InScript source := by
  induction h with
  | blank hgap => cases hi
  | item hgap hhead hmade hrest ih =>
    rcases List.mem_cons.1 hi with rfl | hi
    · rw [hmade.span_eq]
      exact ⟨Location.inScript_location source _, Location.inScript_location source _⟩
    · exact ih hi

/-- The items of a script stand in it. -/
theorem inScript_of_mem_scriptItems (hi : i ∈ scriptItems source) :
    i.span.start.InScript source ∧ i.span.stop.InScript source :=
  (cut_scriptItems source).inScript hi

/-- The tokens of a script stand in it. -/
theorem inScript_of_mem_tokens {t : Token} (ht : t ∈ (tokenize source).tokens) :
    t.span.start.InScript source ∧ t.span.stop.InScript source :=
  inScript_of_mem_scriptItems
    ((Lexed.sublist_tokens (scriptItems source)).subset (List.mem_map_of_mem ht))

/-- The diagnostics of a script stand in it. -/
theorem inScript_of_mem_diagnostics {d : Diagnostic} (hd : d ∈ (tokenize source).diagnostics) :
    d.span.start.InScript source :=
  (inScript_of_mem_scriptItems
    ((Lexed.sublist_diagnostics (scriptItems source)).subset (List.mem_map_of_mem hd))).1

/-- The tokens of a script begin in it. -/
theorem begin_tokens (source : String) :
    Begin (Location.InScript source) (tokenize source).tokens := fun _ ht =>
  (inScript_of_mem_tokens ht).1

/-- A script with a token ends in itself. -/
theorem inScript_endLocation (h : (tokenize source).tokens ≠ []) :
    (endLocation (tokenize source).tokens).InScript source := by
  unfold endLocation
  split
  next t ht => exact (inScript_of_mem_tokens (List.mem_of_getLast? ht)).2
  next hnone => exact absurd (List.getLast?_eq_none_iff.1 hnone) h

/-- A text has no items exactly if it is nothing but blanks. -/
theorem Cut.eq_nil_iff {lines : LineIndex} (h : Cut lines offset text items) :
    items = [] ↔ ∀ c ∈ text, isBlank c = true := by
  cases h with
  | blank hgap => exact ⟨fun _ => hgap, fun _ => rfl⟩
  | @item _ gap piece rest i items hgap hhead hmade hrest =>
    constructor
    · intro hnil
      cases hnil
    · intro hblank
      -- the item would begin with a character that is not blank
      obtain ⟨c, more, rfl⟩ := List.exists_cons_of_ne_nil hmade.ne_nil
      have hc : isBlank c = true := hblank c (by simp)
      have hc' : isBlank c = false := hhead c rfl
      rw [hc] at hc'
      cases hc'

/-- Strict reading answers the tokens of the text, or the first of its lexical faults. -/
theorem tokenizeStrict_eq (source : String) :
    tokenizeStrict source =
      match (tokenize source).diagnostics with
      | [] => .ok (tokenize source).tokens
      | d :: _ => .error d.fault :=
  strictTokens_eq _

/-- Only blanks are neither tokens nor remarked on. -/
theorem tokens_eq_nil_iff (h : (tokenize source).diagnostics = []) :
    (tokenize source).tokens = [] ↔ ∀ c ∈ source.toList, isBlank c = true := by
  rw [← (cut_scriptItems source).eq_nil_iff]
  have hperm := Lexed.perm_ofItems (scriptItems source)
  rw [← tokenize, h, List.map_nil, List.append_nil] at hperm
  constructor
  · intro hnil
    rw [hnil] at hperm
    exact hperm.symm.eq_nil
  · intro hnil
    rw [hnil] at hperm
    exact List.map_eq_nil_iff.1 hperm.eq_nil

/-- A script that has to be free of remarks fails at the first of them. -/
theorem pointsTo_of_tokenizeStrict {e : Fault} (h : tokenizeStrict source = .error e) :
    e.PointsTo (Location.InScript source) := by
  rw [tokenizeStrict_eq] at h
  split at h
  · cases h
  next d more hd =>
    cases h
    rintro _ ⟨⟩
    exact inScript_of_mem_diagnostics (hd ▸ List.mem_cons_self)

/-- Strict reading succeeds on texts without lexical faults only, and answers all tokens. -/
theorem of_tokenizeStrict_eq_ok {ts : List Token} (h : tokenizeStrict source = .ok ts) :
    (tokenize source).diagnostics = [] ∧ ts = (tokenize source).tokens := by
  rw [tokenizeStrict_eq] at h
  split at h
  next hnone =>
    cases h
    exact ⟨hnone, rfl⟩
  · cases h

end Items

/-! ## Faults without a place -/

/-- What operators fail with has no place in a script. -/
theorem Ordinary.not_located {α : Type} {x : Except Fault α} (hx : Ordinary x) :
    Avoids Fault.Located x :=
  hx.mono fun e he => by
    cases e with
    | lexical | grammar => trivial
    | _ => cases he

/-- Evaluation has no places. -/
theorem Expr.not_located_evaluate (env : Environment) (e : Expr) :
    Avoids Fault.Located (e.evaluate env) := by
  have hbound : ∀ bound : Option Expr, (∀ e ∈ bound, Avoids Fault.Located (e.evaluate env)) →
      Avoids Fault.Located (evaluateBound env bound) := by
    intro bound h
    cases bound with
    | none => exact avoids_ok _
    | some e => exact (h e rfl).bind fun a _ => (Value.ordinary_sliceBound a).not_located
  have hitems : ∀ items : List Expr, (∀ e ∈ items, Avoids Fault.Located (e.evaluate env)) →
      Avoids Fault.Located (evaluateItems env items) := by
    intro items h
    induction items with
    | nil => exact avoids_ok _
    | cons e rest ih =>
      rw [evaluateItems]
      refine (h e List.mem_cons_self).bind fun a _ => ?_
      refine (Value.ordinary_requireNumber _ a).not_located.bind fun x _ => ?_
      exact (ih fun b hb => h b (List.mem_cons_of_mem e hb)).bind fun _ _ => avoids_ok _
  induction e with
  | number | boolean | none => exact avoids_ok _
  | var v =>
    rw [evaluate]
    split <;> simp [Fault.location?]
  | binary op left right ihl ihr =>
    refine ihl.bind fun a _ => ihr.bind fun b _ => ?_
    exact (Value.ordinary_binary op a b).not_located
  | unary op operand ih => exact ih.bind fun a _ => (Value.ordinary_unary op a).not_located
  | range min max _ _ ihmin ihmax =>
    refine ihmin.bind fun a _ => (Value.ordinary_requireNumber _ a).not_located.bind fun _ _ => ?_
    refine ihmax.bind fun b _ => (Value.ordinary_requireNumber _ b).not_located.bind fun _ _ => ?_
    exact avoids_ok _
  | slice start stop step ihstart ihstop ihstep =>
    refine (hbound start ihstart).bind fun _ _ => (hbound stop ihstop).bind fun _ _ => ?_
    exact (hbound step ihstep).bind fun _ _ => avoids_ok _
  | vector items ih => exact (hitems items ih).bind fun _ _ => avoids_ok _
  | index vector position ihvector ihposition =>
    refine ihvector.bind fun a _ => ?_
    have hindexed : Avoids Fault.Located (Value.indexedItems a) := by
      cases a <;> simp [Value.indexedItems, Fault.location?]
    refine hindexed.bind fun items _ => ihposition.bind fun b _ => ?_
    exact (Value.ordinary_select items b).not_located
  | saturated inner ih => exact ih.bind fun a _ => (Value.ordinary_saturate a).not_located

/-- Running assignments fails without a place in a script. -/
theorem not_located_execute (statements : List Assignment) (env : Environment) :
    Avoids Fault.Located (execute statements env) := by
  induction statements generalizing env with
  | nil => exact avoids_ok _
  | cons a rest ih =>
    refine Avoids.bind ?_ fun next _ => ih next
    refine (Expr.not_located_evaluate env a.value).bind fun v _ => ?_
    unfold Environment.assign
    split <;> simp [Fault.location?]

namespace CompiledScript

/-- A space that is not registered is reported without a place in a script. -/
theorem not_located_resolve (registry : Registry) (key : String) :
    Avoids Fault.Located (registry.resolve key) := by
  unfold Registry.resolve
  split <;> simp [Fault.location?]

/-- Behind the parser no fault has a place. -/
theorem not_located_ofProgram (program : Program) (diagnostics : Diagnostics) (registry : Registry)
    (config : Config) : Avoids Fault.Located (ofProgram program diagnostics registry config) := by
  refine (not_located_execute _ _).bind fun globals _ => ?_
  refine Avoids.bind (avoids_mapM fun rule _ => ?_) fun _ _ => avoids_ok _
  refine (not_located_resolve registry rule.space).bind fun space _ => ?_
  refine Avoids.bind (avoids_mapM fun block _ => ?_) fun _ _ => avoids_ok _
  exact (not_located_resolve registry block.space).bind fun _ _ => avoids_ok _

end CompiledScript

/-! ## Scripts -/

section Scripts

variable {source : String} {e : Fault}

/-- The end of an empty script is no place of it, but there is nothing to be missed at it either. -/
theorem Program.pointsTo_of_parse_tokens {lengths : Lengths}
    (h : parse (tokenize source).tokens lengths = .error e) :
    e.PointsTo (Location.InScript source) := by
  by_cases hnil : (tokenize source).tokens = []
  · rw [hnil, parse, parseFrom] at h
    cases h
  · exact pointsTo_of_parse (inScript_endLocation hnil) (begin_tokens source) h

namespace CompiledScript

variable {registry : Registry} {config : Config}

/-- However lexical faults are dealt with, the tokens that go on to the parser are those of the
text. -/
theorem tokens_of_readTokens {lexed : Lexed} {strict : Bool}
    (h : readTokens source strict = .ok lexed) : lexed.tokens = (tokenize source).tokens := by
  unfold readTokens at h
  split at h
  · obtain ⟨ts, hts, rfl⟩ := map_eq_ok.1 h
    exact (of_tokenizeStrict_eq_ok hts).2
  · cases h
    rfl

/-- A lexical fault that stops the reading points to the script. -/
theorem pointsTo_of_readTokens {strict : Bool} (h : readTokens source strict = .error e) :
    e.PointsTo (Location.InScript source) := by
  unfold readTokens at h
  split at h
  · cases hread : tokenizeStrict source with
    | ok ts =>
      rw [hread] at h
      cases h
    | error fault =>
      rw [hread] at h
      cases h
      exact pointsTo_of_tokenizeStrict hread
  · cases h

/-- Whatever a script does not compile for, a place that goes with it lies in the script. -/
theorem pointsTo_of_compile (h : compile source registry config = .error e) :
    e.PointsTo (Location.InScript source) := by
  rcases bind_eq_error.1 h with hread | ⟨lexed, hread, h⟩
  · exact pointsTo_of_readTokens hread
  · rcases bind_eq_error.1 h with hparse | ⟨⟨program, warnings⟩, -, hprogram⟩
    · rw [tokens_of_readTokens hread] at hparse
      exact Program.pointsTo_of_parse_tokens hparse
    · exact .of_not_located (not_located_ofProgram _ _ _ _ _ hprogram)

end CompiledScript

namespace Masker

variable {space : ColorSpace}

/-- The source of a masker that is not blank is refused with faults that point to it. -/
theorem pointsTo_of_ofSource (hsource : ∃ c ∈ source.toList, isBlank c = false)
    (h : ofSource space source = .error e) : e.PointsTo (Location.InScript source) := by
  rcases bind_eq_error.1 h with hread | ⟨ts, hread, h⟩
  · exact pointsTo_of_tokenizeStrict hread
  · obtain ⟨hnone, rfl⟩ := of_tokenizeStrict_eq_ok hread
    have hne : (tokenize source).tokens ≠ [] := by
      intro hnil
      obtain ⟨c, hc, hblank⟩ := hsource
      rw [(tokens_eq_nil_iff hnone).1 hnil c hc] at hblank
      cases hblank
    rcases bind_eq_error.1 h with hparse | ⟨_, -, hdone⟩
    · exact pointsTo_of_parseExpression (inScript_endLocation hne) (begin_tokens source) hparse
    · cases hdone

/-- A predicate of blanks lacks an expression, and has no place to miss it at. -/
theorem ofSource_of_blank (space : ColorSpace) (h : ∀ c ∈ source.toList, isBlank c = true) :
    ofSource space source = .error (.grammar (.endOfScript .expression) .nowhere) := by
  have hitems : scriptItems source = [] := (cut_scriptItems source).eq_nil_iff.2 h
  have hparse : parseExpression [] = .error (.grammar (.endOfScript .expression) .nowhere) := by
    rw [parseExpression, Expr.parse]
    rfl
  rw [ofSource, tokenizeStrict, hitems, strictTokens, ok_bind, hparse, error_bind]

end Masker

end Scripts

/-- A fault with a place that a script does not compile for has the line and the column, both
counted from 1, of some byte offset of the script, whatever the spaces and the options are. So has
one of a predicate that stands alone, unless it is nothing but blanks: then its fault points
nowhere. -/
theorem faults_pointTo_script (source : String) :
    (∀ registry config e, CompiledScript.compile source registry config = .error e →
      e.PointsTo fun l => l.InScript source ∧ 1 ≤ l.line ∧ 1 ≤ l.column) ∧
    ((∃ c ∈ source.toList, isBlank c = false) →
      ∀ space e, Masker.ofSource space source = .error e →
        e.PointsTo fun l => l.InScript source ∧ 1 ≤ l.line ∧ 1 ≤ l.column) ∧
    ((∀ c ∈ source.toList, isBlank c = true) →
      ∀ space, Masker.ofSource space source =
        .error (.grammar (.endOfScript .expression) .nowhere)) := by
  refine ⟨?_, ?_, ?_⟩
  · intro registry config e h l hl
    have hplace := CompiledScript.pointsTo_of_compile h l hl
    exact ⟨hplace, hplace.one_le⟩
  · intro hsource space e h l hl
    have hplace := Masker.pointsTo_of_ofSource hsource h l hl
    exact ⟨hplace, hplace.one_le⟩
  · intro hblank space
    exact Masker.ofSource_of_blank space hblank

/-- A script that ends early, predicates that do and do not, and one of blanks. -/
theorem faults_pointTo_script_unfinished :
    (∃ e, CompiledScript.compile "alpha\nallow" .standard = .error e ∧
      e.location? = some ⟨11, 2, 6⟩ ∧ Location.InScript "alpha\nallow" ⟨11, 2, 6⟩) ∧
    (∃ e, Masker.ofSource .rgb "$r > )" = .error e ∧ e.location? = some ⟨5, 1, 6⟩ ∧
      Location.InScript "$r > )" ⟨5, 1, 6⟩) ∧
    ∃ e, Masker.ofSource .rgb " \n" = .error e ∧ e.location? = some .nowhere := by
  have hcompile : (match CompiledScript.compile "alpha\nallow" .standard with
      | .error e => e.location? == some ⟨11, 2, 6⟩
      | .ok _ => false) = true := by decide +kernel
  have hpredicate : (match Masker.ofSource .rgb "$r > )" with
      | .error e => e.location? == some ⟨5, 1, 6⟩
      | .ok _ => false) = true := by decide +kernel
  refine ⟨?_, ?_, ?_⟩
  · split at hcompile
    next e he =>
      have hplace := eq_of_beq hcompile
      exact ⟨e, he, hplace, ((faults_pointTo_script _).1 _ _ e he _ hplace).1⟩
    next => cases hcompile
  · split at hpredicate
    next e he =>
      have hplace := eq_of_beq hpredicate
      exact ⟨e, he, hplace,
        ((faults_pointTo_script _).2.1 ⟨'$', by decide, by decide⟩ _ e he _ hplace).1⟩
    next => cases hpredicate
  · exact ⟨_, (faults_pointTo_script _).2.2 (List.all_eq_true.1 rfl) _, rfl⟩

/-- The fault of an empty predicate points at line 0, which no script has. -/
theorem nowhere_of_empty :
    ∃ e, Masker.ofSource .rgb "" = .error e ∧ e.location? = some .nowhere ∧
      ¬Location.nowhere.InScript "" ∧ Location.nowhere.line = 0 ∧ Location.nowhere.column = 0 :=
  ⟨_, Masker.ofSource_of_blank _ (List.all_eq_true.1 rfl), rfl, Location.not_inScript_nowhere _,
    rfl, rfl⟩

end Recolor
