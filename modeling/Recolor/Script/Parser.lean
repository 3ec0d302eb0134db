import Recolor.Expr.Parser
import Recolor.Script.Diagnostic
import Recolor.Script.Program

/-!
# Reading programs

The grammar of statements:

* an assignment is `$name = expr ;` or `$$name = expr ;`
* a directive is `alpha require ;`, `alpha allow ;` or `alpha forbid ;`
* a rule is `on space pixels having expr do blocks end ;`, where the space may be left out; the
  first block may start without `using space :`, and acts in the space of the rule then. Inside
  blocks `$name += expr` stands for `$name = $name + expr`, likewise for `-`, `*` and `/`.

While reading, `ReadState` keeps the lengths of the vectors assigned so far, so that expressions
are checked against them. The assignments of a block are known in that block only.
-/

set_option autoImplicit false

namespace Recolor

namespace Assignment

/-- The arithmetic operator of a compound assignment sign; the plain sign has none. -/
def compound? (t : Token) : Option (Option Arithmetic) :=
  match t.kind with
  | .symbol .assign => some none
  | .symbol .addAssign => some (some .add)
  | .symbol .subAssign => some (some .sub)
  | .symbol .mulAssign => some (some .mul)
  | .symbol .divAssign => some (some .div)
  | _ => none

/-- A value can be assigned to a variable if it is a vector exactly when the variable is one. -/
def checkTarget (target : Variable) (shape : Shape) : Except Fault Unit :=
  match target, shape with
  | .scalar name, .vector _ => .error (.type (.vectorToScalar name))
  | .vector name, .plain => .error (.type (.plainToVector name))
  | _, _ => .ok ()

/-- The known lengths after an assignment: a length that is not known is forgotten. -/
def lengthsAfter (lengths : Lengths) (target : Variable) (shape : Shape) : Lengths :=
  match target, shape with
  | .vector name, .vector (some n) => lengths.insert name n
  | .vector name, .vector none => lengths.erase name
  | _, _ => lengths

/-- The value that an assignment sign makes of the expression behind it. -/
def desugar (lengths : Lengths) (target : Variable) (op? : Option Arithmetic) (value : Expr) :
    Except Fault Expr :=
  match op? with
  | none => .ok value
  | some op => Expr.binary? lengths (.arithmetic op) (.variable target) value

/-- Reads an assignment, and answers it with the lengths known after it. Compound signs are
refused unless `inBlock`. -/
def parse (scope : Scope) (inBlock : Bool) : (ts : List Token) → Parsed (Assignment × Lengths) ts
  | [] => .error (scope.endOfScript .assignmentTarget)
  | [t] =>
    match t.kind with
    | .variable _ => .error (scope.endOfScript (.symbol .assign))
    | _ => .error (t.unexpected .assignmentTarget)
  | t :: sign :: rest =>
    match t.kind with
    | .variable target =>
      match compound? sign with
      | none => .error (sign.unexpected (.symbol .assign))
      | some op? => do
        if op?.isSome && !inBlock then
          throw (.grammar (.compoundOutsideBlock sign.kind) sign.span.start)
        let (operand, ⟨after, less⟩) ← Expr.parse scope rest
        let value ← desugar scope.lengths target op? operand
        let ((), ⟨final, less'⟩) ← expectSymbol scope .semicolon (.symbol .semicolon) after
        checkTarget target (value.shape scope.lengths)
        let lengths := lengthsAfter scope.lengths target (value.shape scope.lengths)
        return ((⟨target, value⟩, lengths), ⟨final, by simp only [List.length_cons]; omega⟩)
    | _ => .error (t.unexpected .assignmentTarget)

end Assignment

/-- The policy that a word of an alpha directive is. -/
def AlphaPolicy.ofToken? (t : Token) : Option AlphaPolicy :=
  match t.kind with
  | .keyword .require => some .require
  | .keyword .allow => some .allow
  | .keyword .forbid => some .forbid
  | _ => none

/-- Reads an alpha directive whose first word is at hand, and answers the policy with the span of
the directive. -/
def AlphaPolicy.parse (scope : Scope) (first : Token) :
    (ts : List Token) → Parsed (AlphaPolicy × Span) ts
  | [] => .error (scope.endOfScript .policy)
  | [t] =>
    match ofToken? t with
    | some _ => .error (scope.endOfScript (.symbol .semicolon))
    | none => .error (t.unexpected .policy)
  | t :: close :: rest =>
    match ofToken? t with
    | some policy =>
      if close.kind.isSymbol .semicolon then
        .ok ((policy, first.span.merge close.span), ⟨rest, by simp only [List.length_cons]; omega⟩)
      else .error (close.unexpected (.symbol .semicolon))
    | none => .error (t.unexpected .policy)

/-- Reads a reserved word. -/
def expectKeyword (scope : Scope) (k : Keyword) : (ts : List Token) → Parsed Unit ts
  | [] => .error (scope.endOfScript (.keyword k))
  | t :: rest =>
    if t.kind.isKeyword k then .ok ((), .tail t rest)
    else .error (t.unexpected (.keyword k))

/-- The name of a colour space, if that is the next token. -/
def spaceName? : (ts : List Token) → Option (String × Rest ts)
  | [] => none
  | t :: rest =>
    match t.kind with
    | .space name => some (name, .tail t rest)
    | _ => none

/-- The place of the next token, or the end of the script. -/
def Scope.here (scope : Scope) : List Token → Location
  | [] => scope.finish
  | t :: _ => t.span.start

namespace Rule

/-- A variable is the next token, so that an assignment follows. -/
def startsAssignment : List Token → Bool
  | [] => false
  | t :: _ =>
    match t.kind with
    | .variable _ => true
    | _ => false

/-- A block ends at the next token. -/
def endsBlock : List Token → Bool
  | [] => false
  | t :: _ => t.kind.isKeyword .endWord || t.kind.isKeyword .usingWord

/-- The assignments of a block, each read with the lengths known after those before it. -/
def assignments (scope : Scope) (ts : List Token) :
    Except Fault (List Assignment × RestOrAll ts) :=
  if startsAssignment ts then do
    let ((a, lengths), ⟨after, less⟩) ← Assignment.parse scope true ts
    let (more, ⟨final, le⟩) ← assignments { scope with lengths := lengths } after
    return (a :: more, ⟨final, by omega⟩)
  else .ok ([], .all ts)
termination_by ts.length

/-- The blocks that start with `using`, and the `end` behind them. -/
def sections (scope : Scope) : (ts : List Token) → Parsed (List ActionBlock) ts
  | [] => .error (scope.endOfScript (.keyword .endWord))
  | t :: rest =>
    if t.kind.isKeyword .endWord then .ok ([], .tail t rest)
    else if t.kind.isKeyword .usingWord then
      match spaceName? rest with
      | none => .error (.grammar .missingSpace (scope.here rest))
      | some (space, ⟨named, less⟩) => do
        let ((), ⟨opened, less'⟩) ← expectSymbol scope .colon (.symbol .colon) named
        let (statements, ⟨after, le⟩) ← assignments scope opened
        if statements.isEmpty && endsBlock after then
          throw (.grammar (.emptyBlock space) (scope.here after))
        let (more, ⟨final, less''⟩) ← sections scope after
        return (⟨space, statements⟩ :: more, ⟨final, by simp only [List.length_cons]; omega⟩)
    else .error (t.unexpected .blockItem)
termination_by ts => ts.length

/-- The assignments in front of the first `using` as a block, unless there are none. -/
def leadingBlock (space : String) (statements : List Assignment) : List ActionBlock :=
  if statements.isEmpty then [] else [⟨space, statements⟩]

/-- The space in which a rule without one acts. -/
def defaultSpace : String := "rgb"

/-- Reads the space of a rule, which may be left out. -/
def optionalSpace (ts : List Token) : String × RestOrAll ts :=
  match spaceName? ts with
  | some (name, ⟨rest, less⟩) => (name, ⟨rest, by omega⟩)
  | none => (defaultSpace, .all ts)

/-- Reads a rule whose first word has been read. -/
def parse (scope : Scope) (ts : List Token) : Parsed Rule ts := do
  let (space, ⟨named, le⟩) := optionalSpace ts
  let ((), ⟨second, less₁⟩) ← expectKeyword scope .pixels named
  let ((), ⟨third, less₂⟩) ← expectKeyword scope .having second
  let (predicate, ⟨fourth, less₃⟩) ← Expr.parse scope third
  let ((), ⟨body, less₄⟩) ← expectKeyword scope .doWord fourth
  let (leading, ⟨rest, le'⟩) ← assignments scope body
  let (more, ⟨closed, less₅⟩) ← sections scope rest
  let ((), ⟨final, less₆⟩) ← expectSymbol scope .semicolon (.symbol .semicolon) closed
  return (⟨space, predicate, leadingBlock space leading ++ more⟩, ⟨final, by omega⟩)

end Rule

/-- What is remembered from statement to statement: the lengths of the global vectors, the span of
the last alpha directive, and the warnings so far. -/
structure ReadState where
  lengths : Lengths := []
  lastAlpha : Option Span := none
  warnings : Diagnostics := []

/-- The warning on an alpha directive behind another. -/
def repeatedAlpha (span previous : Span) : Diagnostic where
  severity := .warning
  code := "colormap::syntax::repeated-alpha"
  message := "Alpha directive overrides an earlier one"
  span := span
  help := some ("The earlier directive is at " ++ previous.start.text)

namespace ReadState

/-- The state after an alpha directive. -/
def noteAlpha (s : ReadState) (span : Span) : ReadState :=
  { s with
    lastAlpha := some span
    warnings := s.warnings ++ (s.lastAlpha.map (repeatedAlpha span)).toList }

end ReadState

namespace Statement

/-- Reads a statement, and answers it with the state after it. -/
def parse (finish : Location) (s : ReadState) :
    (ts : List Token) → Parsed (Statement × ReadState) ts
  | [] => .error (.grammar (.endOfScript .statement) finish)
  | t :: rest =>
    let scope : Scope := ⟨s.lengths, finish⟩
    match t.kind with
    | .variable _ => do
      let ((a, lengths), ⟨final, less⟩) ← Assignment.parse scope false (t :: rest)
      return ((.assign a, { s with lengths := lengths }), ⟨final, less⟩)
    | .keyword .alpha => do
      let ((policy, span), ⟨final, less⟩) ← AlphaPolicy.parse scope t rest
      return ((.alpha policy, s.noteAlpha span), ⟨final, by simp only [List.length_cons]; omega⟩)
    | .keyword .on => do
      let (r, ⟨final, less⟩) ← Rule.parse scope rest
      return ((.rule r, s), ⟨final, by simp only [List.length_cons]; omega⟩)
    | _ => .error (t.unexpected .statement)

end Statement

namespace Program

/-- Reads statements until no token is left, and answers them with the state after the last. -/
def parseFrom (finish : Location) (s : ReadState) (ts : List Token) :
    Except Fault (Program × ReadState) :=
  match ts with
  | [] => .ok ([], s)
  | t :: rest => do
    let ((statement, next), ⟨after, _less⟩) ← Statement.parse finish s (t :: rest)
    let (more, final) ← parseFrom finish next after
    return (statement :: more, final)
termination_by ts.length
decreasing_by assumption

/-- Reads the program that tokens make up, and answers it with the warnings on it. Lengths of
vectors that are known beforehand can be given. -/
def parse (ts : List Token) (lengths : Lengths := []) : Except Fault (Program × Diagnostics) := do
  let (program, final) ← parseFrom (endLocation ts) { lengths := lengths } ts
  return (program, final.warnings)

end Program

end Recolor
