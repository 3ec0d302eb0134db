import Recolor.Environment
import Recolor.Script.Program
import Recolor.Value.Operation

/-!
# Evaluation

`Expr.evaluate` computes the value of an expression in an environment. Operands are evaluated from
left to right, and the first fault is the answer. `execute` runs assignments in order, each seeing
the bindings of those before it.
-/

set_option autoImplicit false

namespace Recolor

/-- The number that a value is, where a number is needed. -/
def Value.requireNumber (role : NumberRole) : Value → Except Fault Number
  | .number x => .ok x
  | a => .error (.type (.numberNeeded role a.kind))

/-- The bound of a slice that a value stands for; `none` is an absent bound. -/
def Value.sliceBound : Value → Except Fault (Option Int64)
  | .none => .ok Option.none
  | .number x => (indexOfNumber x).map some
  | a => .error (.type (.sliceBound a.kind))

namespace Expr

mutual

/-- The value of an expression. -/
def evaluate (env : Environment) : Expr → Except Fault Value
  | .number x => .ok (.number x)
  | .boolean b => .ok (.boolean b)
  | .none => .ok .none
  | .variable v =>
    match env.lookup v with
    | some value => .ok value
    | Option.none => .error (.undefinedVariable v)
  | .binary op left right => do
    let a ← evaluate env left
    let b ← evaluate env right
    Value.binary op a b
  | .unary op operand => do
    let a ← evaluate env operand
    Value.unary op a
  | .saturated inner => do
    let a ← evaluate env inner
    Value.saturate a
  | .range min max strictMin strictMax => do
    let a ← evaluate env min
    let low ← a.requireNumber .rangeBound
    let b ← evaluate env max
    let high ← b.requireNumber .rangeBound
    return .range ⟨low, high, strictMin, strictMax⟩
  | .vector items => do
    let numbers ← evaluateItems env items
    return .vector numbers
  | .slice start stop step => do
    let first ← evaluateBound env start
    let last ← evaluateBound env stop
    let stride ← evaluateBound env step
    return .slice ⟨first, last, stride⟩
  | .index indexed position => do
    let a ← evaluate env indexed
    let items ← Value.indexedItems a
    let b ← evaluate env position
    Value.select items b

/-- The numbers that the elements of a vector evaluate to. -/
def evaluateItems (env : Environment) : List Expr → Except Fault (List Number)
  | [] => .ok []
  | e :: rest => do
    let a ← evaluate env e
    let x ← a.requireNumber .vectorElement
    let xs ← evaluateItems env rest
    return x :: xs

/-- The bound of a slice, which may be absent. -/
def evaluateBound (env : Environment) : Option Expr → Except Fault (Option Int64)
  | Option.none => .ok Option.none
  | some e => do
    let a ← evaluate env e
    a.sliceBound

end

/-- A number literal is its own value. -/
theorem evaluate_number (env : Environment) (x : Number) :
    evaluate env (.number x) = .ok (.number x) := by
  simp only [evaluate]

end Expr

namespace Environment

/-- Binds a variable to a value of the right kind. -/
def assign (env : Environment) : Variable → Value → Except Fault Environment
  | .vector name, .vector items => .ok (env.bindVector name items)
  | .vector name, value => .error (.type (.assignedKind value.kind name))
  | .scalar name, .vector _ => .error (.type (.vectorToScalar name))
  | .scalar name, value => .ok (env.bind name value)

end Environment

namespace Assignment

/-- Evaluates the right side and binds the variable. -/
def run (a : Assignment) (env : Environment) : Except Fault Environment := do
  let value ← a.value.evaluate env
  env.assign a.target value

end Assignment

/-- Runs assignments one after another. -/
def execute : List Assignment → Environment → Except Fault Environment
  | [], env => .ok env
  | a :: rest, env => do
    let next ← a.run env
    execute rest next

/-- Runs assignments up to the first that fails, and answers the environment left behind with the
fault, if there was one. -/
def executeUntilFault : List Assignment → Environment → Environment × Option Fault
  | [], env => (env, none)
  | a :: rest, env =>
    match a.run env with
    | .ok next => executeUntilFault rest next
    | .error fault => (env, some fault)

/-- Running assignments fails exactly if some assignment is not reached or fails, and otherwise
leaves the same environment. -/
theorem execute_eq (statements : List Assignment) (env : Environment) :
    execute statements env =
      match executeUntilFault statements env with
      | (final, none) => .ok final
      | (_, some fault) => .error fault := by
  induction statements generalizing env with
  | nil => rfl
  | cons a rest ih =>
    unfold execute executeUntilFault
    cases h : a.run env with
    | ok next => simpa [bind, Except.bind] using ih next
    | error fault => rfl

end Recolor
