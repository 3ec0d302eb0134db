import Recolor.Value.Basic

/-!
# Operations on values

Each operator is defined on certain pairs of kinds; on all others it is a fault, and nothing is
converted silently. A number meets a band by meeting each of its numbers, a truth value meets a
mask in the same way, and two bands or masks must have one size.
-/

set_option autoImplicit false

namespace Recolor

/-- The function of an arithmetic operator on numbers. -/
def Arithmetic.apply : Arithmetic → Number → Number → Number
  | .add, a, b => a + b
  | .sub, a, b => a - b
  | .mul, a, b => a * b
  | .div, a, b => a / b
  | .mod, a, b => Number.modulo a b

/-- The test of a comparison operator on numbers. -/
def Comparison.apply : Comparison → Number → Number → Bool
  | .lt, a, b => decide (a < b)
  | .le, a, b => decide (a ≤ b)
  | .gt, a, b => decide (b < a)
  | .ge, a, b => decide (b ≤ a)
  | .eq, a, b => Number.same a b
  | .ne, a, b => !Number.same a b

/-- The answer of an equality operator, given whether its operands are equal. -/
def Comparison.ofEquality (op : Comparison) (equal : Bool) : Bool := equal == (op == .eq)

/-- The function of a connective on truth values. -/
def Connective.apply : Connective → Bool → Bool → Bool
  | .and, a, b => a && b
  | .or, a, b => a || b
  | .xor, a, b => a ^^ b

/-- The function of a connective on the bits of integers. -/
def Connective.applyBits : Connective → Int64 → Int64 → Int64
  | .and, a, b => a &&& b
  | .or, a, b => a ||| b
  | .xor, a, b => a ^^^ b

namespace Value

/-- The fault of an operator on operands of kinds that it does not take. -/
def mismatch (sign : String) (a b : Value) : Fault := .type (.operandKinds sign a.kind b.kind)

/-- The values of `a + b`, `a - b`, `a * b`, `a / b` and `a % b`. -/
def arithmetic (op : Arithmetic) : Value → Value → Except Fault Value
  | .number a, .number b => .ok (.number (op.apply a b))
  | .band p, .band q => (p.zipWith op.apply q).map .band
  | .band p, .number b => .ok (.band (p.map (op.apply · b)))
  | .number a, .band q => .ok (.band (q.map (op.apply a)))
  | .vector as, .vector bs =>
    if op.isAdditive then
      if as.length = bs.length then .ok (.vector (List.zipWith op.apply as bs))
      else .error (.shape (.vectorLengths op as.length bs.length))
    else .error (mismatch op.text (.vector as) (.vector bs))
  | .vector as, .number b =>
    if op.isAdditive then .error (mismatch op.text (.vector as) (.number b))
    else .ok (.vector (as.map (op.apply · b)))
  | .number a, .vector bs =>
    if op = .mul then .ok (.vector (bs.map (op.apply a)))
    else .error (mismatch op.text (.number a) (.vector bs))
  | a, b => .error (mismatch op.text a b)

/-- The values of `a < b`, `a <= b`, `a > b`, `a >= b`, `a == b` and `a != b`. -/
def compare (op : Comparison) : Value → Value → Except Fault Value
  | .number a, .number b => .ok (.boolean (op.apply a b))
  | .band p, .band q => (p.testWith op.apply q).map .mask
  | .band p, .number b => .ok (.mask (p.test (op.apply · b)))
  | .number a, .band q => .ok (.mask (q.test (op.apply a)))
  | .boolean a, .boolean b =>
    if op.isEquality then .ok (.boolean (op.ofEquality (a == b)))
    else .error (mismatch op.text (.boolean a) (.boolean b))
  | .mask m, .mask n =>
    if op.isEquality then (m.zipWith (fun a b => op.ofEquality (a == b)) n).map .mask
    else .error (mismatch op.text (.mask m) (.mask n))
  | .vector as, .vector bs =>
    if op.isEquality then
      if as.length = bs.length then .ok (.boolean (op.ofEquality (Number.sameList as bs)))
      else .error (.shape (.comparedLengths as.length bs.length))
    else .error (mismatch op.text (.vector as) (.vector bs))
  | a, b => .error (mismatch op.text a b)

/-- The 64-bit integer that a number stands for as an operand of a bit operator. -/
def integerOperand (sign : String) (x : Number) : Except Fault Int64 :=
  if x.isInteger then .ok x.toInt64 else .error (.type (.integerOperand sign x))

/-- The values of `a & b`, `a | b` and `a ^ b`. -/
def connect (op : Connective) : Value → Value → Except Fault Value
  | .mask m, .mask n => (m.zipWith op.apply n).map .mask
  | .mask m, .boolean b => .ok (.mask (m.map (op.apply · b)))
  | .boolean a, .mask n => .ok (.mask (n.map (op.apply a)))
  | .boolean a, .boolean b => .ok (.boolean (op.apply a b))
  | .number a, .number b => do
    let i ← integerOperand op.text a
    let j ← integerOperand op.text b
    return .number (Number.ofInt64 (op.applyBits i j))
  | a, b => .error (mismatch op.text a b)

/-- The value of `a in b`, where `b` must be a range. -/
def within (a : Value) : Value → Except Fault Value
  | .range r =>
    match a with
    | .number x => .ok (.boolean (r.contains x))
    | .band p => .ok (.mask (r.containsPlane p))
    | a => .error (.type (.membership a.kind))
  | b => .error (.type (.notARange b.kind))

/-- The value of `a op b` for any operator with two operands. -/
def binary : BinaryOp → Value → Value → Except Fault Value
  | .arithmetic op, a, b => arithmetic op a b
  | .comparison op, a, b => compare op a b
  | .connective op, a, b => connect op a b
  | .within, a, b => within a b

/-- The value of `-a`. -/
def negate : Value → Except Fault Value
  | .number x => .ok (.number (-x))
  | .band p => .ok (.band (p.map (- ·)))
  | .vector items => .ok (.vector (items.map (- ·)))
  | a => .error (.type (.negation a.kind))

/-- The value of `~a`. -/
def invert : Value → Except Fault Value
  | .boolean b => .ok (.boolean !b)
  | .mask m => .ok (.mask m.complement)
  | .number x => do
    let i ← integerOperand "~" x
    return .number (Number.ofInt64 (~~~i))
  | a => .error (.type (.inversion a.kind))

/-- The value of `-a` or `~a`. -/
def unary : UnaryOp → Value → Except Fault Value
  | .negate, a => negate a
  | .invert, a => invert a

/-- The value of `(| a |)`: all numbers brought into `[0, 1]`. -/
def saturate : Value → Except Fault Value
  | .number x => .ok (.number x.clampUnit)
  | .band p => .ok (.band (p.map Number.clampUnit))
  | .vector items => .ok (.vector (items.map Number.clampUnit))
  | a => .error (.type (.saturation a.kind))

/-- The value of `items[index]`, a negative index counting from the end. -/
def elementAt (items : List Number) (index : Int64) : Except Fault Value :=
  let length := Int64.ofNat items.length
  let place := if index < 0 then index + length else index
  if place < 0 || length ≤ place then
    .error (.evaluation (.indexOutOfRange index.toInt items.length))
  else .ok (.number (Slice.item items place))

/-- The 64-bit integer that a number stands for as an index. -/
def indexOfNumber (x : Number) : Except Fault Int64 :=
  if x.isInteger then .ok x.toInt64 else .error (.evaluation (.fractionalIndex x))

/-- The items of a value that is to be indexed, which must be a vector. -/
def indexedItems : Value → Except Fault (List Number)
  | .vector items => .ok items
  | a => .error (.type (.indexedKind a.kind))

/-- The value of `items[index]`, where the index must be a number or a slice. -/
def select (items : List Number) : Value → Except Fault Value
  | .slice s => (s.apply items).map .vector
  | .number x => do elementAt items (← indexOfNumber x)
  | b => .error (.type (.indexKind b.kind))

end Value

end Recolor
