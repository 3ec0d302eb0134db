import Recolor.Expr.Basic
import Recolor.Fault

/-!
# Checked expressions

`Expr.binary?` and `Expr.index?` build a node only if its operands have shapes that it can work
with, so that hopeless expressions are found before anything is evaluated.
-/

set_option autoImplicit false

namespace Recolor

/-- The shapes that a binary operator takes. Vectors are added to and subtracted from vectors,
multiplied by numbers, divided by numbers, and tested for equality with vectors. Lengths have to
agree in sums as far as both are known. -/
def checkOperands (op : BinaryOp) (left right : Shape) : Except Fault Unit :=
  match left, right with
  | .plain, .plain => .ok ()
  | .vector a, .vector b =>
    match op with
    | .arithmetic .add | .arithmetic .sub =>
      match a, b with
      | some m, some n => if m = n then .ok () else .error (.shape (.declaredLengths op m n))
      | _, _ => .ok ()
    | .comparison .eq | .comparison .ne => .ok ()
    | _ => .error (.type (.vectorOperands op))
  | .vector _, .plain =>
    match op with
    | .arithmetic .mul | .arithmetic .div | .arithmetic .mod => .ok ()
    | _ => .error (.type (.vectorOperands op))
  | .plain, .vector _ =>
    match op with
    | .arithmetic .mul => .ok ()
    | _ => .error (.type (.vectorOperands op))

namespace Expr

/-- The node `left op right`, if the operands have shapes that the operator takes. -/
def binary? (lengths : Lengths) (op : BinaryOp) (left right : Expr) : Except Fault Expr := do
  checkOperands op (left.shape lengths) (right.shape lengths)
  return .binary op left right

/-- The node `vector[position]`, if the indexed expression is a vector. -/
def index? (lengths : Lengths) (vector position : Expr) : Except Fault Expr :=
  if (vector.shape lengths).isVector then .ok (.index vector position)
  else .error (.type .notIndexable)

end Expr

end Recolor
