/-!
# Operators

The operators of expressions, by family. Each has the sign by which scripts and messages name it.
-/

set_option autoImplicit false

namespace Recolor

/-- Operators that compute numbers. -/
inductive Arithmetic where
  | add
  | sub
  | mul
  | div
  | mod
deriving DecidableEq, Repr

namespace Arithmetic

/-- The sign of the operator. -/
def text : Arithmetic → String
  | .add => "+"
  | .sub => "-"
  | .mul => "*"
  | .div => "/"
  | .mod => "%"

/-- Addition and subtraction, which work on vectors element by element. -/
def isAdditive : Arithmetic → Bool
  | .add | .sub => true
  | _ => false

end Arithmetic

/-- Operators that compare. -/
inductive Comparison where
  | lt
  | le
  | gt
  | ge
  | eq
  | ne
deriving DecidableEq, Repr

namespace Comparison

/-- The sign of the operator. -/
def text : Comparison → String
  | .lt => "<"
  | .le => "<="
  | .gt => ">"
  | .ge => ">="
  | .eq => "=="
  | .ne => "!="

/-- Equality and its opposite, which work on values without an order too. -/
def isEquality : Comparison → Bool
  | .eq | .ne => true
  | _ => false

end Comparison

/-- Operators on truth values, and on the bits of integers. -/
inductive Connective where
  | and
  | or
  | xor
deriving DecidableEq, Repr

/-- The sign of the operator. -/
def Connective.text : Connective → String
  | .and => "&"
  | .or => "|"
  | .xor => "^"

/-- Operators with two operands. `within` is membership in a range. -/
inductive BinaryOp where
  | arithmetic (op : Arithmetic)
  | comparison (op : Comparison)
  | connective (op : Connective)
  | within
deriving DecidableEq, Repr

namespace BinaryOp

/-- The sign of the operator. -/
def text : BinaryOp → String
  | .arithmetic op => op.text
  | .comparison op => op.text
  | .connective op => op.text
  | .within => "in"

/-- The operator computes numbers. -/
def isArithmetic : BinaryOp → Bool
  | .arithmetic _ => true
  | _ => false

/-- The operator works on truth values. -/
def isLogical : BinaryOp → Bool
  | .connective _ => true
  | _ => false

/-- The operator compares or tests membership. -/
def isComparison : BinaryOp → Bool
  | .comparison _ | .within => true
  | _ => false

end BinaryOp

/-- Operators with one operand. -/
inductive UnaryOp where
  | negate
  | invert
deriving DecidableEq, Repr

end Recolor
