import Recolor.Bindings
import Recolor.Script.Operator
import Recolor.Script.Token

/-!
# Expressions

The tree of an expression, and its `Shape`: whether its value will be a vector, and of what length,
as far as that is known without evaluating it.
-/

set_option autoImplicit false

namespace Recolor

/-- An expression of the language. `index` is `vector[position]`, where the position may be a
`slice`, and `saturated` is `(| inner |)`. -/
inductive Expr where
  | number (x : Number)
  | boolean (b : Bool)
  | none
  | variable (v : Variable)
  | binary (op : BinaryOp) (left right : Expr)
  | unary (op : UnaryOp) (operand : Expr)
  | range (min max : Expr) (strictMin strictMax : Bool)
  | slice (start stop step : Option Expr)
  | vector (items : List Expr)
  | index (vector position : Expr)
  | saturated (inner : Expr)

/-- The lengths of vector variables, as far as they are known. -/
abbrev Lengths := Bindings Nat

/-- Whether a value is a vector, and of what length if that is known. -/
inductive Shape where
  | plain
  | vector (length : Option Nat)
deriving DecidableEq, Repr

/-- The shape is that of a vector. -/
def Shape.isVector : Shape → Bool
  | .plain => false
  | .vector _ => true

namespace Expr

/-- The expression is a slice. -/
def isSlice : Expr → Bool
  | .slice _ _ _ => true
  | _ => false

/-- The shape of the value that an expression will have. -/
def shape (lengths : Lengths) : Expr → Shape
  | .variable (.vector name) => .vector (lengths.get? name)
  | .vector items => .vector (some items.length)
  | .binary (.arithmetic _) left right =>
    match left.shape lengths, right.shape lengths with
    | .vector n, _ => .vector n
    | .plain, right => right
  | .unary _ operand => operand.shape lengths
  | .saturated inner => inner.shape lengths
  | .index _ position => if position.isSlice then .vector Option.none else .plain
  | _ => .plain

/-- The inclusive range from `center - tolerance` to `center + tolerance`. -/
def tolerance (center tolerance : Expr) : Expr :=
  .range (.binary (.arithmetic .sub) center tolerance)
    (.binary (.arithmetic .add) center tolerance) false false

end Expr

end Recolor
