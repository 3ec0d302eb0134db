import Recolor.Expr.Basic
import Recolor.Value.Basic

/-!
# Environments

The variables that an expression can see, in layers: the innermost layer takes new bindings and
hides those of the same name further out. Scalar and vector variables are kept apart.
-/

set_option autoImplicit false

namespace Recolor

/-- The variables of one scope. -/
structure Layer where
  scalars : Bindings Value := []
  vectors : Bindings (List Number) := []

/-- Scopes from the innermost to the outermost. -/
structure Environment where
  inner : Layer := {}
  outer : List Layer := []

namespace Environment

/-- The environment without variables. -/
def empty : Environment := {}

/-- All scopes, the innermost first. -/
def layers (env : Environment) : List Layer := env.inner :: env.outer

/-- A new innermost scope without variables. -/
def child (parent : Environment) : Environment := { outer := parent.layers }

/-- Binds `$name` in the innermost scope. -/
def bind (env : Environment) (name : String) (value : Value) : Environment :=
  { env with inner := { env.inner with scalars := env.inner.scalars.insert name value } }

/-- Binds `$$name` in the innermost scope. -/
def bindVector (env : Environment) (name : String) (items : List Number) : Environment :=
  { env with inner := { env.inner with vectors := env.inner.vectors.insert name items } }

/-- The value of `$name`. -/
def scalar? (env : Environment) (name : String) : Option Value :=
  env.layers.findSome? (·.scalars.get? name)

/-- The items of `$$name`. -/
def vector? (env : Environment) (name : String) : Option (List Number) :=
  env.layers.findSome? (·.vectors.get? name)

/-- The value of a variable of either sort. -/
def lookup (env : Environment) : Variable → Option Value
  | .scalar name => env.scalar? name
  | .vector name => (env.vector? name).map .vector

/-- The value of `$name` in the innermost scope, and the environment without that binding. -/
def take (env : Environment) (name : String) : Option Value × Environment :=
  (env.inner.scalars.get? name,
    { env with inner := { env.inner with scalars := env.inner.scalars.erase name } })

/-! ## Lookup -/

/-- After a binding in the innermost scope, its name stands for the new value, and any other for
what it stood for before. -/
theorem scalar?_bind (env : Environment) (name other : String) (value : Value) :
    (env.bind name value).scalar? other =
      if other = name then some value else env.scalar? other := by
  simp only [scalar?, layers, bind, List.findSome?_cons, Bindings.get?_insert]
  by_cases h : other = name
  · rw [if_pos h, if_pos h]
  · rw [if_neg h, if_neg h]

/-- After a vector is bound in the innermost scope, its name stands for the new items, and any other
for what it stood for before. -/
theorem vector?_bindVector (env : Environment) (name other : String) (items : List Number) :
    (env.bindVector name items).vector? other =
      if other = name then some items else env.vector? other := by
  simp only [vector?, layers, bindVector, List.findSome?_cons, Bindings.get?_insert]
  by_cases h : other = name
  · rw [if_pos h, if_pos h]
  · rw [if_neg h, if_neg h]

/-! ## Lengths -/

/-- Adds the lengths of the vectors of a scope, which hide those already there. -/
def addLengths (scope : Bindings (List Number)) (lengths : Lengths) : Lengths :=
  scope.foldr (fun (name, items) known => known.insert name items.length) lengths

/-- The lengths of all vectors that can be seen, collected from the outermost scope inwards. -/
def vectorLengths (env : Environment) : Lengths :=
  env.layers.foldr (fun layer lengths => addLengths layer.vectors lengths) []

end Environment

end Recolor
