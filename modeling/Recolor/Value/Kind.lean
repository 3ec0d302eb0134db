/-!
# Kinds of values

The kinds that expressions can evaluate to, with the names that messages give them.
-/

set_option autoImplicit false

namespace Recolor

/-- A kind of value. -/
inductive ValueKind where
  | number
  | boolean
  | none
  | mask
  | band
  | vector
  | range
  | slice
deriving DecidableEq, Repr

/-- The name of a kind. -/
def ValueKind.text : ValueKind → String
  | .number => "number"
  | .boolean => "boolean"
  | .none => "none"
  | .mask => "mask"
  | .band => "band"
  | .vector => "vector"
  | .range => "range"
  | .slice => "slice"

end Recolor
