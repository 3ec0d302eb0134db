import Recolor.ColorSpace.Basic

/-!
# Registries of colour spaces

A `Registry` holds at most one colour space for each key, in ascending order of the keys.
-/

set_option autoImplicit false

namespace Recolor

/-- Colour spaces by key. -/
structure Registry where
  spaces : List ColorSpace

namespace Registry

/-- The registry without spaces. -/
def empty : Registry := ⟨[]⟩

/-- The space with a key. -/
def get? (r : Registry) (key : String) : Option ColorSpace := r.spaces.find? (·.key == key)

/-- Puts a space in its place among spaces in ascending order, where one of its key gives way. -/
def insertSorted (s : ColorSpace) : List ColorSpace → List ColorSpace
  | [] => [s]
  | t :: ts =>
    if s.key < t.key then s :: t :: ts
    else if s.key = t.key then s :: ts
    else t :: insertSorted s ts

/-- The registry with a space added, which replaces that of the same key. -/
def register (r : Registry) (s : ColorSpace) : Registry := ⟨insertSorted s r.spaces⟩

/-- The registry of some spaces, later ones replacing earlier ones of the same key. -/
def ofList (spaces : List ColorSpace) : Registry := spaces.foldl register empty

/-- The registry of the standard spaces. -/
def standard : Registry := ofList ColorSpace.standard

/-- The keys in ascending order. -/
def names (r : Registry) : List String := r.spaces.map (·.key)

/-- The space with a key, where there must be one. -/
def resolve (r : Registry) (key : String) : Except Fault ColorSpace :=
  match r.get? key with
  | some s => .ok s
  | none => .error (.config (.unknownSpace key r.names))

end Registry

end Recolor
