import Recolor.Script.Program

/-!
# Settings

The options for compiling and running scripts.
-/

set_option autoImplicit false

namespace Recolor

/-- Options for compiling and running scripts. `alpha` takes the place of the policy that the
script asks for. -/
structure Config where
  enableCache : Bool := true
  strictLexing : Bool := false
  alpha : Option AlphaPolicy := none
deriving DecidableEq, Repr

namespace Config

/-- The options that hold where none are given. -/
def standard : Config := {}

end Config

end Recolor
