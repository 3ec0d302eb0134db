import Recolor.Expr.Basic

/-!
# Programs

A program is a list of statements: assignments of global variables, directives on the alpha band,
and rules that change the pixels that a predicate selects.
-/

set_option autoImplicit false

namespace Recolor

/-- How a script treats the alpha band of images. -/
inductive AlphaPolicy where
  | require
  | allow
  | forbid
deriving DecidableEq, Repr

/-- The word for a policy. -/
def AlphaPolicy.text : AlphaPolicy → String
  | .require => "require"
  | .allow => "allow"
  | .forbid => "forbid"

/-- An assignment, written `target = value;`. -/
structure Assignment where
  target : Variable
  value : Expr

/-- Assignments that act on the bands of one colour space. -/
structure ActionBlock where
  space : String
  statements : List Assignment

/-- A rule, written `on space pixels having predicate do blocks end;`. -/
structure Rule where
  space : String
  predicate : Expr
  blocks : List ActionBlock

/-- A statement of a program. -/
inductive Statement where
  | assign (a : Assignment)
  | alpha (policy : AlphaPolicy)
  | rule (r : Rule)

/-- The statements of a script in their order. -/
abbrev Program := List Statement

namespace Program

/-- The global assignments. -/
def assignments (p : Program) : List Assignment :=
  p.filterMap fun
    | .assign a => some a
    | _ => none

/-- The rules. -/
def rules (p : Program) : List Rule :=
  p.filterMap fun
    | .rule r => some r
    | _ => none

/-- The policy of the last alpha directive; without one, alpha bands are allowed. -/
def alphaPolicy (p : Program) : AlphaPolicy :=
  (p.filterMap fun
    | .alpha policy => some policy
    | _ => none).getLastD .allow

end Program

end Recolor
