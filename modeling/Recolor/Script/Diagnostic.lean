import Recolor.Script.Location

/-!
# Diagnostics

Remarks on a script that do not stop the work. They are collected in the order in which they come
up.
-/

set_option autoImplicit false

namespace Recolor

/-- How serious a diagnostic is. -/
inductive Severity where
  | warning
  | error
deriving DecidableEq, Repr

/-- The word for a severity. -/
def Severity.text : Severity → String
  | .warning => "warning"
  | .error => "error"

/-- A remark on a part of a script. -/
structure Diagnostic where
  severity : Severity
  code : String
  message : String
  span : Span
  help : Option String := none
deriving DecidableEq, Repr

/-- Severity, code, place and message on one line. -/
def Diagnostic.text (d : Diagnostic) : String :=
  d.severity.text ++ "[" ++ d.code ++ "] at " ++ d.span.start.text ++ ": " ++ d.message

/-- Diagnostics in the order in which they came up. -/
abbrev Diagnostics := List Diagnostic

namespace Diagnostics

/-- The number of diagnostics of one severity. -/
def count (ds : Diagnostics) (s : Severity) : Nat := (ds.filter (·.severity == s)).length

/-- Some diagnostic is an error. -/
def hasErrors (ds : Diagnostics) : Bool := ds.any (·.severity == .error)

/-- The first error. -/
def firstError? (ds : Diagnostics) : Option Diagnostic := ds.find? (·.severity == .error)

end Diagnostics

end Recolor
