import Recolor.Yaml.Tag

/-!
# Directives

A line that starts with a percent sign tells the version of the language, or what the handle of a
tag stands for.
-/

set_option autoImplicit false

namespace Recolor.Yaml

/-- A directive. Of the version it matters only that it is a known one. -/
inductive Directive where
  | version
  | tag (handle : String) (meaning : Tag)
deriving DecidableEq, Repr

namespace Directive

/-- The greatest number of digits of a version's numbers. -/
def mostDigits : Nat := 9

/-- Reads a number of a version. -/
def number (cs : List Char) : Except Defect (Nat × List Char) :=
  let digits := cs.takeWhile Char.isDigit
  if digits.isEmpty || decide (mostDigits < digits.length) then .error .directive
  else .ok (digits.foldl (fun n c => 10 * n + (c.toNat - '0'.toNat)) 0, cs.dropWhile Char.isDigit)

/-- Reads a version, which is 1.1 or 1.2. -/
def readVersion (cs : List Char) : Except Defect (Directive × List Char) := do
  match ← number cs with
  | (major, '.' :: cs) =>
    let (minor, rest) ← number cs
    if major = 1 ∧ (minor = 1 ∨ minor = 2) then return (.version, rest) else throw .directive
  | _ => throw .directive

/-- Reads a handle, which is a name between two signs or one sign. -/
def readHandle : List Char → Except Defect (String × List Char)
  | '!' :: cs =>
    let name := cs.takeWhile isNameChar
    match cs.dropWhile isNameChar with
    | '!' :: rest => .ok ("!" ++ String.ofList name ++ "!", rest)
    | rest => if name.isEmpty then .ok ("!", rest) else .error .directive
  | _ => .error .directive

/-- Reads a handle and what it stands for. -/
def readTag (cs : List Char) : Except Defect (Directive × List Char) := do
  let (handle, rest) ← readHandle cs
  if !rest.head?.any isBlank then throw .directive
  let (meaning, rest) ← Tag.scan Tag.isFullChar (rest.dropWhile isBlank)
  if endsWord rest then return (.tag handle meaning, rest) else throw .directive

/-- Reads a directive behind its percent sign, and the rest of its line. -/
def read (cs : List Char) : Except Defect (Directive × List Char) := do
  let rest := cs.dropWhile isNameChar
  if !endsWord rest then throw .directive
  let value := rest.dropWhile isBlank
  let (d, rest) ←
    match String.ofList (cs.takeWhile isNameChar) with
    | "YAML" => readVersion value
    | "TAG" => readTag value
    | _ => throw .directive
  match endOfLine? rest with
  | some rest => return (d, rest)
  | none => throw .directive

end Directive

end Recolor.Yaml
