import Recolor.Config
import Recolor.Fault
import Recolor.Yaml.Node

/-!
# Settings in YAML

Settings are read from a YAML mapping with the keys `enable_cache`, `strict_lexing` and `alpha`.
What is left out stays as in `Config.standard`, and other keys are passed over. A key given twice,
or a value of another kind, is refused.
-/

set_option autoImplicit false

namespace Recolor

open Yaml (Node Tag Document)

namespace Config

/-- The spellings of null. -/
def isNull (text : String) : Bool := ["null", "Null", "NULL", "~"].contains text

/-- The truth value that a plain text spells. -/
def booleanOfText? (text : String) : Option Bool :=
  if ["true", "True", "TRUE"].contains text then some true
  else if ["false", "False", "FALSE"].contains text then some false
  else none

/-- The tag of truth values. -/
def booleanTag : Tag := .ofString "tag:yaml.org,2002:bool"

/-- The tag of null. -/
def nullTag : Tag := .ofString "tag:yaml.org,2002:null"

/-- The truth value of a setting. In quotes it would be text, and a block is text too unless it is
tagged. -/
def boolean? : Node → Option Bool
  | .scalar _ .plain text => booleanOfText? text
  | .scalar tag .literal text => if tag = some booleanTag then booleanOfText? text else none
  | _ => none

/-- The policy with a name. -/
def policyNamed? (name : String) : Option AlphaPolicy :=
  [AlphaPolicy.require, .allow, .forbid].find? (·.text == name)

/-- The policy that a text names, or a tag in front of no text. -/
def policyOfScalar? (tag : Option Tag) (style : Yaml.Style) (text : String) :
    Option AlphaPolicy :=
  match tag.bind Tag.name? with
  | none => policyNamed? text
  | some name =>
    if style = .plain ∧ (text.isEmpty || isNull text) = true then policyNamed? name else none

/-- The policy of a setting, which can be null. -/
def policy? : Node → Option (Option AlphaPolicy)
  | .scalar none .plain text =>
    if text.isEmpty || isNull text then some none else (policyNamed? text).map some
  | .scalar tag style text =>
    if tag = some nullTag ∧ style = .plain then if isNull text then some none else none
    else (policyOfScalar? tag style text).map some
  | _ => none

/-- The fault of settings that cannot be used. -/
def invalid {α : Type} (reason : String) : Except Fault α := .error (.config (.invalid reason))

/-- The entries with texts for keys, which all keys have to be. -/
def namedEntries : List (Node × Node) → Except Fault (List (String × Node))
  | [] => .ok []
  | (.scalar _ _ name, value) :: rest => (namedEntries rest).map ((name, value) :: ·)
  | _ => invalid "a key is no text"

/-- The setting of a name, read from the only entry for it if there is one. -/
def setting {α : Type} (entries : List (String × Node)) (name : String) (read : Node → Option α)
    (default : α) : Except Fault α :=
  match entries.filter (·.1 == name) with
  | [] => .ok default
  | [(_, value)] =>
    match read value with
    | some a => .ok a
    | none => invalid ("unsuitable value for " ++ name)
  | _ => invalid (name ++ " is given twice")

/-- The settings of a document. -/
def ofDocument (document : Document) : Except Fault Config :=
  match document.root with
  | .mapping entries => do
    let entries ← namedEntries
      (entries.map fun (key, value) => (document.resolve key, document.resolve value))
    let enableCache ← setting entries "enable_cache" boolean? standard.enableCache
    let strictLexing ← setting entries "strict_lexing" boolean? standard.strictLexing
    let alpha ← setting entries "alpha" policy? standard.alpha
    return ⟨enableCache, strictLexing, alpha⟩
  | .scalar _ .plain "" => .ok standard
  | _ => invalid "settings are no mapping"

/-- Reads settings. A text without a document stands for the standard ones. -/
def parse (text : String) : Except Fault Config :=
  match Document.parse? text with
  | .error defect => invalid defect.text
  | .ok none => .ok standard
  | .ok (some document) => ofDocument document

/-- Reads the settings in a file, given its contents if it can be read. -/
def ofFile (path : String) (contents : Except String String) : Except Fault Config :=
  match contents with
  | .ok text => parse text
  | .error reason => .error (.unreadableFile path ("Failed to read config: " ++ reason))

end Config

end Recolor
