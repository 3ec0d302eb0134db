import Recolor.Config
import Recolor.Mapping.Mapper
import Recolor.Script.Parser

/-!
# Compiled scripts

A script becomes a mapper: its global assignments are run once, in their order, and each rule
becomes an entry whose predicate and actions see the variables that they leave behind.
-/

set_option autoImplicit false

namespace Recolor

/-- A script that can be run on images. -/
structure CompiledScript where
  mapper : Mapper
  alpha : AlphaPolicy
  globals : Environment
  diagnostics : Diagnostics

namespace CompiledScript

/-- The tokens of a script and the diagnostics on its text, of which there are none if it has to be
free of them. -/
def readTokens (source : String) (strict : Bool) : Except Fault Lexed :=
  if strict then (tokenizeStrict source).map fun tokens => ⟨tokens, []⟩ else .ok (tokenize source)

/-- The action of a block over the global variables. -/
def action (registry : Registry) (globals : Environment) (block : ActionBlock) :
    Except Fault Action := do
  let space ← registry.resolve block.space
  return ⟨.compiled block.statements globals, space⟩

/-- The entry of a rule over the global variables. -/
def entry (registry : Registry) (globals : Environment) (rule : Rule) : Except Fault Entry := do
  let space ← registry.resolve rule.space
  let actions ← rule.blocks.mapM (action registry globals)
  return ⟨⟨.compiled rule.predicate globals, space⟩, actions⟩

/-- Compiles a program whose text and statements gave rise to some diagnostics. -/
def ofProgram (program : Program) (diagnostics : Diagnostics) (registry : Registry)
    (config : Config) : Except Fault CompiledScript := do
  let globals ← execute program.assignments .empty
  let entries ← program.rules.mapM (entry registry globals)
  return {
    mapper := ⟨registry, entries⟩
    alpha := config.alpha.getD program.alphaPolicy
    globals := globals
    diagnostics := diagnostics }

/-- Compiles a script for the colour spaces of a registry. -/
def compile (source : String) (registry : Registry) (config : Config := .standard) :
    Except Fault CompiledScript := do
  let lexed ← readTokens source config.strictLexing
  let (program, warnings) ← Program.parse lexed.tokens
  ofProgram program (lexed.diagnostics ++ warnings) registry config

/-- The image must have an alpha band, or have none, if the policy asks for that. -/
def checkAlpha (policy : AlphaPolicy) (image : Raster) : Except Fault Unit :=
  match policy, image.hasAlpha with
  | .require, false => .error (.image .alphaRequired)
  | .forbid, true => .error (.image .alphaForbidden)
  | _, _ => .ok ()

/-- Runs the script on an image. -/
def run (s : CompiledScript) (image : Raster) (caching : Bool) : Except Fault Raster := do
  checkAlpha s.alpha image
  s.mapper.run image caching

/-- Runs the script on an image with other options, whose policy takes the place of the script's. -/
def runWith (s : CompiledScript) (image : Raster) (config : Config) : Except Fault Raster := do
  checkAlpha (config.alpha.getD s.alpha) image
  s.mapper.run image config.enableCache

end CompiledScript

end Recolor
