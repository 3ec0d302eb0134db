import Recolor.ColorSpace.Bands
import Recolor.Expr.Parser
import Recolor.Evaluation
import Recolor.Mapping.Context
import Recolor.Script.Lexer

/-!
# Maskers, actions and entries

A `Masker` selects pixels by a predicate on the bands of a colour space, an `Action` changes
pixels by a transform of them. Both are either functions of the library's user, or compiled from a
script: then the bands are variables of the space's band names over the global variables, and what
a transform leaves in them is written back. An `Entry` is a masker with its actions.
-/

set_option autoImplicit false

namespace Recolor

/-- How pixels are selected. -/
inductive Predicate where
  | native (select : Bands → Except Fault Mask)
  | compiled (expr : Expr) (globals : Environment)

/-- How pixels are changed. -/
inductive Transform where
  | native (change : Bands → Except Fault Raster)
  | compiled (statements : List Assignment) (globals : Environment)

/-- The predicate is a function, and no script. -/
def Predicate.isNative : Predicate → Bool
  | .native _ => true
  | .compiled _ _ => false

/-- The transform is a function, and no script. -/
def Transform.isNative : Transform → Bool
  | .native _ => true
  | .compiled _ _ => false

namespace Bands

/-- Binds the listed bands as variables of their names. -/
def bindAll (b : Bands) : List String → Environment → Except Fault Environment
  | [], env => .ok env
  | name :: rest, env => do
    let plane ← b.band name
    bindAll b rest (env.bind name (.band plane))

/-- A scope over the global variables in which each band is a variable. -/
def environment (b : Bands) (globals : Environment) : Except Fault Environment :=
  b.bindAll b.names globals.child

/-- Writes what a variable holds into the band of its name. -/
def store (b : Bands) (name : String) : Option Value → Except Fault Bands
  | some (.band plane) => b.setBand name plane
  | some (.number x) => b.fillBand name x
  | some value => .error (.type (.storedKind value.kind name))
  | none => .ok b

/-- Takes the listed variables out of the scope and writes them into their bands. -/
def storeAll : List String → Bands → Environment → Except Fault (Bands × Environment)
  | [], b, env => .ok (b, env)
  | name :: rest, b, env => do
    let (value?, env) := env.take name
    let b ← b.store name value?
    storeAll rest b env

/-- Writes the variables of a scope back into the bands. A variable for alpha is refused if the
image has no such band. -/
def writeBack (b : Bands) (env : Environment) : Except Fault Bands := do
  let (b, env) ← storeAll b.names b env
  if !b.raster.hasAlpha && (env.take alphaName).1.isSome then
    throw (.type (.noAlphaBand b.space.key))
  return b

end Bands

namespace Predicate

/-- The mask that the value of a compiled predicate stands for; a truth value selects all pixels
or none. -/
def maskOfValue (width height : Nat) : Value → Except Fault Mask
  | .mask m => .ok m
  | .boolean b => .ok (Mask.filled width height b)
  | v => .error (.type (.predicateKind v.kind))

/-- The pixels that a predicate selects. -/
def select (p : Predicate) (b : Bands) : Except Fault Mask :=
  match p with
  | .native f => f b
  | .compiled expr globals => do
    let env ← b.environment globals
    let value ← expr.evaluate env
    maskOfValue b.raster.width b.raster.height value

end Predicate

namespace Transform

/-- The image that a transform makes of the bands. -/
def apply (t : Transform) (b : Bands) : Except Fault Raster :=
  match t with
  | .native f => f b
  | .compiled statements globals => do
    let env ← b.environment globals
    let env ← execute statements env
    let b ← b.writeBack env
    return b.raster

end Transform

/-- Selects pixels by a predicate in a colour space. -/
structure Masker where
  predicate : Predicate
  space : ColorSpace

namespace Masker

/-- The masker of a predicate that stands alone, such as `$h in 0 .. 0.1`. -/
def ofSource (space : ColorSpace) (source : String) : Except Fault Masker := do
  let tokens ← tokenizeStrict source
  let expr ← parseExpression tokens
  return ⟨.compiled expr .empty, space⟩

/-- The pixels selected in a representation of an image. A mask of another size is refused. -/
def maskOf (m : Masker) (representation : Raster) : Except Fault Mask := do
  let mask ← m.predicate.select ⟨m.space, representation⟩
  if mask.size = representation.size then return mask
  else throw (.shape (.maskSize mask.size representation.size))

/-- The pixels selected of the image of a context, with the context after the request for its
representation. -/
def mask (m : Masker) (c : Context) : Except Fault Mask × Context :=
  let (representation, c) := c.request m.space
  (m.maskOf representation, c)

end Masker

/-- Changes pixels by a transform in a colour space. -/
structure Action where
  transform : Transform
  space : ColorSpace

namespace Action

/-- Multiplies the numbers of a pixel by the factors, as far as these last. -/
def scalePixel : Pixel → List Number → Pixel
  | x :: xs, f :: fs => x * f :: scalePixel xs fs
  | xs, _ => xs

/-- Scales each band by the factor at its place. -/
def scale (factors : List Number) : Action :=
  ⟨.native fun b => .ok (b.raster.mapPixels (scalePixel · factors)), .rgb⟩

/-- The image that an action makes of red, green and blue pixels. -/
def run (a : Action) (chunk : Raster) : Except Fault Raster := do
  let changed ← a.transform.apply ⟨a.space, a.space.encode chunk⟩
  return a.space.decode changed

end Action

/-- A masker with the actions on the pixels that it selects. -/
structure Entry where
  masker : Masker
  actions : List Action

namespace Entry

/-- Runs the actions one after another. -/
def apply (e : Entry) (chunk : Raster) : Except Fault Raster :=
  e.actions.foldlM (fun chunk a => a.run chunk) chunk

end Entry

end Recolor
