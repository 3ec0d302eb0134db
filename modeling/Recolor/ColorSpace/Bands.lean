import Recolor.ColorSpace.Basic
import Recolor.Value.Basic

/-!
# Named bands

`Bands` is an image in a colour space, whose bands are read, tested and written by their names.
-/

set_option autoImplicit false

namespace Recolor

/-- What the numbers of bands are compared with: one number, one for each band, or a range. -/
inductive MaskValue where
  | number (x : Number)
  | tuple (xs : List Number)
  | range (r : Range)

namespace MaskValue

/-- The comparison that a value of the language stands for. -/
def ofValue : Value → Except Fault MaskValue
  | .number x => .ok (.number x)
  | .vector items => .ok (.tuple items)
  | .range r => .ok (.range r)
  | v => .error (.type (.maskValueKind v.kind))

/-- A tuple must have as many numbers as there are bands. -/
def checkLength (value : MaskValue) (bands : Nat) : Except Fault Unit :=
  match value with
  | .tuple xs =>
    if xs.length = bands then .ok () else .error (.type (.tupleLength xs.length bands))
  | _ => .ok ()

/-- The comparison for the band at a place in the list of bands. -/
def testAt (value : MaskValue) (place : Nat) : Number → Bool :=
  match value with
  | .number x => fun v => Number.same v x
  | .tuple xs => fun v => Number.same v (xs.getD place 0)
  | .range r => r.contains

end MaskValue

/-- An image in a colour space. -/
structure Bands where
  space : ColorSpace
  raster : Raster

namespace Bands

/-- The band that a name stands for, where there must be one. -/
def index (b : Bands) (name : String) : Except Fault Nat :=
  match b.space.bandIndex? name with
  | some i => .ok i
  | none => .error (.type (.unknownBand b.space.key name b.space.bandNames))

/-- The values of a band. -/
def band (b : Bands) (name : String) : Except Fault Plane := do
  let i ← b.index name
  b.raster.band i

/-- The names of the bands of the space, and that of alpha if the image has it. -/
def names (b : Bands) : List String :=
  b.space.bandNames ++ (if b.raster.hasAlpha then [alphaName] else [])

/-- Narrows a mask to the positions at which the bands, the first of which stands at `place`,
pass their tests. -/
def narrow (b : Bands) (value : MaskValue) : Nat → List String → Mask → Except Fault Mask
  | _, [], m => .ok m
  | place, name :: rest, m => do
    let plane ← b.band name
    let both ← m.and (plane.test (value.testAt place))
    narrow b value (place + 1) rest both

/-- The positions at which all listed bands pass their tests. -/
def mask (b : Bands) (names : List String) (value : MaskValue) : Except Fault Mask := do
  if names.isEmpty then throw (.type .noMaskBands)
  value.checkLength names.length
  b.narrow value 0 names (Mask.filled b.raster.width b.raster.height true)

/-- The image with a band replaced. -/
def setBand (b : Bands) (name : String) (plane : Plane) : Except Fault Bands := do
  let i ← b.index name
  let raster ← b.raster.setBand i plane
  return { b with raster := raster }

/-- The image with one number everywhere in a band. -/
def fillBand (b : Bands) (name : String) (x : Number) : Except Fault Bands := do
  let i ← b.index name
  let raster ← b.raster.fillBand i x
  return { b with raster := raster }

end Bands

end Recolor
