import Recolor.Image.Plane

/-!
# Rasters

A `Raster` is an image: its pixels row by row, each pixel the list of its channel values. An image
without channels has no pixels to list, whatever its width and height.

Pixels selected by a mask can be taken out into a one-row image (`gather`), and an image of as many
pixels can be put back in their place (`scatter`).
-/

set_option autoImplicit false

namespace Recolor

/-- The channel values of a pixel. -/
abbrev Pixel := List Number

/-- The band that holds the alpha values of an image that has them. -/
def alphaBand : Nat := 3

/-- An image of `channels` numbers a pixel. -/
structure Raster where
  width : Nat
  height : Nat
  channels : Nat
  pixels : List Pixel

/-- Cuts a list into pieces of `n + 1` items; an incomplete last piece is dropped. -/
def chunksOfSucc (n : Nat) : Nat → List Number → List Pixel
  | 0, _ => []
  | fuel + 1, xs =>
    if xs.length ≤ n then [] else xs.take (n + 1) :: chunksOfSucc n fuel (xs.drop (n + 1))

/-- The items that stand at selected places. -/
def selected {α : Type} : List Bool → List α → List α
  | b :: bs, x :: xs => if b then x :: selected bs xs else selected bs xs
  | _, _ => []

/-- Puts new items in order at the selected places, as far as they last. -/
def replaceSelected {α : Type} : List Bool → List α → List α → List α
  | true :: bs, _ :: xs, y :: ys => y :: replaceSelected bs xs ys
  | false :: bs, x :: xs, ys => x :: replaceSelected bs xs ys
  | _, xs, _ => xs

/-- Takes the items at selected places from the second list and the others from the first. -/
def chooseSelected {α : Type} : List Bool → List α → List α → List α
  | b :: bs, x :: xs, y :: ys => (if b then y else x) :: chooseSelected bs xs ys
  | _, xs, _ => xs

namespace Raster

/-- Each pixel has `channels` values, and unless that is none there is a pixel for each place. -/
def WellFormed (r : Raster) : Prop :=
  (∀ p ∈ r.pixels, p.length = r.channels) ∧
    r.pixels.length = if r.channels = 0 then 0 else r.width * r.height

/-- The channel values of all pixels in one list. -/
def data (r : Raster) : List Number := r.pixels.flatten

/-- The image that is zero everywhere. -/
def zero (width height channels : Nat) : Raster :=
  ⟨width, height, channels,
    List.replicate (if channels = 0 then 0 else width * height) (List.replicate channels 0)⟩

/-- Cuts the values of all pixels into pixels. -/
def pixelsOfData : Nat → List Number → List Pixel
  | 0, _ => []
  | n + 1, data => chunksOfSucc n data.length data

/-- The image with the given values, of which there must be as many as its size asks for. -/
def ofData (width height channels : Nat) (data : List Number) : Except Fault Raster :=
  if data.length = width * height * channels then
    .ok ⟨width, height, channels, pixelsOfData channels data⟩
  else .error (.image (.bufferLength data.length width height channels))

/-- The image with the given values and the shape `[height, width, channels]`. -/
def ofShape (shape : List Nat) (data : List Number) : Except Fault Raster :=
  match shape with
  | [height, width, channels] => ofData width height channels data
  | _ => .error (.image (.dimensions shape.length))

/-- The image with the given pixels of `channels` values. -/
def ofPixels (width height channels : Nat) (pixels : List Pixel) : Except Fault Raster :=
  ofData width height channels pixels.flatten

/-- Height, width and number of channels. -/
def shape (r : Raster) : List Nat := [r.height, r.width, r.channels]

/-- Width and height. -/
def size (r : Raster) : Nat × Nat := (r.width, r.height)

/-- The number of places for pixels. -/
def area (r : Raster) : Nat := r.width * r.height

/-- There is no place for a pixel. -/
def isEmpty (r : Raster) : Bool := r.area == 0

/-- The image has an alpha band. -/
def hasAlpha (r : Raster) : Bool := alphaBand < r.channels

/-- Equal sizes and equal numbers everywhere. -/
def same (r s : Raster) : Bool :=
  r.width == s.width && r.height == s.height && r.channels == s.channels
    && Number.sameList r.data s.data

/-- The channel values at a column and a row. -/
def pixel (r : Raster) (x y : Nat) : Pixel := r.pixels.getD (y * r.width + x) []

/-- The image must have the band. -/
def requireBand (r : Raster) (band : Nat) : Except Fault Unit :=
  if band < r.channels then .ok () else .error (.image (.missingBand band r.channels))

/-- The values of one band. -/
def band (r : Raster) (band : Nat) : Except Fault Plane := do
  r.requireBand band
  return ⟨r.width, r.height, r.pixels.map (·.getD band 0)⟩

/-- Writes a number into one band of each pixel, as far as the numbers last. -/
def writeBand (band : Nat) : List Pixel → List Number → List Pixel
  | p :: ps, x :: xs => p.set band x :: writeBand band ps xs
  | ps, _ => ps

/-- The image with one band replaced by a plane of its size. -/
def setBand (r : Raster) (band : Nat) (plane : Plane) : Except Fault Raster := do
  r.requireBand band
  if plane.size = r.size then
    return { r with pixels := writeBand band r.pixels plane.values }
  else throw (.shape (.bandSize plane.size r.size))

/-- The image with one number everywhere in a band. -/
def fillBand (r : Raster) (band : Nat) (x : Number) : Except Fault Raster := do
  r.requireBand band
  return { r with pixels := r.pixels.map (·.set band x) }

/-- The selected pixels as an image of one row. -/
def gather (r : Raster) (m : Mask) : Raster :=
  let pixels := selected m.bits r.pixels
  ⟨pixels.length, 1, r.channels, pixels⟩

/-- The image with the selected pixels replaced, in order, by those of another. The other must
have as many channels, and as many pixels as are selected. -/
def scatter (r : Raster) (m : Mask) (chunk : Raster) : Except Fault Raster :=
  if chunk.channels = r.channels ∧ chunk.area = m.count then
    .ok { r with pixels := replaceSelected m.bits r.pixels chunk.pixels }
  else .error (.shape (.chunkSize chunk.area chunk.channels m.count r.channels))

/-- The image with the selected pixels taken from another of the same shape. -/
def copySelected (r source : Raster) (m : Mask) : Raster :=
  { r with pixels := chooseSelected m.bits r.pixels source.pixels }

/-- Applies `f` to every pixel. -/
def mapPixels (f : Pixel → Pixel) (r : Raster) : Raster := { r with pixels := r.pixels.map f }

/-- Red, green, blue and alpha of a pixel as levels from 0 to 255, alpha being full if absent. -/
def levels (p : Pixel) : List Nat :=
  [p.getD 0 0, p.getD 1 0, p.getD 2 0, p.getD alphaBand 1].map Number.toByte

/-- The levels of all pixels, for images with at least three channels. -/
def toLevels (r : Raster) : Except Fault (List Nat) :=
  if r.channels < 3 then .error (.image (.notExportable r.channels))
  else .ok (r.pixels.flatMap levels)

end Raster

end Recolor
