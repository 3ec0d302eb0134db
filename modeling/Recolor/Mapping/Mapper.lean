import Recolor.ColorSpace.Registry
import Recolor.Mapping.Entry

/-!
# Mapping an image

A `Mapper` is a list of entries. A pixel belongs to the first entry that selects it, and the
actions of an entry see all pixels that belong to it, and no others. Pixels that no entry selects
stay as they are.
-/

set_option autoImplicit false

namespace Recolor

/-- Entries in the order in which they take pixels. -/
structure Mapper where
  registry : Registry := .standard
  entries : List Entry := []

namespace Mapper

/-- Splits the pixels that are left among the entries: each gets what it selects of them. Answers
the pixels of each entry, and those that are left at the end. -/
def partition : List Entry → Context → Mask → Except Fault (List (Mask × Entry) × Mask)
  | [], _, remaining => .ok ([], remaining)
  | e :: rest, c, remaining =>
    match e.masker.mask c with
    | (.error fault, _) => .error fault
    | (.ok mask, c) => do
      let matched ← remaining.and mask
      let left ← remaining.and matched.complement
      let (more, unmatched) ← partition rest c left
      return ((matched, e) :: more, unmatched)

/-- Copies the selected pixels of the image, and changes them by the actions of their entry. -/
def recolour (image output : Raster) (part : Mask × Entry) : Except Fault Raster :=
  let (selection, entry) := part
  let output := output.copySelected image selection
  if entry.actions.isEmpty || !selection.any then .ok output
  else do
    let chunk ← entry.apply (output.gather selection)
    output.scatter selection chunk

/-- Images to be mapped have three bands, or four with alpha. -/
def requireMappable (image : Raster) : Except Fault Unit :=
  if image.channels = 3 ∨ image.channels = 4 then .ok ()
  else .error (.image (.notMappable image.channels))

/-- The image with the pixels of each entry changed by its actions. -/
def run (m : Mapper) (image : Raster) (caching : Bool) : Except Fault Raster := do
  requireMappable image
  let everything := Mask.filled image.width image.height true
  let (parts, rest) ← partition m.entries (.start image caching) everything
  let blank := Raster.zero image.width image.height image.channels
  let output ← parts.foldlM (recolour image) blank
  return output.copySelected image rest

end Mapper

end Recolor
