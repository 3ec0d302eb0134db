import Recolor.ColorSpace.Conversion
import Recolor.Image.Raster

/-!
# Colour spaces

A `ColorSpace` is a way to describe images: conversions from red, green and blue and back, and
names for its three bands. A fourth band holds alpha in every space. Spaces are told apart by their
keys, and the space with the key of red, green and blue is taken to need no conversion.
-/

set_option autoImplicit false

namespace Recolor

/-- The name of the alpha band in every colour space. -/
def alphaName : String := "alpha"

/-- A description of images by three named bands. -/
structure ColorSpace where
  key : String
  components : Vector String 3
  encode : Raster → Raster
  decode : Raster → Raster

namespace ColorSpace

/-- The key of the space of red, green and blue. -/
def identityKey : String := "rgb"

/-- Images are in this space already. -/
def isIdentity (s : ColorSpace) : Bool := s.key == identityKey

/-- The names of the first three bands. -/
def bandNames (s : ColorSpace) : List String := s.components.toList

/-- Two spaces with one key are the same space. -/
def same (s t : ColorSpace) : Bool := s.key == t.key

/-- The band that a name stands for. -/
def bandIndex? (s : ColorSpace) (name : String) : Option Nat :=
  if name = alphaName then some alphaBand else s.bandNames.findIdx? (· == name)

/-- Applies a conversion to the first three numbers of a pixel; further ones stay. -/
def convertPixel (f : Triple → Triple) : Pixel → Pixel
  | a :: b :: c :: rest =>
    let t := f ⟨a, b, c⟩
    t.first :: t.second :: t.third :: rest
  | p => p

/-- The space with the given conversions of the first three numbers of each pixel. -/
def ofConversions (key : String) (components : Vector String 3) (encode decode : Triple → Triple) :
    ColorSpace :=
  ⟨key, components, Raster.mapPixels (convertPixel encode),
    Raster.mapPixels (convertPixel decode)⟩

/-- Red, green and blue. -/
def rgb : ColorSpace := ⟨identityKey, #v["r", "g", "b"], id, id⟩

/-- Hue, saturation and value. -/
def hsv : ColorSpace :=
  ofConversions "hsv" #v["h", "s", "v"] Conversion.hsvOfRgb Conversion.rgbOfHsv

/-- The standard observer's description. -/
def xyz : ColorSpace :=
  ofConversions "xyz" #v["x", "y", "z"] Conversion.xyzOfRgb Conversion.rgbOfXyz

/-- Lightness and two opponent colours. -/
def lab : ColorSpace :=
  ofConversions "lab" #v["l", "a", "b"] Conversion.labOfRgb Conversion.rgbOfLab

/-- Lightness and chromaticity. -/
def luv : ColorSpace :=
  ofConversions "luv" #v["l", "u", "v"] Conversion.luvOfRgb Conversion.rgbOfLuv

/-- Amounts of the stains haematoxylin, eosin and DAB. -/
def hed : ColorSpace :=
  ofConversions "hed" #v["h", "e", "d"] Conversion.hedOfRgb Conversion.rgbOfHed

/-- The spaces that are always at hand. -/
def standard : List ColorSpace := [rgb, hsv, xyz, lab, luv, hed]

end ColorSpace

end Recolor
