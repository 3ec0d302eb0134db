import Recolor.Image.Raster

/-!
# Images from samples

Decoded images come as samples: levels of 8 or 16 bits, or numbers, for grey or for red, green and
blue, with or without alpha. They become rasters of three or four channels.
-/

set_option autoImplicit false

namespace Recolor

/-- What the samples of a pixel stand for. -/
inductive SampleLayout where
  | grey
  | greyAlpha
  | rgb
  | rgba
deriving DecidableEq, Repr

/-- How a sample is held: as a level out of a greatest level, or as a number. -/
inductive SampleDepth where
  | bits8
  | bits16
  | number
deriving DecidableEq, Repr

namespace SampleLayout

/-- The number of samples of a pixel. -/
def samples : SampleLayout → Nat
  | .grey => 1
  | .greyAlpha => 2
  | .rgb => 3
  | .rgba => 4

/-- The number of channels of the raster. -/
def channels : SampleLayout → Nat
  | .grey | .rgb => 3
  | .greyAlpha | .rgba => 4

/-- The channels of a pixel: a grey level stands for equal red, green and blue. -/
def expand : SampleLayout → Pixel → Pixel
  | .grey, v :: rest => v :: v :: v :: rest
  | .greyAlpha, v :: rest => v :: v :: v :: rest
  | _, p => p

end SampleLayout

/-- The greatest level, for samples that are levels. -/
def SampleDepth.greatest? : SampleDepth → Option Number
  | .bits8 => some 255
  | .bits16 => some 65535
  | .number => none

/-- A level as a share of the greatest one. A grey level is multiplied by the rounded reciprocal, a
level of colour is divided, which can differ in the last place. -/
def SampleLayout.share (layout : SampleLayout) (greatest level : Number) : Number :=
  match layout with
  | .grey | .greyAlpha => level * (1 / greatest)
  | .rgb | .rgba => level / greatest

/-- A sample as a number: levels become shares of the greatest level. -/
def SampleLayout.toNumber (layout : SampleLayout) (depth : SampleDepth) (sample : Number) :
    Number :=
  match depth.greatest? with
  | some greatest => layout.share greatest sample
  | none => sample

/-- The raster of an image of the given size that holds the given samples. -/
def Raster.ofSamples (layout : SampleLayout) (depth : SampleDepth) (width height : Nat)
    (samples : List Number) : Raster :=
  ⟨width, height, layout.channels,
    (pixelsOfData layout.samples (samples.map (layout.toNumber depth))).map layout.expand⟩

end Recolor
