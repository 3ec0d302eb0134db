import Recolor.Number.Basic

/-!
# Colour conversions

Conversions between red, green and blue and other descriptions of a colour, each on the three
numbers of one pixel. The white point of the standard observer spaces is that of daylight. Results
are brought into the range that the description has.
-/

set_option autoImplicit false

namespace Recolor

/-- The three numbers of a colour. -/
structure Triple where
  first : Number
  second : Number
  third : Number

namespace Triple

/-- Applies `f` to the three numbers. -/
def map (f : Number → Number) (t : Triple) : Triple := ⟨f t.first, f t.second, f t.third⟩

/-- The sum of the products of the numbers at each place. -/
def dot (s t : Triple) : Number := s.first * t.first + s.second * t.second + s.third * t.third

/-- The three numbers of `s` weighted by those of `t`. -/
def times (s t : Triple) : Triple := ⟨s.first * t.first, s.second * t.second, s.third * t.third⟩

end Triple

/-- Three rows of three numbers. -/
structure Matrix where
  top : Triple
  middle : Triple
  bottom : Triple

namespace Matrix

/-- The matrix applied to a column. -/
def timesColumn (m : Matrix) (t : Triple) : Triple :=
  ⟨m.top.dot t, m.middle.dot t, m.bottom.dot t⟩

/-- A row applied to the matrix. -/
def rowTimes (t : Triple) (m : Matrix) : Triple :=
  ⟨t.dot ⟨m.top.first, m.middle.first, m.bottom.first⟩,
    t.dot ⟨m.top.second, m.middle.second, m.bottom.second⟩,
    t.dot ⟨m.top.third, m.middle.third, m.bottom.third⟩⟩

end Matrix

namespace Conversion

/-- The greatest number brought in where the colour has it, and the least: hue runs over one turn
of 360 degrees. -/
def turn : Number := 360

/-- The least number above zero of full precision. -/
def leastNormal : Number := Float32.ofBits 0x00800000

/-- The same angle in degrees, from zero up to a full turn. -/
def normalizeHue (degrees : Number) : Number :=
  let h := degrees - Number.floor (degrees / turn) * turn
  if turn ≤ h then 0 else if h < leastNormal then 0 else h

/-- The sector of the hue, from 0 up to 6, of a colour whose greatest and least number differ by
`spread`. -/
def hueSector (c : Triple) (spread : Number) : Number :=
  if c.first < c.third ∧ c.second < c.third then (c.first - c.second) / spread + 4
  else if c.second < c.first then (c.second - c.third) / spread
  else (c.third - c.first) / spread + 2

/-- Hue, as a share of a full turn, saturation and value of a colour. -/
def hsvOfRgb (rgb : Triple) : Triple :=
  let c := rgb.map (Number.atLeast 0)
  let greatest := Number.atLeast c.first (Number.atLeast c.second c.third)
  let least := if c.first < c.second then c.first else c.second
  let least := if least < c.third then least else c.third
  let spread := greatest - least
  if Number.same greatest least then ⟨0, 0, Number.clampUnit greatest⟩
  else
    ⟨normalizeHue (hueSector c spread * 60) / turn, Number.clampUnit (spread / greatest),
      Number.clampUnit greatest⟩

/-- The magnitude of a number. -/
def magnitude (x : Number) : Number := if x < 0 then -x else x

/-- The colour of a hue, given as a share of a full turn, a saturation and a value. -/
def rgbOfHsv (hsv : Triple) : Triple :=
  let h := normalizeHue (hsv.first * turn) / 60
  let c := hsv.third * hsv.second
  let x := c * (1 - magnitude (Number.modulo h 2 - 1))
  let m := hsv.third - c
  let rgb : Triple :=
    if h < 1 then ⟨c, x, 0⟩
    else if h < 2 then ⟨x, c, 0⟩
    else if h < 3 then ⟨0, c, x⟩
    else if h < 4 then ⟨0, x, c⟩
    else if h < 5 then ⟨x, 0, c⟩
    else ⟨c, 0, x⟩
  rgb.map fun v => Number.clampUnit (v + m)

/-- The white point. -/
def white : Triple := ⟨0.95047, 1.0, 1.08883⟩

/-- The intensity of light that an encoded level stands for. -/
def intensityOfLevel (c : Number) : Number :=
  if c ≤ 0.04045 then c / 12.92 else Float32.pow ((c + 0.055) / 1.055) 2.4

/-- The encoded level that stands for an intensity of light. -/
def levelOfIntensity (c : Number) : Number :=
  if c ≤ 0.0031308 then 12.92 * c else 1.055 * Float32.pow c (1.0 / 2.4) - 0.055

/-- From intensities of red, green and blue to the standard observer. -/
def observerMatrix : Matrix :=
  ⟨⟨0.4124564, 0.3575761, 0.1804375⟩, ⟨0.2126729, 0.7151522, 0.0721750⟩,
    ⟨0.0193339, 0.1191920, 0.9503041⟩⟩

/-- From the standard observer to intensities of red, green and blue. -/
def primariesMatrix : Matrix :=
  ⟨⟨3.2404542, -1.5371385, -0.4985314⟩, ⟨-0.9692660, 1.8760108, 0.0415560⟩,
    ⟨0.0556434, -0.2040259, 1.0572252⟩⟩

/-- The standard observer's description of a colour, before it is brought into range. -/
def observe (rgb : Triple) : Triple := observerMatrix.timesColumn (rgb.map intensityOfLevel)

/-- The colour of a standard observer's description. -/
def rgbOfXyz (xyz : Triple) : Triple :=
  (primariesMatrix.timesColumn xyz).map fun c => Number.clampUnit (levelOfIntensity c)

/-- The standard observer's description of a colour. -/
def xyzOfRgb (rgb : Triple) : Triple :=
  let xyz := observe rgb
  ⟨Number.clamp 0 white.first xyz.first, Number.clamp 0 white.second xyz.second,
    Number.clamp 0 white.third xyz.third⟩

/-- The number below which cube roots are replaced by a line. -/
def rootThreshold : Number := 6.0 / 29.0

/-- The cube root, replaced by a line near zero. -/
def softRoot (t : Number) : Number :=
  if rootThreshold * rootThreshold * rootThreshold < t then Float32.cbrt t
  else 841.0 / 108.0 * t + 4.0 / 29.0

/-- The cube, replaced by a line near zero. -/
def softCube (c : Number) : Number :=
  if rootThreshold < c then c * c * c else (c - 4.0 / 29.0) * (108.0 / 841.0)

/-- Lightness and the two opponent colours of a colour. -/
def labOfRgb (rgb : Triple) : Triple :=
  let xyz := observe rgb
  let x := softRoot (xyz.first / white.first)
  let y := softRoot (xyz.second / white.second)
  let z := softRoot (xyz.third / white.third)
  ⟨Number.clamp 0 100 (116 * y - 16), Number.clamp (-128) 127 (500 * (x - y)),
    Number.clamp (-128) 127 (200 * (y - z))⟩

/-- The colour of a lightness and two opponent colours. -/
def rgbOfLab (lab : Triple) : Triple :=
  let y := (lab.first + 16) / 116
  let x := y + lab.second / 500
  let z := y - lab.third / 200
  rgbOfXyz (white.times ⟨softCube x, softCube y, softCube z⟩)

/-- The sum of a standard observer's description to which chromaticity is relative. -/
def chromaticSum (xyz : Triple) : Number := xyz.first + 15 * xyz.second + 3 * xyz.third

/-- The chromaticity, on two axes, of a standard observer's description other than black. It is
found with the reciprocal of the sum, which is infinite for the least sums. -/
def chromaticity (xyz : Triple) : Number × Number :=
  let share := 1 / chromaticSum xyz
  (4 * xyz.first * share, 9 * xyz.second * share)

/-- The slope of lightness near black. -/
def lightnessSlope : Number := (29.0 / 3.0) * (29.0 / 3.0) * (29.0 / 3.0)

/-- Lightness and the chromaticity relative to white of a colour. -/
def luvOfRgb (rgb : Triple) : Triple :=
  let xyz := observe rgb
  if Number.same (chromaticSum xyz) 0 then ⟨0, 0, 0⟩
  else
    let (u, v) := chromaticity xyz
    let (whiteU, whiteV) := chromaticity white
    let y := xyz.second
    let l :=
      if rootThreshold * rootThreshold * rootThreshold < y then 116 * Float32.pow y (1.0 / 3.0) - 16
      else lightnessSlope * y
    ⟨Number.clamp 0 100 l, Number.clamp (-84) 176 (13 * l * (u - whiteU)),
      Number.clamp (-135) 108 (13 * l * (v - whiteV))⟩

/-- The colour of a lightness and a chromaticity relative to white. -/
def rgbOfLuv (luv : Triple) : Triple :=
  let l := luv.first
  if l < 1e-5 then rgbOfXyz ⟨0, 0, 0⟩
  else
    let root := (l + 16) / 116
    let y := if 8 < l then root * root * root else l / lightnessSlope
    let (whiteU, whiteV) := chromaticity white
    let u := luv.second / (13 * l) + whiteU
    let v := luv.third / (13 * l) + whiteV
    rgbOfXyz ⟨2.25 * y * u / v, y, y * (3 - 0.75 * u - 5 * v) / v⟩

/-- How much of each colour the three stains absorb, one row a stain. -/
def stainMatrix : Matrix :=
  ⟨⟨0.65, 0.70, 0.29⟩, ⟨0.07, 0.99, 0.11⟩, ⟨0.27, 0.57, 0.78⟩⟩

/-- From absorbed colour to the amounts of the three stains. -/
def absorptionMatrix : Matrix :=
  ⟨⟨1.8779827, -1.0076787, -0.5561158⟩, ⟨-0.06590806, 1.1347304, -0.1355218⟩,
    ⟨-0.6019074, -0.4804142, 1.5735881⟩⟩

/-- The least intensity of light told apart from darkness. -/
def leastIntensity : Number := 1e-6

/-- The amounts of the stains haematoxylin, eosin and DAB that give a colour. -/
def hedOfRgb (rgb : Triple) : Triple :=
  let scale := Float32.log leastIntensity
  let density := rgb.map fun c => Float32.log (Number.atLeast leastIntensity c) / scale
  (Matrix.rowTimes density absorptionMatrix).map (Number.atLeast 0)

/-- The colour that amounts of the three stains give. -/
def rgbOfHed (hed : Triple) : Triple :=
  let scale := -Float32.log leastIntensity
  (Matrix.rowTimes (hed.map fun s => -s * scale) stainMatrix).map fun c =>
    Number.clampUnit (Float32.exp c)

end Conversion

end Recolor
