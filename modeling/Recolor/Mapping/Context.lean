import Recolor.ColorSpace.Basic

/-!
# Representations of one image

A `Context` answers requests for an image in various colour spaces. It remembers the last
conversion, and with caching every one, so that an image is not converted again where the answer is
at hand. Conversions are remembered by the key of their space.
-/

set_option autoImplicit false

namespace Recolor

/-- An image with the conversions of it that are remembered. `cache` is absent if only the last
conversion is. -/
structure Context where
  image : Raster
  cache : Option (List (String × Raster))
  last : Option (String × Raster) := none
  conversions : Nat := 0

namespace Context

/-- An image of which nothing is known yet. -/
def start (image : Raster) (caching : Bool) : Context :=
  { image := image, cache := if caching then some [] else none }

/-- All conversions are remembered. -/
def caching (c : Context) : Bool := c.cache.isSome

/-- The remembered representation for a key, other than the last one. -/
def cached? (c : Context) (key : String) : Option Raster :=
  c.cache.bind fun entries => entries.lookup key

/-- The last representation, if it is that of the key. -/
def last? (c : Context) (key : String) : Option Raster :=
  match c.last with
  | some (k, r) => if k = key then some r else none
  | none => none

/-- Converts the image, and remembers the result. -/
def convert (c : Context) (space : ColorSpace) : Raster × Context :=
  let r := space.encode c.image
  (r, { c with
    cache := c.cache.map ((space.key, r) :: ·)
    last := some (space.key, r)
    conversions := c.conversions + 1 })

/-- The image in a colour space. The space of red, green and blue is the image itself; otherwise
the last answer is used if it fits, then the remembered ones, and only then the image is
converted. -/
def request (c : Context) (space : ColorSpace) : Raster × Context :=
  if space.isIdentity then (c.image, c)
  else
    match c.last? space.key with
    | some r => (r, c)
    | none =>
      match c.cached? space.key with
      | some r => (r, { c with last := some (space.key, r) })
      | none => c.convert space

end Context

end Recolor
