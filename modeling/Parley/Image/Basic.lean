import Parley.Image.Grid

/-! Images in the colour models that files come in. -/
namespace Parley

structure Rgb where
  red : UInt8
  green : UInt8
  blue : UInt8
  deriving DecidableEq, Repr, Inhabited

abbrev GrayImage := Grid UInt8

abbrev RgbImage := Grid Rgb

inductive Image where
  | gray (g : GrayImage)
  | grayAlpha (g : Grid (UInt8 × UInt8))
  | rgb (g : RgbImage)
  | rgba (g : Grid (Rgb × UInt8))

namespace Rgb

def ofGray (v : UInt8) : Rgb :=
  ⟨v, v, v⟩

def map (f : UInt8 → UInt8) (p : Rgb) : Rgb :=
  ⟨f p.red, f p.green, f p.blue⟩

/-- The weights of the channels in the brightness of a colour. -/
def lumaWeights : Float32 × Float32 × Float32 :=
  (.ofBits 0x3E59C05B, .ofBits 0x3F3715FC, .ofBits 0x3D93CF75)

def luma (p : Rgb) : UInt8 :=
  let unit : Float32 := 1 / 255
  let (kr, kg, kb) := lumaWeights
  let a : Float32 := 0 + p.red.toFloat32 * unit * kr
  let a := a + p.green.toFloat32 * unit * kg
  let a := a + p.blue.toFloat32 * unit * kb
  (a * 255).round.toUInt8

end Rgb

namespace Image

def dimensions : Image → Nat × Nat
  | .gray g => g.dimensions
  | .grayAlpha g => g.dimensions
  | .rgb g => g.dimensions
  | .rgba g => g.dimensions

def toRgb : Image → RgbImage
  | .gray g => g.map Rgb.ofGray
  | .grayAlpha g => g.map fun p => Rgb.ofGray p.1
  | .rgb g => g
  | .rgba g => g.map (·.1)

def toGray : Image → GrayImage
  | .gray g => g
  | .grayAlpha g => g.map (·.1)
  | .rgb g => g.map Rgb.luma
  | .rgba g => g.map fun p => p.1.luma

end Image

end Parley
