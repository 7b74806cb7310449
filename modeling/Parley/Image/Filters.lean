import Parley.Image.Imaging

/-! The filters of the image tools. -/
namespace Parley.Filter

/-- White becomes black. -/
def invert (g : GrayImage) : GrayImage :=
  g.map (255 - ·)

/-- A number cut to a byte after rounding. -/
def toByte (v : Float32) : UInt8 :=
  v.round.toUInt8

/-- A gray picture with its edges drawn black. -/
def darken (blurred edges : GrayImage) : GrayImage :=
  let lines := invert edges
  Grid.ofFn blurred.width blurred.height fun x y => min (blurred.get x y) (lines.get x y)

/-- A softened gray picture with dark outlines, by any image library. -/
def grayEdgesBy {Picture : Type} (lib : Imaging Picture) (img : Picture) : GrayImage :=
  let blurred := lib.blur (lib.toGray img) 0.8
  darken blurred (lib.canny blurred 40 100)

def grayEdges (img : Image) : GrayImage :=
  grayEdgesBy .standard img

def defaultStrength : Float32 := 0.4

/-- The byte between two, `weight` of the way from the first to the second. -/
def blend (weight : Float32) (sharp soft : UInt8) : UInt8 :=
  toByte (sharp.toFloat32 * (1 - weight) + soft.toFloat32 * weight)

/-- Blends a blurred copy over the areas away from edges. -/
def beautify (img : Image) (strength : Float32) : RgbImage :=
  let src := img.toRgb
  let mask := Blur.gray (invert (Edges.canny img.toGray 30 90)) 1.0
  let smoothed := Blur.rgb src (1 + strength * 2)
  Grid.ofFn src.width src.height fun x y =>
    let weight := (mask.get x y).toFloat32 / 255
    let a := src.get x y
    let b := smoothed.get x y
    ⟨blend weight a.red b.red, blend weight a.green b.green, blend weight a.blue b.blue⟩

/-- The middle of the band of 32 values that holds `v`. -/
def posterize (v : UInt8) : UInt8 :=
  v / 32 * 32 + 16

def black : Rgb :=
  ⟨0, 0, 0⟩

/-- Flat colours, and black where there are edges. -/
def flatten (smooth : RgbImage) (edges : GrayImage) : RgbImage :=
  Grid.ofFn smooth.width smooth.height fun x y =>
    if edges.get x y > 0 then black else (smooth.get x y).map posterize

/-- Flat colours with black outlines, by any image library. -/
def cartoonifyBy {Picture : Type} (lib : Imaging Picture) (img : Picture) : RgbImage :=
  flatten (lib.medianRgb (lib.toRgb img) 2 2) (lib.canny (lib.median (lib.toGray img) 3 3) 5 10)

def cartoonify (img : Image) : RgbImage :=
  cartoonifyBy .standard img

/-- A colour in single precision. -/
structure Tone where
  red : Float32
  green : Float32
  blue : Float32

namespace Tone

def ofRgb (p : Rgb) : Tone :=
  ⟨p.red.toFloat32, p.green.toFloat32, p.blue.toFloat32⟩

def mix (a b : Tone) (t : Float32) : Tone :=
  ⟨a.red + (b.red - a.red) * t, a.green + (b.green - a.green) * t, a.blue + (b.blue - a.blue) * t⟩

def toRgb (t : Tone) : Rgb :=
  ⟨toByte t.red, toByte t.green, toByte t.blue⟩

def shadow : Tone := ⟨12, 16, 72⟩

def midtone : Tone := ⟨214, 38, 176⟩

def highlight : Tone := ⟨110, 236, 255⟩

end Tone

def clampUnit (v : Float32) : Float32 :=
  if v < 0 then 0 else if v > 1 then 1 else v

/-- Brightness picks a tone between shadow, midtone and highlight; a quarter of the colour is mixed
back in. -/
def recolor (p : Rgb) : Rgb :=
  let c := Tone.ofRgb p
  let luma := (0.2126 * c.red + 0.7152 * c.green + 0.0722 * c.blue) / 255
  let luma := clampUnit ((luma - 0.5) * 1.3 + 0.5)
  let tone :=
    if luma < 0.5 then Tone.shadow.mix .midtone (luma * 2)
    else Tone.midtone.mix .highlight ((luma - 0.5) * 2)
  (tone.mix c 0.25).toRgb

def cyberpunk (img : Image) : RgbImage :=
  img.toRgb.map recolor

end Parley.Filter
