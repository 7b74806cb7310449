import Parley.Image.Edges
import Parley.Image.Median

/-! What the filters with outlines ask of an image library: two views of a picture, two ways to smooth
them, and edge detection. -/
namespace Parley

structure Imaging (Picture : Type) where
  dimensions : Picture → Nat × Nat
  toGray : Picture → GrayImage
  toRgb : Picture → RgbImage
  blur : GrayImage → Float32 → GrayImage
  median : GrayImage → Nat → Nat → GrayImage
  medianRgb : RgbImage → Nat → Nat → RgbImage
  /-- A map of the edges, from a low and a high threshold. -/
  canny : GrayImage → Float32 → Float32 → GrayImage

/-- The operations of this library, on pictures as files hold them. -/
def Imaging.standard : Imaging Image :=
  { dimensions := Image.dimensions
    toGray := Image.toGray
    toRgb := Image.toRgb
    blur := Blur.gray
    median := Median.gray
    medianRgb := Median.rgb
    canny := Edges.canny }

end Parley
