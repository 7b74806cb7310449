import Parley.Image.Basic

/-! Gaussian blur: a weighted mean along the rows, then one along the columns of the result. -/
namespace Parley.Blur

def pi : Float32 :=
  .ofBits 0x40490FDB

def density (x sigma : Float32) : Float32 :=
  1 / ((2 * pi).sqrt * sigma) * (-(x * x) / (2 * (sigma * sigma))).exp

def radius (sigma : Float32) : Nat :=
  (2 * sigma).ceil.toUInt64.toNat

/-- The offsets with their weights, which add up to one. -/
def kernel (sigma : Float32) : List (Int × Float32) :=
  let weights := (offsets (radius sigma)).map fun i => (i, density i.natAbs.toFloat32 sigma)
  let sum := weights.foldl (fun s w => s + w.2) 0
  weights.map fun w => (w.1, w.2 / sum)

/-- The weighted sum of the bytes that `sample` gives at the offsets, cut to a byte. -/
def mean (weights : List (Int × Float32)) (sample : Int → UInt8) : UInt8 :=
  (weights.foldl (fun a w => a + (sample w.1).toFloat32 * w.2) 0).toUInt8

def gray (g : GrayImage) (sigma : Float32) : GrayImage :=
  let k := kernel sigma
  let rows := Grid.ofFn g.width g.height fun x y => mean k fun d => g.near x y d 0
  Grid.ofFn g.width g.height fun x y => mean k fun d => rows.near x y 0 d

/-- Every channel by itself. -/
def meanRgb (weights : List (Int × Float32)) (sample : Int → Rgb) : Rgb :=
  ⟨mean weights fun d => (sample d).red, mean weights fun d => (sample d).green,
    mean weights fun d => (sample d).blue⟩

def rgb (g : RgbImage) (sigma : Float32) : RgbImage :=
  let k := kernel sigma
  let rows := Grid.ofFn g.width g.height fun x y => meanRgb k fun d => g.near x y d 0
  Grid.ofFn g.width g.height fun x y => meanRgb k fun d => rows.near x y 0 d

end Parley.Blur
