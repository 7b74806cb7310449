import Parley.Image.Basic

/-! Median filter: the middle one of the bytes around a pixel. -/
namespace Parley.Median

def middle (values : List UInt8) : UInt8 :=
  (values.mergeSort (fun a b => a ≤ b)).getD (values.length / 2) 0

/-- The values of a window of `2 * rx + 1` columns and `2 * ry + 1` rows. -/
def window {α : Type} [Inhabited α] (g : Grid α) (rx ry x y : Nat) : List α :=
  (offsets ry).flatMap fun dy => (offsets rx).map fun dx => g.near x y dx dy

def gray (g : GrayImage) (rx ry : Nat) : GrayImage :=
  Grid.ofFn g.width g.height fun x y => middle (window g rx ry x y)

def rgb (g : RgbImage) (rx ry : Nat) : RgbImage :=
  Grid.ofFn g.width g.height fun x y =>
    let w := window g rx ry x y
    ⟨middle (w.map (·.red)), middle (w.map (·.green)), middle (w.map (·.blue))⟩

end Parley.Median
