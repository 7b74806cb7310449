import Parley.Image.Blur

/-! Canny edge detection: blur, gradient, thinning, and tracing from strong edges along weak ones. -/
namespace Parley.Edges

structure Gradient where
  dx : Int
  dy : Int
  deriving Inhabited

def sobel (g : GrayImage) (x y : Nat) : Gradient :=
  let p := fun (i j : Int) => ((g.near x y i j).toNat : Int)
  let dx : Int := p 1 (-1) - p (-1) (-1) + 2 * (p 1 0 - p (-1) 0) + (p 1 1 - p (-1) 1)
  let dy : Int := p (-1) 1 - p (-1) (-1) + 2 * (p 0 1 - p 0 (-1)) + (p 1 1 - p 1 (-1))
  ⟨dx, dy⟩

def toFloat32 (i : Int) : Float32 :=
  if i < 0 then -i.natAbs.toFloat32 else i.natAbs.toFloat32

def Gradient.strength (v : Gradient) : Float32 :=
  (v.dx * v.dx + v.dy * v.dy).natAbs.toFloat32.sqrt

/-- In degrees from 0 to 180. -/
def Gradient.angle (v : Gradient) : Float32 :=
  let a := Float32.atan2 (toFloat32 v.dy) (toFloat32 v.dx) * (180 / Blur.pi)
  if a < 0 then a + 180 else a

/-- The two neighbours across an edge with a gradient of this angle. -/
def across (angle : Float32) : (Int × Int) × (Int × Int) :=
  if angle ≥ 157.5 || angle < 22.5 then ((-1, 0), (1, 0))
  else if angle < 67.5 then ((1, 1), (-1, -1))
  else if angle < 112.5 then ((0, -1), (0, 1))
  else ((-1, 1), (1, -1))

def isInner (width height x y : Nat) : Bool :=
  1 ≤ x && x + 1 < width && 1 ≤ y && y + 1 < height

/-- Keeps the strength of a pixel that no neighbour across the edge exceeds. -/
def thin (strengths : Grid Float32) (angles : Grid Float32) : Grid Float32 :=
  Grid.ofFn strengths.width strengths.height fun x y =>
    if isInner strengths.width strengths.height x y then
      let g := strengths.get x y
      let (a, b) := across (angles.get x y)
      if g < strengths.near x y a.1 a.2 || g < strengths.near x y b.1 b.2 then 0 else g
    else 0

/-- The neighbours that an edge is traced to. -/
def steps : List (Int × Int) :=
  [(1, 0), (1, 1), (0, 1), (-1, -1), (-1, 0), (-1, 1)]

/-- Marks the weak neighbours of the pixels on the stack, and theirs in turn. A pixel is put on the
stack when it is marked, so `fuel` may be the number of pixels. -/
def trace (strengths : Grid Float32) (low : Float32) :
    Nat → List (Nat × Nat) → Array Bool → Array Bool
  | 0, _, marks => marks
  | _, [], marks => marks
  | fuel + 1, (x, y) :: stack, marks =>
    let (stack, marks) := steps.foldl (fun (stack, marks) d =>
      let u := ((x : Int) + d.1).toNat
      let v := ((y : Int) + d.2).toNat
      let i := v * strengths.width + u
      if strengths.get u v ≥ low && !marks.getD i true then
        ((u, v) :: stack, marks.set! i true)
      else (stack, marks)) (stack, marks)
    trace strengths low fuel stack marks

def marks (strengths : Grid Float32) (low high : Float32) : Array Bool :=
  let size := strengths.width * strengths.height
  (List.range size).foldl (fun marks i =>
    let x := i % strengths.width
    let y := i / strengths.width
    if isInner strengths.width strengths.height x y && strengths.get x y ≥ high
        && !marks.getD i true then
      trace strengths low size [(x, y)] (marks.set! i true)
    else marks) (Array.replicate size false)

/-- Edges are white on black. -/
def canny (g : GrayImage) (low high : Float32) : GrayImage :=
  let gradients := let b := Blur.gray g 1.4; Grid.ofFn g.width g.height (sobel b)
  let thinned := thin (gradients.map Gradient.strength) (gradients.map Gradient.angle)
  let marked := marks thinned low high
  Grid.ofFn g.width g.height fun x y =>
    if marked.getD (y * g.width + x) false then 255 else 0

end Parley.Edges
