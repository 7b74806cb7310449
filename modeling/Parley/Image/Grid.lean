/-! Rectangles of pixels, row by row. -/
namespace Parley

structure Grid (α : Type) where
  width : Nat
  height : Nat
  pixels : Array α
  size_eq : pixels.size = width * height

namespace Grid

variable {α β : Type}

/-- The grid whose pixel in column `x` and row `y` is `f x y`. -/
def ofFn (width height : Nat) (f : Nat → Nat → α) : Grid α :=
  { width, height
    pixels := Array.ofFn fun i : Fin (width * height) => f (i.val % width) (i.val / width)
    size_eq := Array.size_ofFn }

/-- The first `width * height` items, as far as there are so many. -/
def ofArray? (width height : Nat) (pixels : Array α) : Option (Grid α) :=
  if h : pixels.size = width * height then some ⟨width, height, pixels, h⟩ else none

def get [Inhabited α] (g : Grid α) (x y : Nat) : α :=
  g.pixels.getD (y * g.width + x) default

def map (g : Grid α) (f : α → β) : Grid β :=
  { width := g.width, height := g.height
    pixels := g.pixels.map f
    size_eq := by simpa using g.size_eq }

def dimensions (g : Grid α) : Nat × Nat :=
  (g.width, g.height)

/-- The place in column `x` and row `y` lies inside these dimensions. -/
def Within (size : Nat × Nat) (x y : Nat) : Prop :=
  x < size.1 ∧ y < size.2

/-- A coordinate moved by an offset and kept inside an extent. -/
def clamp (extent : Nat) (i : Nat) (offset : Int) : Nat :=
  min (i + offset).toNat (extent - 1)

/-- The pixel at an offset; over the edge it is the nearest one inside. -/
def near [Inhabited α] (g : Grid α) (x y : Nat) (dx dy : Int) : α :=
  g.get (clamp g.width x dx) (clamp g.height y dy)

section

variable {width height x y : Nat}

@[simp] theorem dimensions_ofFn (f : Nat → Nat → α) :
    (ofFn width height f).dimensions = (width, height) :=
  rfl

@[simp] theorem dimensions_map (g : Grid α) (f : α → β) : (g.map f).dimensions = g.dimensions :=
  rfl

theorem Within.index_lt (inside : Within (width, height) x y) : y * width + x < width * height :=
  calc y * width + x < y * width + width := Nat.add_lt_add_left inside.1 _
    _ = (y + 1) * width := (Nat.succ_mul y width).symm
    _ ≤ height * width := Nat.mul_le_mul_right width inside.2
    _ = width * height := Nat.mul_comm height width

theorem index_lt (g : Grid α) (inside : Within g.dimensions x y) :
    y * g.width + x < g.pixels.size :=
  g.size_eq ▸ Within.index_lt inside

variable [Inhabited α]

theorem get_ofFn (f : Nat → Nat → α) (inside : Within (width, height) x y) :
    (ofFn width height f).get x y = f x y := by
  have column : (y * width + x) % width = x := by
    rw [Nat.mul_add_mod_self_right, Nat.mod_eq_of_lt inside.1]
  have row : (y * width + x) / width = y := by
    rw [Nat.mul_comm, Nat.mul_add_div (Nat.zero_lt_of_lt inside.1), Nat.div_eq_of_lt inside.1,
      Nat.add_zero]
  simp [get, ofFn, Array.getD, inside.index_lt, column, row]

theorem get_mem (g : Grid α) (inside : Within g.dimensions x y) : g.get x y ∈ g.pixels := by
  simp [get, Array.getD, g.index_lt inside]

theorem get_map [Inhabited β] (g : Grid α) (f : α → β) (inside : Within g.dimensions x y) :
    (g.map f).get x y = f (g.get x y) := by
  simp [get, map, Array.getD, g.index_lt inside]

end

end Grid

/-- The offsets from `-n` to `n`. -/
def offsets (n : Nat) : List Int :=
  (List.range (2 * n + 1)).map fun (i : Nat) => (i : Int) - n

end Parley
