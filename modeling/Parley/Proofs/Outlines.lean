import Mathlib.Data.List.Sort
import Parley.Image.Filters

/-! Outlines and flat colours. Where its edge map is set, a filter draws black; elsewhere it shows the
smoothed picture, and no colour that it shows there is black. -/
namespace Parley

/-- What the filters rely on: sizes are kept, and a map of edges is black and white. -/
structure Imaging.Lawful {Picture : Type} (lib : Imaging Picture) : Prop where
  toGray : ∀ img, (lib.toGray img).dimensions = lib.dimensions img
  toRgb : ∀ img, (lib.toRgb img).dimensions = lib.dimensions img
  blur : ∀ g sigma, (lib.blur g sigma).dimensions = g.dimensions
  median : ∀ g rx ry, (lib.median g rx ry).dimensions = g.dimensions
  medianRgb : ∀ g rx ry, (lib.medianRgb g rx ry).dimensions = g.dimensions
  canny : ∀ g low high, (lib.canny g low high).dimensions = g.dimensions
  marks : ∀ g low high, ∀ v ∈ (lib.canny g low high).pixels, v = 0 ∨ v = 255

theorem Imaging.standard_lawful : standard.Lawful where
  toGray img := by cases img <;> rfl
  toRgb img := by cases img <;> rfl
  blur _ _ := rfl
  median _ _ _ := rfl
  medianRgb _ _ _ := rfl
  canny _ _ _ := rfl
  marks g low high v member := by
    obtain ⟨i, rfl⟩ := Array.mem_ofFn.mp member
    dsimp only
    split
    · exact .inr rfl
    · exact .inl rfl

theorem Median.middle_eq (values : List UInt8) :
    middle values = (values.insertionSort (· ≤ ·)).getD (values.length / 2) 0 := by
  rw [middle, List.mergeSort_eq_insertionSort]

namespace Filter

/-! Flat colours. -/

/-- `flat` is the middle of the band of 32 values that holds `v`. -/
structure Flattened (v flat : UInt8) : Prop where
  middle : ∃ k < 8, 32 * k ≤ v.toNat ∧ v.toNat < 32 * (k + 1) ∧ flat.toNat = 32 * k + 16
  level : flat.toNat ∈ [16, 48, 80, 112, 144, 176, 208, 240]
  near : v.toNat ≤ flat.toNat + 16 ∧ flat.toNat ≤ v.toNat + 16

section posterize

variable (v : UInt8)

/-- Neither the product nor the sum leaves the range of a byte. -/
theorem posterize_exact : (v / 32 * 32).toNat = v.toNat / 32 * 32 ∧
    (posterize v).toNat = v.toNat / 32 * 32 + 16 := by
  have range := v.toNat_lt
  have product : (v / 32 * 32).toNat = v.toNat / 32 * 32 := by
    rw [UInt8.toNat_mul, UInt8.toNat_div]
    exact Nat.mod_eq_of_lt (by simp only [UInt8.reduceToNat]; omega)
  refine ⟨product, ?_⟩
  rw [posterize, UInt8.toNat_add, product]
  exact Nat.mod_eq_of_lt (by simp only [UInt8.reduceToNat]; omega)

theorem posterize_flattened : Flattened v (posterize v) := by
  have range := v.toNat_lt
  obtain ⟨-, exact⟩ := posterize_exact v
  exact
    { middle := ⟨v.toNat / 32, by omega, by omega, by omega, by omega⟩
      level := by
        simp only [exact, List.mem_cons, List.not_mem_nil, or_false]
        omega
      near := by omega }

theorem map_posterize_flattened (p : Rgb) : ∀ channel ∈ [Rgb.red, Rgb.green, Rgb.blue],
    Flattened (channel p) (channel (p.map posterize)) := by
  simp only [List.forall_mem_cons]
  exact ⟨posterize_flattened p.red, posterize_flattened p.green, posterize_flattened p.blue,
    List.forall_mem_nil _⟩

theorem map_posterize_ne_black (p : Rgb) : p.map posterize ≠ black := by
  intro same
  have red : posterize p.red = 0 := congrArg Rgb.red same
  obtain ⟨-, exact⟩ := posterize_exact p.red
  rw [red] at exact
  simp at exact

end posterize

/-! Drawing: two pictures of one size, the second a map of edges. -/

section drawing

variable {edges : GrayImage} {x y : Nat}

theorem flatten_get (smooth : RgbImage) (edges : GrayImage)
    (inside : Grid.Within smooth.dimensions x y) : (flatten smooth edges).get x y =
      if edges.get x y > 0 then black else (smooth.get x y).map posterize :=
  Grid.get_ofFn _ inside

theorem flatten_black_iff {smooth : RgbImage} (inside : Grid.Within smooth.dimensions x y)
    (mark : edges.get x y = 0 ∨ edges.get x y = 255) :
    (flatten smooth edges).get x y = black ↔ edges.get x y = 255 := by
  rw [flatten_get smooth edges inside]
  rcases mark with unset | set
  · simp [unset, map_posterize_ne_black]
  · simp [set]

theorem flatten_flat {smooth : RgbImage} (inside : Grid.Within smooth.dimensions x y)
    (mark : edges.get x y = 0 ∨ edges.get x y = 255) (unset : edges.get x y ≠ 255) :
    (flatten smooth edges).get x y = (smooth.get x y).map posterize := by
  rw [flatten_get smooth edges inside]
  simp [mark.resolve_right unset]

/-- White edges are drawn black, and the black around them leaves the picture as it is. -/
theorem darken_get {blurred : GrayImage} (inside : Grid.Within blurred.dimensions x y)
    (same : edges.dimensions = blurred.dimensions)
    (mark : edges.get x y = 0 ∨ edges.get x y = 255) :
    (darken blurred edges).get x y = if edges.get x y = 255 then 0 else blurred.get x y := by
  have pixel : (darken blurred edges).get x y = min (blurred.get x y) ((invert edges).get x y) :=
    Grid.get_ofFn _ inside
  rw [pixel, invert, Grid.get_map _ _ (same ▸ inside)]
  have range := (blurred.get x y).toNat_lt
  rcases mark with unset | set
  · have least : blurred.get x y ≤ 255 :=
      UInt8.le_iff_toNat_le.mpr (by simp only [UInt8.reduceToNat]; omega)
    rw [unset, if_neg (by decide), UInt8.sub_zero, Std.min_eq_if, if_pos least]
  · rw [set, if_pos rfl, UInt8.sub_self, Std.min_eq_if]
    split
    · next least =>
      exact UInt8.toNat_inj.mp (Nat.le_zero.mp (UInt8.le_iff_toNat_le.mp least))
    · rfl

end drawing

theorem canny_get {Picture : Type} {lib : Imaging Picture} (lawful : lib.Lawful) (g : GrayImage)
    (low high : Float32) {x y : Nat} (inside : Grid.Within g.dimensions x y) :
    (lib.canny g low high).get x y = 0 ∨ (lib.canny g low high).get x y = 255 := by
  rw [← lawful.canny g low high] at inside
  exact lawful.marks g low high _ (Grid.get_mem _ inside)

/-- Outlines and flat colours do not mix. Every picture on the way has the size of the input. A
cartoon is black exactly where its edges are set; elsewhere each channel is the middle of its band,
and no step of that arithmetic leaves the range of a byte. A gray picture is black where its edges
are set, and elsewhere it is the blurred one. -/
theorem outlines_apart {Picture : Type} (lib : Imaging Picture) (lawful : lib.Lawful)
    (img : Picture) :
    let smooth := lib.medianRgb (lib.toRgb img) 2 2
    let edges := lib.canny (lib.median (lib.toGray img) 3 3) 5 10
    let cartoon := cartoonifyBy lib img
    let blurred := lib.blur (lib.toGray img) 0.8
    let lines := lib.canny blurred 40 100
    let gray := grayEdgesBy lib img
    (∀ size ∈ [smooth.dimensions, edges.dimensions, cartoon.dimensions, blurred.dimensions,
      lines.dimensions, gray.dimensions], size = lib.dimensions img) ∧
    (∀ x y, Grid.Within (lib.dimensions img) x y →
      (cartoon.get x y = black ↔ edges.get x y = 255) ∧
      (edges.get x y ≠ 255 → cartoon.get x y = (smooth.get x y).map posterize ∧
        ∀ channel ∈ [Rgb.red, Rgb.green, Rgb.blue],
          Flattened (channel (smooth.get x y)) (channel (cartoon.get x y))) ∧
      (lines.get x y = 255 → gray.get x y = 0) ∧
      (lines.get x y ≠ 255 → gray.get x y = blurred.get x y)) ∧
    ∀ v : UInt8, (v / 32 * 32).toNat = v.toNat / 32 * 32 ∧
      (posterize v).toNat = v.toNat / 32 * 32 + 16 := by
  intro smooth edges cartoon blurred lines gray
  have smoothed : smooth.dimensions = lib.dimensions img := by
    rw [lawful.medianRgb, lawful.toRgb]
  have median : (lib.median (lib.toGray img) 3 3).dimensions = lib.dimensions img := by
    rw [lawful.median, lawful.toGray]
  have edged : edges.dimensions = lib.dimensions img := by rw [lawful.canny, median]
  have soft : blurred.dimensions = lib.dimensions img := by rw [lawful.blur, lawful.toGray]
  have lined : lines.dimensions = lib.dimensions img := by rw [lawful.canny, soft]
  refine ⟨?_, ?_, posterize_exact⟩
  · simp only [List.forall_mem_cons]
    exact ⟨smoothed, edged, smoothed, soft, lined, soft, List.forall_mem_nil _⟩
  · intro x y inside
    have edge : edges.get x y = 0 ∨ edges.get x y = 255 :=
      canny_get lawful _ _ _ (median ▸ inside)
    have line : lines.get x y = 0 ∨ lines.get x y = 255 := canny_get lawful _ _ _ (soft ▸ inside)
    have drawn := darken_get (soft ▸ inside) (lined.trans soft.symm) line
    refine ⟨flatten_black_iff (smoothed ▸ inside) edge, fun unset => ?_,
      fun set => drawn.trans (if_pos set), fun unset => drawn.trans (if_neg unset)⟩
    have flat : cartoon.get x y = (smooth.get x y).map posterize :=
      flatten_flat (smoothed ▸ inside) edge unset
    refine ⟨flat, ?_⟩
    rw [flat]
    exact map_posterize_flattened _

/-- The left column red, the right one blue. -/
def twoColours : Image :=
  .rgb (Grid.ofFn 2 1 fun x _ => if x = 0 then ⟨200, 30, 30⟩ else ⟨30, 30, 200⟩)

theorem twoColours_flat :
    Imaging.standard.Lawful ∧ (cartoonify twoColours).dimensions = (2, 1) ∧
    (cartoonify twoColours).get 0 0 = ⟨208, 16, 16⟩ ∧
    (cartoonify twoColours).get 1 0 = ⟨16, 16, 208⟩ := by
  have lawful := Imaging.standard_lawful
  obtain ⟨sizes, pixels, -⟩ := outlines_apart .standard lawful twoColours
  have left := (pixels 0 0 ⟨by decide, by decide⟩).2.1 (by decide +kernel)
  have right := (pixels 1 0 ⟨by decide, by decide⟩).2.1 (by decide +kernel)
  have smooth : (Median.rgb twoColours.toRgb 2 2).get 0 0 = ⟨200, 30, 30⟩ ∧
      (Median.rgb twoColours.toRgb 2 2).get 1 0 = ⟨30, 30, 200⟩ := by
    rw [Median.rgb, Grid.get_ofFn _ ⟨by decide, by decide⟩, Grid.get_ofFn _ ⟨by decide, by decide⟩]
    simp only [Median.middle_eq]
    decide +kernel
  refine ⟨lawful, sizes _ (by simp [cartoonify]), ?_, ?_⟩
  · exact left.1.trans (congrArg (Rgb.map posterize) smooth.1)
  · exact right.1.trans (congrArg (Rgb.map posterize) smooth.2)

end Filter

end Parley
