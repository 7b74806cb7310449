import Parley.Proofs.ArgumentText
import Parley.Proofs.MessageRoundTrip

/-! Integers among the displayed numbers. An integer that a double holds exactly is shown in plain
digits as far as the safe limit, which is itself shown as a double. -/
namespace Parley

namespace Binary64

section magnitudes

variable {negative : Bool} {magnitude : Nat}

theorem toNat_ofMagnitude (small : magnitude < signWeight) :
    (ofMagnitude negative magnitude).bits.toNat =
      (if negative then signWeight else 0) + magnitude := by
  have word : (if negative then signWeight + magnitude else magnitude) < 2 ^ 64 := by
    simp only [signWeight] at small ⊢
    split <;> omega
  unfold ofMagnitude
  rw [UInt64.toNat_ofNat_of_lt' word]
  split
  · rfl
  · exact (Nat.zero_add _).symm

theorem magnitude_ofMagnitude (small : magnitude < signWeight) :
    (ofMagnitude negative magnitude).magnitude = magnitude := by
  unfold Binary64.magnitude
  rw [toNat_ofMagnitude small]
  split
  · rw [Nat.add_mod_left, Nat.mod_eq_of_lt small]
  · rw [Nat.zero_add, Nat.mod_eq_of_lt small]

theorem negative_ofMagnitude (small : magnitude < signWeight) :
    (ofMagnitude negative magnitude).negative = negative := by
  rw [Bool.eq_iff_iff, negative_iff, toNat_ofMagnitude small]
  cases negative with
  | true => simp
  | false => simpa using small

end magnitudes

/-- The leading bit moved to the place it has in a significand. -/
theorem shiftLeft_leading {n : Nat} (positive : 0 < n) (small : n < 2 ^ 53) :
    n.log2 ≤ 52 ∧ 2 ^ 52 ≤ n <<< (52 - n.log2) ∧ n <<< (52 - n.log2) < 2 ^ 53 := by
  have bits : n.log2 ≤ 52 := Nat.le_of_lt_succ ((Nat.log2_lt positive.ne').mpr small)
  have least : 2 ^ n.log2 ≤ n := Nat.log2_self_le positive.ne'
  have most : n < 2 ^ (n.log2 + 1) := Nat.lt_log2_self
  refine ⟨bits, ?_, ?_⟩
  · calc 2 ^ 52 = 2 ^ n.log2 * 2 ^ (52 - n.log2) := by rw [← pow_add, Nat.add_sub_cancel' bits]
      _ ≤ n * 2 ^ (52 - n.log2) := Nat.mul_le_mul_right _ least
      _ = n <<< (52 - n.log2) := (Nat.shiftLeft_eq _ _).symm
  · calc n <<< (52 - n.log2) = n * 2 ^ (52 - n.log2) := Nat.shiftLeft_eq _ _
      _ < 2 ^ (n.log2 + 1) * 2 ^ (52 - n.log2) := Nat.mul_lt_mul_of_pos_right most (by positivity)
      _ = 2 ^ 53 := by rw [← pow_add, show n.log2 + 1 + (52 - n.log2) = 53 by omega]

/-- A positive integer of at most 53 bits is held by a double of each sign. -/
theorem exists_natural {n : Nat} (positive : 0 < n) (small : n < 2 ^ 53) (negative : Bool) :
    ∃ x : Binary64, x.negative = negative ∧ x.isFinite = true ∧
      x.significand = n <<< (52 - n.log2) ∧ x.exponent = -((52 - n.log2 : Nat) : Int) := by
  obtain ⟨bits, least, most⟩ := shiftLeft_leading positive small
  generalize n <<< (52 - n.log2) = q at least most
  generalize n.log2 = k at bits
  have fits : (1022 + k) * binade + q < infiniteMagnitude := by
    simp only [infiniteMagnitude, binade]
    omega
  have word : (1022 + k) * binade + q < signWeight := by
    simp only [infiniteMagnitude, binade, signWeight] at fits ⊢
    omega
  have normal : ¬ (1022 + k) * binade + q < binade := by
    simp only [binade]
    omega
  have parts : (ofMagnitude negative ((1022 + k) * binade + q)).magnitude = _ :=
    magnitude_ofMagnitude word
  refine ⟨ofMagnitude negative ((1022 + k) * binade + q), negative_ofMagnitude word, ?_, ?_, ?_⟩
  · unfold isFinite
    rw [parts, decide_eq_true fits]
  · unfold significand
    rw [parts, if_neg normal]
    simp only [binade]
    omega
  · unfold exponent
    rw [parts, if_neg normal]
    simp only [binade]
    omega

/-- An integer of at most 53 bits is converted without rounding. -/
theorem toInt?_ofInt {n : Int} (small : n.natAbs < 2 ^ 53) : (ofInt n).toInt? = some n := by
  rcases Nat.eq_zero_or_pos n.natAbs with zero | positive
  · obtain rfl := Int.natAbs_eq_zero.mp zero
    exact toInt?_zero rfl
  obtain ⟨x, sign, finite, significand, exponent⟩ := exists_natural positive small (decide (n < 0))
  have numerator : x.numerator = n.natAbs * x.denominator := by
    unfold Binary64.numerator denominator
    rw [significand, exponent, neg_neg, Int.toNat_neg_natCast, Int.toNat_natCast,
      Nat.shiftLeft_zero, Nat.shiftLeft_eq, Nat.shiftLeft_eq, Nat.one_mul]
  have value : (n.natAbs : ℚ) = (1 : Nat) * (x.significand * 2 ^ x.exponent) := by
    rw [← shift_eq_iff]
    unfold Binary64.numerator denominator at numerator
    simp only [Nat.shiftLeft_eq, one_mul] at numerator ⊢
    exact numerator.symm
  have same : ofInt n = x := by
    rw [ofInt, nearest, nearestMagnitude_eq finite Nat.one_pos value, ← sign, ofMagnitude_self]
  have unit : 0 < x.denominator := by
    unfold denominator
    rw [Nat.shiftLeft_eq]
    positivity
  unfold toInt?
  rw [same, numerator, if_pos ⟨finite, Nat.mul_mod_left _ _⟩, Nat.mul_div_cancel _ unit, sign]
  by_cases below : n < 0
  · simp only [below, decide_true, if_true]
    congr 1
    omega
  · simp only [below, decide_false, Bool.false_eq_true, if_false]
    congr 1
    omega

end Binary64

theorem Json.chars_obj_append (before : List (String × Json)) (name : String)
    (after : List (String × Json)) :
    ∃ head tail, ∀ j, chars (.obj (before ++ (name, j) :: after)) = head ++ chars j ++ tail := by
  have behind : ∀ before : List (String × Json), ∃ head, ∀ j,
      memberChars (before ++ (name, j) :: after) = head ++ chars j ++ memberChars after := by
    intro before
    induction before with
    | nil => exact ⟨',' :: quoted name.toList ++ [':'], fun j => by simp [memberChars]⟩
    | cons m before ih =>
      obtain ⟨head, holds⟩ := ih
      refine ⟨',' :: quoted m.1.toList ++ ':' :: chars m.2 ++ head, fun j => ?_⟩
      rw [List.cons_append, memberChars, holds]
      simp only [List.cons_append, List.append_assoc]
  cases before with
  | nil =>
    refine ⟨'\x7b' :: quoted name.toList ++ [':'], memberChars after, fun j => ?_⟩
    rw [List.nil_append, chars]
    simp only [List.cons_append, List.append_assoc, List.nil_append]
  | cons m before =>
    obtain ⟨head, holds⟩ := behind before
    refine ⟨'\x7b' :: quoted m.1.toList ++ ':' :: chars m.2 ++ head, memberChars after, fun j => ?_⟩
    rw [List.cons_append, chars, holds]
    simp only [List.cons_append, List.append_assoc]

namespace Value
open Datum

/-- The surroundings of a value in an array or an object. -/
inductive Frame where
  | item (before after : List Value)
  | member (before : Dict Value) (name : String) (after : Dict Value)
    (ordered : Dict.Ordered (before ++ (name, .null) :: after))

theorem member_ordered {before after : Dict Value} {name : String}
    (ordered : Dict.Ordered (before ++ (name, .null) :: after)) (v : Value) :
    Dict.Ordered (before ++ (name, v) :: after) := by
  unfold Dict.Ordered at ordered ⊢
  rw [List.map_append, List.map_cons] at ordered ⊢
  exact ordered

def Frame.fill : Frame → Value → Value
  | .item before after, v => .array (before ++ v :: after)
  | .member before name after ordered, v =>
    .object (before ++ (name, v) :: after) (member_ordered ordered v)

/-- A place inside a value, from the inside out; without frames it is the whole value. -/
abbrev Place := List Frame

def Place.fill (p : Place) (v : Value) : Value :=
  p.foldl (fun v f => f.fill v) v

theorem Frame.chars_fill (f : Frame) :
    ∃ head tail, ∀ v, (f.fill v).toJson.chars = head ++ v.toJson.chars ++ tail := by
  cases f with
  | item before after =>
    obtain ⟨head, tail, holds⟩ :=
      Json.chars_arr_append (before.map Value.toJson) (after.map Value.toJson)
    refine ⟨head, tail, fun v => ?_⟩
    rw [← holds, fill, array_toJson, List.map_append, List.map_cons]
  | member before name after ordered =>
    obtain ⟨head, tail, holds⟩ := Json.chars_obj_append (before.map fun m => (m.1, m.2.toJson)) name
      (after.map fun m => (m.1, m.2.toJson))
    refine ⟨head, tail, fun v => ?_⟩
    rw [← holds, fill, object_toJson, List.map_append, List.map_cons]

/-- The text of a value stands in its place, and the text around it depends on the place alone. -/
theorem Place.chars_fill (p : Place) :
    ∃ head tail, ∀ v, (p.fill v).toJson.chars = head ++ v.toJson.chars ++ tail := by
  induction p with
  | nil => exact ⟨[], [], fun v => by simp [fill]⟩
  | cons f p ih =>
    obtain ⟨head, tail, outer⟩ := ih
    obtain ⟨head', tail', inner⟩ := f.chars_fill
    refine ⟨head ++ head', tail' ++ tail, fun v => ?_⟩
    change (Place.fill p (f.fill v)).toJson.chars = _
    rw [outer, inner]
    simp only [List.append_assoc]

theorem Frame.fill_ne_text (f : Frame) (v : Value) (s : String) : (f.fill v).datum ≠ .text s := by
  cases f <;> exact nofun

theorem Place.display_fill (p : Place) (x : Binary64) :
    (p.fill (.number x)).display = (p.fill (.number x)).toJson.render := by
  have whole : ∀ v : Value, (∀ s, v.datum ≠ .text s) → ∀ s, (Place.fill p v).datum ≠ .text s := by
    induction p with
    | nil => exact fun v other => other
    | cons f p ih => exact fun v _ => ih (f.fill v) (f.fill_ne_text v)
  have other := whole (.number x) nofun
  unfold display
  split
  · next s text => exact (other s text).elim
  · rfl

/-- The greatest safe integer, of either sign, is written as a double. -/
theorem numberToJson_limit {n : Int} (limit : n.natAbs = safeLimit) :
    (numberToJson (.ofInt n)).chars = Decimal.intText n ++ ['.', '0'] := by
  have sign : n = 9007199254740991 ∨ n = -9007199254740991 := by
    simp only [safeLimit] at limit
    omega
  rcases sign with rfl | rfl
  · decide +kernel
  · decide +kernel

/-- Wherever an integer up to the safe limit stands, its digits are written out, and they are all
that is written of it just below the limit. -/
theorem digits_exact_iff (p : Place) {n : Int} (small : n.natAbs ≤ safeLimit) :
    ∃ head tail : List Char,
      (∀ v, (p.fill v).toJson.render.toList = head ++ v.toJson.render.toList ++ tail) ∧
      ((p.fill (.number (.ofInt n))).display.toList = head ++ Decimal.intText n ++ tail ↔
        n.natAbs < safeLimit) ∧
      (n.natAbs = safeLimit → (p.fill (.number (.ofInt n))).display.toList =
        head ++ (Decimal.intText n ++ ['.', '0']) ++ tail) := by
  obtain ⟨head, tail, holds⟩ := p.chars_fill
  have shown : (p.fill (.number (.ofInt n))).display.toList =
      head ++ (numberToJson (.ofInt n)).chars ++ tail := by
    rw [p.display_fill, Json.render, String.toList_ofList, holds]
    rfl
  refine ⟨head, tail, fun v => ?_, ?_, ?_⟩
  · simp only [Json.render, String.toList_ofList, holds]
  · rw [shown]
    by_cases below : n.natAbs < safeLimit
    · have whole : (Binary64.ofInt n).toInt? = some n :=
        Binary64.toInt?_ofInt (by simp only [safeLimit] at small; omega)
      have written : numberToJson (.ofInt n) = .int n :=
        Arguments.Plain.toJson_number whole below
      rw [written, Json.chars]
      exact iff_of_true rfl below
    · rw [numberToJson_limit (by omega)]
      refine iff_of_false ?_ below
      intro same
      have lengths := congrArg List.length same
      simp only [List.length_append, List.length_cons, List.length_nil] at lengths
      omega
  · intro limit
    rw [shown, numberToJson_limit limit]

theorem digits_exact_nested :
    let p : Place := [.item [.null] [], .member [] "n" [("x", .bool true)] (by decide)]
    let n : Int := -9007199254740990
    n.natAbs ≤ safeLimit ∧
    (∃ head tail : List Char,
      (∀ v, (p.fill v).toJson.render.toList = head ++ v.toJson.render.toList ++ tail) ∧
      ((p.fill (.number (.ofInt n))).display.toList = head ++ Decimal.intText n ++ tail ↔
        n.natAbs < safeLimit) ∧
      (n.natAbs = safeLimit → (p.fill (.number (.ofInt n))).display.toList =
        head ++ (Decimal.intText n ++ ['.', '0']) ++ tail)) ∧
    n.natAbs < safeLimit ∧
    (p.fill (.number (.ofInt n))).display = "\x7b\"n\":[null,-9007199254740990],\"x\":true\x7d" :=
  ⟨by decide, digits_exact_iff _ (by decide), by decide, by decide +kernel⟩

/-- At the limit a fraction is written. -/
theorem greatest_safe_written :
    (9007199254740991 : Int).natAbs ≤ safeLimit ∧
    (Value.number (.ofInt 9007199254740991)).display = "9007199254740991.0" ∧
    String.ofList (Decimal.intText 9007199254740991) = "9007199254740991" := by
  decide +kernel

end Value

end Parley
