import Mathlib.Algebra.Order.Field.Power
import Mathlib.Data.Rat.Cast.Order
import Mathlib.Tactic.FieldSimp
import Mathlib.Tactic.Linarith
import Mathlib.Tactic.Positivity
import Mathlib.Tactic.Ring
import Parley.Binary64

/-! Rounding leaves a double as it is, so the integers among the doubles are converted back
unchanged, but for the sign of zero. -/
namespace Parley.Binary64

section parts

variable {x : Binary64}

theorem negative_iff : x.negative = true ↔ signWeight ≤ x.bits.toNat :=
  decide_eq_true_iff

theorem bits_eq (x : Binary64) :
    x.bits.toNat = (if x.negative then signWeight else 0) + x.magnitude := by
  have word : x.bits.toNat < 2 * signWeight := x.bits.toNat_lt
  unfold magnitude
  by_cases high : signWeight ≤ x.bits.toNat
  · rw [if_pos (negative_iff.mpr high), Nat.mod_eq_sub_mod high, Nat.mod_eq_of_lt (by omega)]
    omega
  · rw [if_neg (mt negative_iff.mp high), Nat.mod_eq_of_lt (by omega), Nat.zero_add]

/-- A double is its sign and its magnitude. -/
theorem ofMagnitude_self (x : Binary64) : ofMagnitude x.negative x.magnitude = x := by
  have word : UInt64.ofNat x.bits.toNat = x.bits := UInt64.ofNat_toNat
  rw [bits_eq] at word
  unfold ofMagnitude
  split
  · next negative =>
    rw [if_pos negative] at word
    rw [word]
  · next positive =>
    rw [if_neg positive, Nat.zero_add] at word
    rw [word]

theorem significand_pos (positive : 0 < x.magnitude) : 0 < x.significand := by
  unfold significand
  split
  · exact positive
  · simp only [binade]
    omega

theorem significand_lt (x : Binary64) : x.significand < 2 ^ 53 := by
  unfold significand
  split
  · next small =>
    simp only [binade] at small
    omega
  · simp only [binade]
    omega

theorem exponent_ge (x : Binary64) : -1074 ≤ x.exponent := by
  unfold exponent
  split
  · exact le_refl _
  · next large =>
    simp only [binade] at large ⊢
    omega

/-- Only the least exponent has significands without a leading bit. -/
theorem exponent_of_significand (small : x.significand < 2 ^ 52) : x.exponent = -1074 := by
  unfold significand at small
  unfold exponent
  split
  · rfl
  · next large =>
    rw [if_neg large] at small
    simp only [binade] at small
    omega

/-- The magnitudes of an exponent follow on those of the one below. -/
theorem magnitude_eq (x : Binary64) :
    x.magnitude = (x.exponent + 1074).toNat * binade + x.significand := by
  unfold exponent significand
  split
  · simp
  · next large =>
    simp only [binade] at large ⊢
    omega

end parts

section rounding

variable {num den : Nat}

theorem roundDiv_mul (q : Nat) (positive : 0 < den) : roundDiv (q * den) den = q := by
  unfold roundDiv
  simp only [Nat.mul_div_cancel q positive, Nat.mul_mod_left]
  rw [if_neg (by omega)]

/-- Shifting by a signed count is multiplying by a power of two, on one side or the other. -/
theorem shift_le_iff (k : Int) :
    den <<< k.toNat ≤ num <<< (-k).toNat ↔ (den : ℚ) * 2 ^ k ≤ num := by
  rw [Nat.shiftLeft_eq, Nat.shiftLeft_eq, ← Nat.cast_le (α := ℚ)]
  push_cast
  rcases Int.eq_nat_or_neg k with ⟨n, rfl | rfl⟩
  · simp
  · simp only [neg_neg, Int.toNat_natCast, Int.toNat_neg_natCast, pow_zero, mul_one, zpow_neg,
      zpow_natCast]
    rw [← div_eq_mul_inv, div_le_iff₀ (by positivity)]

theorem shift_eq_iff {q : Nat} {k : Int} :
    num <<< (-k).toNat = q * (den <<< k.toNat) ↔ (num : ℚ) = den * (q * 2 ^ k) := by
  rw [Nat.shiftLeft_eq, Nat.shiftLeft_eq, ← Nat.cast_inj (R := ℚ)]
  push_cast
  rcases Int.eq_nat_or_neg k with ⟨n, rfl | rfl⟩
  · simp only [Int.toNat_natCast, Int.toNat_neg_natCast, pow_zero, mul_one, zpow_natCast]
    rw [mul_left_comm]
  · simp only [neg_neg, Int.toNat_natCast, Int.toNat_neg_natCast, pow_zero, mul_one, zpow_neg,
      zpow_natCast]
    rw [← div_eq_mul_inv, ← mul_div_assoc, eq_div_iff (by positivity), mul_comm (den : ℚ)]

theorem cast_log2_le (positive : 0 < num) : (2 : ℚ) ^ (num.log2 : Int) ≤ num := by
  rw [zpow_natCast]
  exact_mod_cast Nat.log2_self_le (Nat.ne_of_gt positive)

theorem cast_lt_log2 (num : Nat) : (num : ℚ) < 2 ^ (num.log2 + 1 : Int) := by
  have above : num < 2 ^ (num.log2 + 1) := Nat.lt_log2_self
  exact_mod_cast above

/-- The powers of two up to a quotient are those up to its logarithm. -/
theorem le_floorLog2_iff (numPos : 0 < num) (denPos : 0 < den) (k : Int) :
    k ≤ floorLog2 num den ↔ (den : ℚ) * 2 ^ k ≤ num := by
  have two : (0 : ℚ) < 2 := by norm_num
  have denRat : (0 : ℚ) < den := by exact_mod_cast denPos
  -- The difference of the logarithms is right, or one too large.
  have below : (den : ℚ) * 2 ^ ((num.log2 : Int) - den.log2 - 1) ≤ num := by
    have den_lt := cast_lt_log2 den
    have num_ge := cast_log2_le numPos
    rw [sub_sub, zpow_sub₀ two.ne', ← mul_div_assoc, div_le_iff₀ (by positivity), mul_comm]
    exact mul_le_mul num_ge den_lt.le denRat.le (by positivity)
  have above : (num : ℚ) < den * 2 ^ ((num.log2 : Int) - den.log2 + 1) := by
    have num_lt := cast_lt_log2 num
    have den_ge := cast_log2_le denPos
    refine num_lt.trans_le ?_
    rw [show (num.log2 : Int) + 1 = den.log2 + (num.log2 - den.log2 + 1) by omega, zpow_add₀ two.ne']
    exact mul_le_mul_of_nonneg_right den_ge (by positivity)
  have grows : ∀ {i j : Int}, i ≤ j → (den : ℚ) * 2 ^ i ≤ den * 2 ^ j := fun le =>
    mul_le_mul_of_nonneg_left (zpow_le_zpow_right₀ (by norm_num) le) denRat.le
  unfold floorLog2
  simp only [shift_le_iff]
  split
  · next fits =>
    constructor
    · intro le
      exact (grows le).trans fits
    · intro fits'
      by_contra! larger
      exact absurd (above.trans_le (grows larger)) (not_lt.mpr fits')
  · next exceeds =>
    constructor
    · intro le
      exact (grows le).trans below
    · intro fits'
      by_contra! larger
      exact exceeds ((grows (by omega)).trans fits')

/-- The exponent is the one at which the significand has its leading bit, unless that is below the
least. -/
theorem exponent_eq {x : Binary64} (numPos : 0 < num) (denPos : 0 < den)
    (value : (num : ℚ) = den * (x.significand * 2 ^ x.exponent)) :
    max (floorLog2 num den - 52) (-1074) = x.exponent := by
  have two : (2 : ℚ) ≠ 0 := by norm_num
  have denRat : (0 : ℚ) < den := by exact_mod_cast denPos
  have unit : (0 : ℚ) < 2 ^ x.exponent := by positivity
  have reaches : ∀ n : Nat, x.exponent + n ≤ floorLog2 num den ↔ 2 ^ n ≤ x.significand := by
    intro n
    rw [le_floorLog2_iff numPos denPos, value, mul_le_mul_iff_right₀ denRat, zpow_add₀ two, mul_comm,
      mul_le_mul_iff_left₀ unit, zpow_natCast]
    exact_mod_cast Iff.rfl
  have most := mt (reaches 53).mp (not_le.mpr x.significand_lt)
  have least := x.exponent_ge
  by_cases small : x.significand < 2 ^ 52
  · have lowest := exponent_of_significand small
    omega
  · have leading := (reaches 52).mpr (not_lt.mp small)
    omega

/-- The value of a double is rounded to that double. -/
theorem nearestMagnitude_eq {x : Binary64} (finite : x.isFinite = true) (denPos : 0 < den)
    (value : (num : ℚ) = den * (x.significand * 2 ^ x.exponent)) :
    nearestMagnitude num den = x.magnitude := by
  have most : x.magnitude < infiniteMagnitude := decide_eq_true_iff.mp finite
  unfold nearestMagnitude
  split
  · next zero =>
    by_contra! other
    have positive : (0 : ℚ) < x.significand := by
      exact_mod_cast significand_pos (Nat.pos_of_ne_zero other.symm)
    have denRat : (0 : ℚ) < den := by exact_mod_cast denPos
    rw [zero, Nat.cast_zero] at value
    exact absurd value (by positivity)
  · next nonzero =>
    dsimp only
    rw [exponent_eq (Nat.pos_of_ne_zero nonzero) denPos value, shift_eq_iff.mpr value,
      roundDiv_mul _ (by rw [Nat.shiftLeft_eq]; positivity), ← magnitude_eq, Nat.min_eq_left most.le]

end rounding

section integers

variable {x : Binary64} {n : Int}

theorem toInt?_eq_some (whole : x.toInt? = some n) :
    x.isFinite = true ∧ ∃ m : Nat, x.numerator = m * x.denominator ∧
      n = if x.negative then -(m : Int) else m := by
  unfold toInt? at whole
  split at whole
  · next conditions =>
    obtain ⟨finite, divides⟩ := conditions
    have quotient := Nat.div_mul_cancel (Nat.dvd_of_mod_eq_zero divides)
    exact ⟨finite, _, quotient.symm, (Option.some.inj whole).symm⟩
  · cases whole

/-- An integer that a double is equal to is converted to that double, unless it is zero. -/
theorem ofInt_toInt? (whole : x.toInt? = some n) (nonzero : x.isZero = false) : ofInt n = x := by
  obtain ⟨finite, m, quotient, sign⟩ := toInt?_eq_some whole
  have value : (m : ℚ) = (1 : Nat) * (x.significand * 2 ^ x.exponent) := by
    rw [← shift_eq_iff]
    unfold numerator denominator at quotient
    simp only [Nat.shiftLeft_eq, one_mul] at quotient ⊢
    exact quotient.symm
  have rounded := nearestMagnitude_eq finite Nat.one_pos value
  have positive : 0 < m := by
    rcases Nat.eq_zero_or_pos m with rfl | positive
    · unfold nearestMagnitude at rounded
      rw [if_pos rfl] at rounded
      exact absurd rounded.symm (decide_eq_false_iff_not.mp nonzero)
    · exact positive
  have negative : decide (n < 0) = x.negative := by
    rw [sign]
    split <;> simp [*]
  have size : n.natAbs = m := by
    rw [sign]
    split <;> simp
  rw [ofInt, nearest, negative, size, rounded, ofMagnitude_self]

/-- Both zeros are the integer zero. -/
theorem toInt?_zero (zero : x.isZero = true) : x.toInt? = some 0 := by
  have none : x.magnitude = 0 := decide_eq_true_iff.mp zero
  have finite : x.isFinite = true := by
    unfold isFinite
    rw [none]
    rfl
  have numerator : x.numerator = 0 := by
    unfold Binary64.numerator significand
    rw [none, if_pos (by decide), Nat.zero_shiftLeft]
  unfold toInt?
  rw [numerator, if_pos ⟨finite, Nat.zero_mod _⟩]
  simp

end integers

end Parley.Binary64
