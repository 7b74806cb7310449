/-! Double-precision numbers as words, with exact arithmetic on natural numbers. A magnitude is the
word without its sign bit. Magnitudes are ordered as the numbers they stand for; the largest finite
one is followed by infinity and then by the NaNs. -/
namespace Parley

structure Binary64 where
  bits : UInt64
  deriving DecidableEq, Inhabited

namespace Binary64

/-- The weight of the sign bit, `2 ^ 63`. -/
def signWeight : Nat := 0x8000000000000000

/-- The number of magnitudes in a binade, `2 ^ 52`. -/
def binade : Nat := 0x10000000000000

def infiniteMagnitude : Nat := 0x7FF * binade

def ofMagnitude (negative : Bool) (magnitude : Nat) : Binary64 :=
  ⟨.ofNat (if negative then signWeight + magnitude else magnitude)⟩

def negative (x : Binary64) : Bool :=
  signWeight ≤ x.bits.toNat

def magnitude (x : Binary64) : Nat :=
  x.bits.toNat % signWeight

def isFinite (x : Binary64) : Bool :=
  x.magnitude < infiniteMagnitude

def isNaN (x : Binary64) : Bool :=
  infiniteMagnitude < x.magnitude

def isZero (x : Binary64) : Bool :=
  x.magnitude = 0

def neg (x : Binary64) : Binary64 :=
  ofMagnitude (!x.negative) x.magnitude

/-- A finite number is `significand * 2 ^ exponent` up to its sign. -/
def significand (x : Binary64) : Nat :=
  if x.magnitude < binade then x.magnitude else x.magnitude % binade + binade

def exponent (x : Binary64) : Int :=
  if x.magnitude < binade then -1074 else (x.magnitude / binade : Nat) - 1075

/-- Numerator and denominator of the absolute value of a finite number. -/
def numerator (x : Binary64) : Nat :=
  x.significand <<< x.exponent.toNat

def denominator (x : Binary64) : Nat :=
  1 <<< (-x.exponent).toNat

/-- The quotient rounded to the nearest natural number, a half to the even one. -/
def roundDiv (num den : Nat) : Nat :=
  let q := num / den
  let r := num % den
  if den < 2 * r ∨ den = 2 * r ∧ q % 2 = 1 then q + 1 else q

/-- The greatest `k` with `2 ^ k ≤ num / den`, for a positive quotient. -/
def floorLog2 (num den : Nat) : Int :=
  let d : Int := (num.log2 : Int) - den.log2
  if den <<< d.toNat ≤ num <<< (-d).toNat then d else d - 1

/-- The magnitude nearest to `num / den`, a tie to the even one. Below the least normal number the
grid stays at the spacing `2 ^ -1074`; a carry out of the significand is the next magnitude. -/
def nearestMagnitude (num den : Nat) : Nat :=
  if num = 0 then 0
  else
    let e := max (floorLog2 num den - 52) (-1074)
    let q := roundDiv (num <<< (-e).toNat) (den <<< e.toNat)
    min ((e + 1074).toNat * binade + q) infiniteMagnitude

def nearest (negative : Bool) (num den : Nat) : Binary64 :=
  ofMagnitude negative (nearestMagnitude num den)

def zero : Binary64 :=
  ⟨0⟩

def ofNat (n : Nat) : Binary64 :=
  nearest false n 1

def ofInt (n : Int) : Binary64 :=
  nearest (n < 0) n.natAbs 1

/-- Product and quotient of finite numbers, rounded once. The divisor is not zero. -/
def mul (x y : Binary64) : Binary64 :=
  nearest (x.negative != y.negative) (x.numerator * y.numerator) (x.denominator * y.denominator)

def div (x y : Binary64) : Binary64 :=
  nearest (x.negative != y.negative) (x.numerator * y.denominator) (x.denominator * y.numerator)

/-- The integer a finite number is equal to, if there is one. -/
def toInt? (x : Binary64) : Option Int :=
  if x.isFinite ∧ x.numerator % x.denominator = 0 then
    let n := x.numerator / x.denominator
    some (if x.negative then -n else n)
  else none

end Binary64

end Parley
