import Parley.Binary64

/-! The shortest decimal of a finite double: the fewest digits that read back as the same number,
and of those the nearest to it. -/
namespace Parley

/-- `digits * 10 ^ exponent`. -/
structure Decimal where
  digits : Nat
  exponent : Int
  deriving DecidableEq

namespace Decimal

/-- `10 ^ k`. -/
def tenPow (k : Nat) : Nat :=
  Nat.pow 10 k

/-- The reals that round to a double, as `low / unit` to `high / unit`; the ends belong to them iff
`closed`. -/
structure Interval where
  low : Nat
  middle : Nat
  high : Nat
  unit : Nat
  closed : Bool

/-- In quarters of the spacing above `x`. Below a power of two the spacing halves. -/
def interval (x : Binary64) : Interval :=
  let m := x.significand
  let e := x.exponent
  let below := if m = Binary64.binade ∧ -1074 < e then 1 else 2
  { low := (4 * m - below) <<< e.toNat
    middle := (4 * m) <<< e.toNat
    high := (4 * m + 2) <<< e.toNat
    unit := 4 <<< (-e).toNat
    closed := m % 2 = 0 }

/-- Whether `n / d` lies in the interval. -/
def Interval.holds (i : Interval) (n d : Nat) : Bool :=
  if i.closed then i.low * d ≤ n * i.unit ∧ n * i.unit ≤ i.high * d
  else i.low * d < n * i.unit ∧ n * i.unit < i.high * d

/-- The greatest `k` with `10 ^ k ≤ num / den`, searched downwards from an upper bound. -/
def floorLog10 (num den : Nat) : Nat → Int → Int
  | 0, k => k
  | fuel + 1, k =>
    if den * tenPow k.toNat ≤ num * tenPow (-k).toNat then k else floorLog10 num den fuel (k - 1)

/-- The point of the grid of spacing `10 ^ p` that lies in the interval nearest to its middle, a tie
going to the even one. -/
def onGrid? (i : Interval) (p : Int) : Option Decimal :=
  let up := tenPow p.toNat
  let down := tenPow (-p).toNat
  let below := i.middle * down / (i.unit * up)
  let hit := fun n => i.holds (n * up) down
  let twice := 2 * i.middle * down
  let half := (2 * below + 1) * up * i.unit
  let lowerFirst := twice < half ∨ twice = half ∧ below % 2 = 0
  match hit below && below != 0, hit (below + 1) with
  | true, true => some ⟨if lowerFirst then below else below + 1, p⟩
  | true, false => some ⟨below, p⟩
  | false, true => some ⟨below + 1, p⟩
  | false, false => none

/-- Seventeen digits always suffice. -/
def shortest (x : Binary64) : Decimal :=
  let i := interval x
  let top := (Binary64.floorLog2 i.middle i.unit + 1) * 30103 / 100000 + 1
  let k := floorLog10 i.middle i.unit 4 top
  ((List.range 17).findSome? fun (n : Nat) => onGrid? i (k - n)).getD ⟨0, 0⟩

/-- The decimal digits of a natural number, most significant first. -/
def digitChars (n : Nat) : List Char :=
  Nat.toDigits 10 n

end Decimal

end Parley
