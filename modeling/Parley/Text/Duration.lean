import Parley.Decimal.Layout

/-! Durations for people: the largest unit that gives at least one, and a fraction without trailing
zeros. -/
namespace Parley

/-- A span of time in nanoseconds. -/
structure Duration where
  nanoseconds : Nat
  deriving DecidableEq, Repr

namespace Duration

def ofMilliseconds (n : Nat) : Duration :=
  ⟨n * 1000000⟩

/-- `n` in units of `10 ^ places`. -/
def inUnits (n places : Nat) (unit : String) : String :=
  let unitSize := Decimal.tenPow places
  let fraction := Decimal.natText (n % unitSize)
  let digits := List.replicate (places - fraction.length) '0' ++ fraction
  let kept := if n % unitSize = 0 then [] else (digits.reverse.dropWhile (· = '0')).reverse
  let point := if kept.isEmpty then [] else ['.']
  String.ofList (Decimal.natText (n / unitSize) ++ point ++ kept) ++ unit

def text (d : Duration) : String :=
  let n := d.nanoseconds
  if 1000000000 ≤ n then inUnits n 9 "s"
  else if 1000000 ≤ n then inUnits n 6 "ms"
  else if 1000 ≤ n then inUnits n 3 "µs"
  else inUnits n 0 "ns"

end Duration

end Parley
