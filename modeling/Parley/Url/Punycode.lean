/-! Punycode: the letters of a host name outside ASCII, written with ASCII. -/
namespace Parley.Url.Punycode

/-- Digits are the letters, then the numerals. -/
def digit (n : Nat) : Char :=
  Char.ofNat (if n < 26 then 97 + n else 22 + n)

def threshold (k bias : Nat) : Nat :=
  max 1 (min 26 (k - bias))

/-- How often `delta` is divided by 35 before it is small, times 36, and what is left of it. -/
def shrink (delta k : Nat) : Nat × Nat :=
  if delta ≤ 455 then (delta, k) else shrink (delta / 35) (k + 36)
termination_by delta
decreasing_by omega

def adapt (delta points : Nat) (first : Bool) : Nat :=
  let d := if first then delta / 700 else delta / 2
  let (d, k) := shrink (d + d / points) 0
  k + 36 * d / (d + 38)

/-- A number in the variable base that the bias sets. -/
def number (bias k q : Nat) : List Char :=
  let t := threshold k bias
  if q < t then [digit q]
  else digit (t + (q - t) % (36 - t)) :: number bias (k + 36) ((q - t) / (36 - t))
termination_by q
decreasing_by
  have : 0 < threshold k bias := by unfold threshold; omega
  exact Nat.lt_of_le_of_lt (Nat.div_le_self _ _) (by omega)

structure State where
  out : List Char
  delta : Nat
  bias : Nat
  done : Nat

/-- Passes one character of the label while the code point `m` is inserted. -/
def insert (basic m : Nat) (s : State) (c : Char) : State :=
  if c.toNat < m then { s with delta := s.delta + 1 }
  else if c.toNat = m then
    { out := s.out ++ number s.bias 36 s.delta
      delta := 0
      bias := adapt s.delta (s.done + 1) (s.done = basic)
      done := s.done + 1 }
  else s

/-- Inserts the code points from `n` on, in increasing order. -/
def insertAll (label : List Char) (basic : Nat) : List Nat → Nat → State → State
  | [], _, s => s
  | m :: ms, n, s =>
    let s := label.foldl (insert basic m) { s with delta := s.delta + (m - n) * (s.done + 1) }
    insertAll label basic ms (m + 1) { s with delta := s.delta + 1 }

def encode (label : List Char) : List Char :=
  let ascii := label.filter fun c => c.toNat < 128
  let others := ((label.filter fun c => 128 ≤ c.toNat).map Char.toNat).eraseDups.mergeSort (· ≤ ·)
  let start : State := ⟨[], 0, 72, ascii.length⟩
  ascii ++ (if ascii.isEmpty then [] else ['-'])
    ++ (insertAll label ascii.length others 128 start).out

end Parley.Url.Punycode
