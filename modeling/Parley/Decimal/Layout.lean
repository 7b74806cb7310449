import Parley.Decimal.Shortest

/-! How a number is written out: integers in plain digits, other numbers by their shortest decimal,
positional near one and scientific elsewhere. -/
namespace Parley.Decimal

def natText (n : Nat) : List Char :=
  digitChars n

def intText (n : Int) : List Char :=
  if n < 0 then '-' :: natText n.natAbs else natText n.natAbs

structure Layout where
  /-- Positional notation is used for `10 ^ least ≤ |x| < 10 ^ limit`. -/
  least : Int
  limit : Int
  mark : Char
  positiveSign : List Char

/-- From `10 ^ -5` up to `10 ^ 16` positional with a digit on both sides of the point; elsewhere an
exponent with its sign and no padding. -/
def Layout.json : Layout :=
  ⟨-5, 16, 'e', ['+']⟩

/-- The digits without the zeros at their end, and how many there were. -/
def Layout.write (layout : Layout) (d : Decimal) : List Char :=
  let all := digitChars d.digits
  let digits := (all.reverse.dropWhile (· = '0')).reverse
  let lead : Int := d.exponent + all.length - 1
  if layout.least ≤ lead ∧ lead < layout.limit then
    if lead < 0 then
      '0' :: '.' :: List.replicate (-lead - 1).toNat '0' ++ digits
    else
      let whole := digits.take (lead + 1).toNat
      let fraction := digits.drop (lead + 1).toNat
      whole ++ List.replicate ((lead + 1).toNat - whole.length) '0'
        ++ '.' :: (if fraction.isEmpty then ['0'] else fraction)
  else
    let rest := digits.drop 1
    digits.take 1 ++ (if rest.isEmpty then [] else '.' :: rest)
      ++ layout.mark :: (if lead < 0 then ['-'] else layout.positiveSign) ++ natText lead.natAbs

/-- From `10 ^ -4` up to `10 ^ 16` positional; elsewhere a bare exponent. -/
def Layout.log : Layout :=
  ⟨-4, 16, 'e', []⟩

/-- The text of a finite number. -/
def floatText (x : Binary64) : List Char :=
  (if x.negative then ['-'] else [])
    ++ if x.isZero then ['0', '.', '0'] else Layout.json.write (shortest x)

/-- The text of a number as logs show it. -/
def describe (x : Binary64) : List Char :=
  if x.isNaN then ['N', 'a', 'N']
  else
    (if x.negative then ['-'] else [])
      ++ if !x.isFinite then ['i', 'n', 'f']
        else if x.isZero then ['0', '.', '0'] else Layout.log.write (shortest x)

end Parley.Decimal
