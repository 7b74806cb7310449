import Parley.Decimal.Layout
import Parley.Url.Percent
import Parley.Url.Punycode

/-! Hosts: names, addresses, and for schemes without rules of their own plain text. -/
namespace Parley.Url

inductive Host where
  | domain (name : List Char)
  | ipv4 (address : Nat)
  | ipv6 (pieces : List Nat)
  | plain (text : List Char)
  deriving DecidableEq

def splitOn (sep : Char) : List Char → List (List Char)
  | [] => [[]]
  | c :: cs =>
    if c = sep then [] :: splitOn sep cs
    else
      match splitOn sep cs with
      | [] => [[c]]
      | p :: ps => (c :: p) :: ps

/-! Addresses of four bytes. -/

def digitsIn (base : Nat) (s : List Char) : Option Nat :=
  s.foldl (fun n c => do
    let d ← hexValue? c
    if d < base then pure ((← n) * base + d) else none) (some 0)

/-- A part of an address: octal behind a zero, hexadecimal behind `0x`, else decimal. -/
def ipv4Part? (s : List Char) : Option Nat :=
  match s with
  | [] => none
  | ['0'] => some 0
  | '0' :: 'x' :: rest | '0' :: 'X' :: rest => digitsIn 16 rest
  | '0' :: rest => digitsIn 8 rest
  | _ => digitsIn 10 s

/-- One empty part at the end does not count. -/
def addressParts (name : List Char) : List (List Char) :=
  let ps := splitOn '.' name
  if 1 < ps.length ∧ ps.getLast? = some [] then ps.dropLast else ps

/-- Whether a name has to be an address: its last part is a number. -/
def endsInNumber (name : List Char) : Bool :=
  match (addressParts name).getLast? with
  | none | some [] => false
  | some part => part.all Char.isDigit || (part.take 1 = ['0'] && (ipv4Part? part).isSome)

/-- The last part fills all the bytes that the others leave. -/
def ipv4? (name : List Char) : Option Nat := do
  let parts ← (addressParts name).mapM ipv4Part?
  let last ← parts.getLast?
  let front := parts.dropLast
  if 3 < front.length ∨ front.any (255 < ·) ∨ 1 <<< (8 * (4 - front.length)) ≤ last then none
  else some (front.foldr (fun n acc => n <<< 24 + acc / 256) 0 + last)

/-! Addresses of eight pieces. -/

/-- The two pieces that a dotted address at the end stands for. -/
def dottedTail? (s : List Char) : Option (List Nat) := do
  let parts ← (splitOn '.' s).mapM fun p =>
    if p.isEmpty || !p.all Char.isDigit || (1 < p.length && p.head? = some '0') then none
    else (digitsIn 10 p).filter (· ≤ 255)
  match parts with
  | [a, b, c, d] => some [a * 256 + b, c * 256 + d]
  | _ => none

def piece? (s : List Char) : Option Nat :=
  if s.isEmpty || 4 < s.length then none else digitsIn 16 s

/-- Pieces between single colons; only the last may be a dotted address. -/
def pieces? (s : List Char) : Option (List Nat) :=
  if s.isEmpty then some []
  else
    let ps := splitOn ':' s
    match ps.getLast? with
    | some last =>
      if last.contains '.' then do
        pure ((← ps.dropLast.mapM piece?) ++ (← dottedTail? last))
      else ps.mapM piece?
    | none => none

/-- The text before and after the first double colon. -/
def splitDouble : List Char → Option (List Char × List Char)
  | ':' :: ':' :: rest => some ([], rest)
  | c :: rest => (splitDouble rest).map fun (a, b) => (c :: a, b)
  | [] => none

def ipv6? (s : List Char) : Option (List Nat) :=
  match splitDouble s with
  | some (front, back) => do
    let a ← if front.contains '.' then none else pieces? front
    let b ← pieces? back
    if a.length + b.length < 8 then
      some (a ++ List.replicate (8 - a.length - b.length) 0 ++ b)
    else none
  | none => do
    let a ← pieces? s
    if a.length = 8 then some a else none

/-! Names. -/

def forbiddenHost (c : Char) : Bool :=
  "\x00\t\n\r #/:<>?@[\\]^|".toList.contains c

def forbiddenDomain (c : Char) : Bool :=
  forbiddenHost c || c.toNat ≤ 0x1F || c = '%' || c = '\x7f'

/-- The small letter, or what else a character of a name counts as. Full-width forms count as ASCII,
ideographic stops as dots, and invisible characters as nothing. -/
def foldChar (c : Char) : List Char :=
  let n := c.toNat
  if n = 0xAD ∨ n = 0x200B ∨ n = 0x2060 ∨ n = 0xFEFF then []
  else if n = 0x3002 ∨ n = 0xFF0E ∨ n = 0xFF61 then ['.']
  else if 0xFF01 ≤ n ∧ n ≤ 0xFF5E then [(Char.ofNat (n - 0xFEE0)).toLower]
  else if (0xC0 ≤ n ∧ n ≤ 0xDE ∧ n ≠ 0xD7) ∨ (0x391 ≤ n ∧ n ≤ 0x3A9) ∨ (0x410 ≤ n ∧ n ≤ 0x42F) then
    [Char.ofNat (n + 32)]
  else if 0x400 ≤ n ∧ n ≤ 0x40F then [Char.ofNat (n + 80)]
  else [c.toLower]

def labelToAscii (label : List Char) : List Char :=
  if label.all fun c => c.toNat < 128 then label
  else "xn--".toList ++ Punycode.encode label

def domain? (s : List Char) : Option Host :=
  let folded := ((Utf8.lossy (percentDecode s)).flatMap foldChar)
  let name := ['.'].intercalate ((splitOn '.' folded).map labelToAscii)
  if name.isEmpty || folded.contains '\uFFFD' || name.any forbiddenDomain then none
  else if endsInNumber name then (ipv4? name).map .ipv4
  else some (.domain name)

/-- The host that a text names under a special scheme or another one. -/
def Host.parse? (special : Bool) (s : List Char) : Option Host :=
  match s with
  | '[' :: rest =>
    if rest.getLast? = some ']' then (ipv6? rest.dropLast).map .ipv6 else none
  | _ =>
    if special then domain? s
    else if s.any forbiddenHost then none
    else some (.plain (percentEncode controlSet s))

/-! Writing hosts. -/

def ipv4Text (n : Nat) : List Char :=
  ['.'].intercalate ([n >>> 24, (n >>> 16) % 256, (n >>> 8) % 256, n % 256].map Decimal.natText)

def zerosAhead (ps : List Nat) : Nat :=
  (ps.takeWhile (· = 0)).length

/-- Where the first longest run of two or more zero pieces starts, and its length. -/
def longestZeros (ps : List Nat) : Option (Nat × Nat) :=
  (List.range ps.length).foldl (fun best i =>
    let n := zerosAhead (ps.drop i)
    match best with
    | some (_, m) => if m < n then some (i, n) else best
    | none => if 2 ≤ n then some (i, n) else none) none

def hexText (n : Nat) : List Char :=
  Nat.toDigits 16 n

def ipv6Text (ps : List Nat) : List Char :=
  let text := fun (qs : List Nat) => [':'].intercalate (qs.map hexText)
  match longestZeros ps with
  | some (i, n) => text (ps.take i) ++ [':', ':'] ++ text (ps.drop (i + n))
  | none => text ps

def Host.text : Host → List Char
  | .domain name => name
  | .ipv4 address => ipv4Text address
  | .ipv6 pieces => '[' :: ipv6Text pieces ++ [']']
  | .plain text => text

end Parley.Url
