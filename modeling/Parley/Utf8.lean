/-! UTF-8 over byte lists. `pieces` splits any bytes into scalar values and maximal broken runs and
loses none of them; the strict and the lossy decoding read the pieces off. -/
namespace Parley

abbrev Bytes := List UInt8

namespace Utf8

def encodeChar (c : Char) : Bytes :=
  let n := c.toNat
  if n < 0x80 then [.ofNat n]
  else if n < 0x800 then [.ofNat (0xC0 + n / 64), .ofNat (0x80 + n % 64)]
  else if n < 0x10000 then
    [.ofNat (0xE0 + n / 4096), .ofNat (0x80 + n / 64 % 64), .ofNat (0x80 + n % 64)]
  else
    [.ofNat (0xF0 + n / 262144), .ofNat (0x80 + n / 4096 % 64), .ofNat (0x80 + n / 64 % 64),
      .ofNat (0x80 + n % 64)]

def encode (s : List Char) : Bytes :=
  s.flatMap encodeChar

/-- A sequence begun: its bytes so far, latest first, the value they spell, how many bytes it still
owes and the range of the next one. -/
structure Begun where
  held : Bytes
  value : Nat
  owed : Nat
  low : UInt8
  high : UInt8

inductive Opening where
  | scalar (c : Char)
  | begun (g : Begun)
  | broken

/-- What a byte means where a sequence may start. The narrowed ranges after `E0`, `ED`, `F0` and
`F4` keep out overlong forms, surrogates and values past the last scalar. -/
def opening (b : UInt8) : Opening :=
  let n := b.toNat
  if n < 0x80 then .scalar (Char.ofNat n)
  else if n < 0xC2 then .broken
  else if n < 0xE0 then .begun ⟨[b], n - 0xC0, 1, 0x80, 0xBF⟩
  else if n < 0xF0 then
    .begun ⟨[b], n - 0xE0, 2, if n = 0xE0 then 0xA0 else 0x80, if n = 0xED then 0x9F else 0xBF⟩
  else if n < 0xF5 then
    .begun ⟨[b], n - 0xF0, 3, if n = 0xF0 then 0x90 else 0x80, if n = 0xF4 then 0x8F else 0xBF⟩
  else .broken

/-- One more byte of a sequence; `none` if the byte does not belong to it. -/
def Begun.extend (g : Begun) (b : UInt8) : Option Opening :=
  if g.low ≤ b ∧ b ≤ g.high then
    let value := g.value * 64 + (b.toNat - 0x80)
    if g.owed ≤ 1 then some (.scalar (Char.ofNat value))
    else some (.begun ⟨b :: g.held, value, g.owed - 1, 0x80, 0xBF⟩)
  else none

inductive Piece where
  | scalar (c : Char)
  | broken (bytes : Bytes)

namespace Piece

def bytes : Piece → Bytes
  | .scalar c => encodeChar c
  | .broken b => b

def char? : Piece → Option Char
  | .scalar c => some c
  | .broken _ => none

end Piece

/-- The pieces of `s`, read after the sequence begun so far. A byte that does not belong to the
sequence breaks it off and is read afresh. -/
def piecesFrom : Option Begun → Bytes → List Piece
  | none, [] => []
  | some g, [] => [.broken g.held.reverse]
  | state, b :: s =>
    let fresh := fun (_ : Unit) =>
      match opening b with
      | .scalar c => .scalar c :: piecesFrom none s
      | .begun g => piecesFrom (some g) s
      | .broken => .broken [b] :: piecesFrom none s
    match state with
    | none => fresh ()
    | some g =>
      match g.extend b with
      | some (.scalar c) => .scalar c :: piecesFrom none s
      | some (.begun g) => piecesFrom (some g) s
      | some .broken | none => .broken g.held.reverse :: fresh ()

def pieces (s : Bytes) : List Piece :=
  piecesFrom none s

def decode? (s : Bytes) : Option (List Char) :=
  (pieces s).mapM Piece.char?

/-- Every maximal broken run becomes one replacement character. -/
def lossy (s : Bytes) : List Char :=
  (pieces s).map fun p => p.char?.getD '\uFFFD'

/-- How many bytes stand before the first broken run. -/
def validLength (s : Bytes) : Nat :=
  (((pieces s).takeWhile fun p => p.char?.isSome).flatMap Piece.bytes).length

def ofString (s : String) : Bytes :=
  encode s.toList

end Utf8

end Parley
