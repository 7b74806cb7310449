import Parley.Utf8

/-! Percent encoding, and the sets of characters that each part of a URL encodes. -/
namespace Parley.Url

def hexDigit (n : Nat) : Char :=
  Char.ofNat (if n < 10 then 48 + n else 55 + n)

def hexValue? (c : Char) : Option Nat :=
  let n := c.toNat
  if 48 ≤ n ∧ n ≤ 57 then some (n - 48)
  else if 65 ≤ n ∧ n ≤ 70 then some (n - 55)
  else if 97 ≤ n ∧ n ≤ 102 then some (n - 87)
  else none

def encodeChar (inSet : Char → Bool) (c : Char) : List Char :=
  if inSet c then
    (Utf8.encodeChar c).flatMap fun b => ['%', hexDigit (b.toNat / 16), hexDigit (b.toNat % 16)]
  else [c]

def percentEncode (inSet : Char → Bool) (s : List Char) : List Char :=
  s.flatMap (encodeChar inSet)

/-- A percent sign without two hex digits stands for itself. -/
def percentDecode : List Char → Bytes
  | [] => []
  | '%' :: a :: b :: rest =>
    match hexValue? a, hexValue? b with
    | some x, some y => .ofNat (x * 16 + y) :: percentDecode rest
    | _, _ => Utf8.encodeChar '%' ++ percentDecode (a :: b :: rest)
  | c :: rest => Utf8.encodeChar c ++ percentDecode rest

def controlSet (c : Char) : Bool :=
  c.toNat ≤ 0x1F || 0x7E < c.toNat

def fragmentSet (c : Char) : Bool :=
  controlSet c || " \"<>`".toList.contains c

def querySet (c : Char) : Bool :=
  controlSet c || " \"#<>".toList.contains c

def specialQuerySet (c : Char) : Bool :=
  querySet c || c = '\''

def pathSet (c : Char) : Bool :=
  querySet c || "?^`\x7b\x7d".toList.contains c

def userinfoSet (c : Char) : Bool :=
  pathSet c || "/:;=@[\\]|".toList.contains c

end Parley.Url
