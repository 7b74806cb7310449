import Parley.Decimal.Layout
import Parley.Json.Basic

/-! Compact JSON text. -/
namespace Parley.Json

def hexDigit (n : Nat) : Char :=
  Char.ofNat (if n < 10 then 48 + n else 87 + n)

/-- Quotes, backslashes and control characters are escaped, nothing else. -/
def escapeChar (c : Char) : List Char :=
  if c = '"' then ['\\', '"']
  else if c = '\\' then ['\\', '\\']
  else if c = '\x08' then ['\\', 'b']
  else if c = '\t' then ['\\', 't']
  else if c = '\n' then ['\\', 'n']
  else if c = '\x0c' then ['\\', 'f']
  else if c = '\r' then ['\\', 'r']
  else if c.toNat < 0x20 then
    ['\\', 'u', '0', '0', hexDigit (c.toNat / 16), hexDigit (c.toNat % 16)]
  else [c]

def quoted (s : List Char) : List Char :=
  '"' :: s.flatMap escapeChar ++ ['"']

/-- `null` stands for the numbers that JSON cannot write. -/
def numberChars (x : Binary64) : List Char :=
  if x.isFinite then Decimal.floatText x else "null".toList

mutual

def chars : Json → List Char
  | .null => "null".toList
  | .bool true => "true".toList
  | .bool false => "false".toList
  | .int n => Decimal.intText n
  | .float x => numberChars x
  | .str s => quoted s.toList
  | .arr [] => ['[', ']']
  | .arr (item :: items) => '[' :: chars item ++ itemChars items
  | .obj [] => ['\x7b', '\x7d']
  | .obj ((name, value) :: members) =>
    '\x7b' :: quoted name.toList ++ ':' :: chars value ++ memberChars members

/-- The items after the first, and the closing bracket. -/
def itemChars : List Json → List Char
  | [] => [']']
  | item :: items => ',' :: chars item ++ itemChars items

def memberChars : List (String × Json) → List Char
  | [] => ['\x7d']
  | (name, value) :: members =>
    ',' :: quoted name.toList ++ ':' :: chars value ++ memberChars members

end

def render (j : Json) : String :=
  String.ofList j.chars

end Parley.Json
