import Parley.Text.Unprintable

/-! Text quoted for people: what cannot be printed is escaped. -/
namespace Parley.Text

def hexChars (n : Nat) : List Char :=
  Nat.toDigits 16 n

def quoteChar (c : Char) : List Char :=
  if c = '"' then ['\\', '"']
  else if c = '\\' then ['\\', '\\']
  else if c = '\n' then ['\\', 'n']
  else if c = '\r' then ['\\', 'r']
  else if c = '\t' then ['\\', 't']
  else if c = '\x00' then ['\\', '0']
  else if isUnprintable c then ['\\', 'u', '\x7b'] ++ hexChars c.toNat ++ ['\x7d']
  else [c]

def quote (s : String) : String :=
  String.ofList ('"' :: s.toList.flatMap quoteChar ++ ['"'])

/-- The fields of a record, as in `Name { a: 1, b: 2 }`. -/
def record (name : String) (fields : List (String × String)) : String :=
  name ++ " \x7b " ++ ", ".intercalate (fields.map fun f => f.1 ++ ": " ++ f.2) ++ " \x7d"

/-- An optional value. -/
def optional (value : Option String) : String :=
  match value with
  | some s => "Some(" ++ s ++ ")"
  | none => "None"

end Parley.Text
