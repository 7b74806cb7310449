import Parley.Decimal.Layout
import Parley.Text.Quoted
import Parley.Utf8

/-! Why a text is refused, and where. -/
namespace Parley.Json

/-- A value where another kind of value was expected. -/
inductive Found where
  | null
  | bool (b : Bool)
  | int (n : Int)
  | float (x : Binary64)
  | str (s : String)
  | arr
  | obj

def Found.text : Found → String
  | .null => "null"
  | .bool b => "boolean `" ++ toString b ++ "`"
  | .int n => "integer `" ++ String.ofList (Decimal.intText n) ++ "`"
  | .float x => "floating point `" ++ String.ofList (Decimal.floatText x) ++ "`"
  | .str s => "string " ++ Text.quote s
  | .arr => "sequence"
  | .obj => "map"

inductive Fault where
  | endOfValue
  | endOfArray
  | endOfObject
  | endOfString
  | expectedColon
  | expectedCommaOrBracket
  | expectedCommaOrBrace
  | expectedLiteral
  | expectedValue
  | badEscape
  | endOfEscape
  | loneSurrogate
  | badCodePoint
  | controlCharacter
  | badNumber
  | numberOutOfRange
  | keyNotString
  | trailingComma
  | trailingCharacters
  | tooDeep
  | wrongType (found : Found) (expected : String)
  | wrongRange (n : Int) (expected : String)
  | missingField (name : String)
  | duplicateField (name : String)
  /-- An array that stands for a record ends before the field at this index. -/
  | shortRecord (index : Nat) (expected : String) (size : Nat)

def Fault.text : Fault → String
  | .endOfValue => "EOF while parsing a value"
  | .endOfArray => "EOF while parsing a list"
  | .endOfObject => "EOF while parsing an object"
  | .endOfString => "EOF while parsing a string"
  | .expectedColon => "expected `:`"
  | .expectedCommaOrBracket => "expected `,` or `]`"
  | .expectedCommaOrBrace => "expected `,` or `\x7d`"
  | .expectedLiteral => "expected ident"
  | .expectedValue => "expected value"
  | .badEscape => "invalid escape"
  | .endOfEscape => "unexpected end of hex escape"
  | .loneSurrogate => "lone leading surrogate in hex escape"
  | .badCodePoint => "invalid unicode code point"
  | .controlCharacter => "control character (\\u0000-\\u001F) found while parsing a string"
  | .badNumber => "invalid number"
  | .numberOutOfRange => "number out of range"
  | .keyNotString => "key must be a string"
  | .trailingComma => "trailing comma"
  | .trailingCharacters => "trailing characters"
  | .tooDeep => "recursion limit exceeded"
  | .wrongType found expected => "invalid type: " ++ found.text ++ ", expected " ++ expected
  | .wrongRange n expected =>
    "invalid value: " ++ (Found.int n).text ++ ", expected " ++ expected
  | .missingField name => "missing field `" ++ name ++ "`"
  | .duplicateField name => "duplicate field `" ++ name ++ "`"
  | .shortRecord index expected size =>
    "invalid length " ++ String.ofList (Decimal.natText index) ++ ", expected " ++ expected
      ++ " with " ++ String.ofList (Decimal.natText size) ++ " elements"

structure Failure where
  fault : Fault
  /-- The number of bytes of the text behind the place the failure names. -/
  left : Nat

/-- Lines count from one, and a column counts the bytes since the last line feed. -/
structure Position where
  line : Nat
  column : Nat

def Position.advance (p : Position) (b : UInt8) : Position :=
  if b = 10 then ⟨p.line + 1, 0⟩ else ⟨p.line, p.column + 1⟩

def Position.after (s : Bytes) : Position :=
  s.foldl Position.advance ⟨1, 0⟩

def Failure.position (f : Failure) (input : Bytes) : Position :=
  Position.after (input.take (input.length - f.left))

def Failure.message (f : Failure) (input : Bytes) : String :=
  let p := f.position input
  f.fault.text ++ " at line " ++ String.ofList (Decimal.natText p.line)
    ++ " column " ++ String.ofList (Decimal.natText p.column)

end Parley.Json
