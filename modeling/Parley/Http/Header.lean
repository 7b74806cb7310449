import Parley.Utf8

/-! Header names and values. -/
namespace Parley.Http

structure Header where
  name : String
  value : Bytes
  deriving DecidableEq

namespace Header

/-- Names are not empty and consist of token characters. -/
def isName (s : String) : Bool :=
  !s.isEmpty && s.toList.all fun c => c.isAlphanum || "!#$%&'*+-.^_`|~".toList.contains c

/-- Values hold no control characters but the tab. -/
def isValueByte (b : UInt8) : Bool :=
  (32 ≤ b && b ≠ 127) || b = 9

def isValue (b : Bytes) : Bool :=
  b.all isValueByte

/-- A value as text, if it is visible ASCII with spaces and tabs. -/
def visible? (b : Bytes) : Option String :=
  if b.all fun x => (32 ≤ x && x < 127) || x = 9 then
    some (String.ofList (b.map Char.ofUInt8))
  else none

end Header

end Parley.Http
