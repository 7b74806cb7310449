import Parley.Binary64
import Parley.Dict

/-! JSON values as they are written: members keep their order and may repeat a name. -/
namespace Parley

inductive Json where
  | null
  | bool (b : Bool)
  /-- A number written without a fraction or an exponent that fits a 64-bit word. -/
  | int (n : Int)
  | float (x : Binary64)
  | str (s : String)
  | arr (items : List Json)
  | obj (members : List (String × Json))
  deriving Inhabited

namespace Json

def asString? : Json → Option String
  | .str s => some s
  | _ => none

def asArray? : Json → Option (List Json)
  | .arr items => some items
  | _ => none

/-- The members of an object by name, the last of a repeated name. -/
def asDict? : Json → Option (Dict Json)
  | .obj members => some (Dict.ofEntries members)
  | _ => none

end Json

end Parley
