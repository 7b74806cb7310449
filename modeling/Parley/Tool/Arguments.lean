import Parley.Error
import Parley.Json.Reader
import Parley.Text.Blank
import Parley.Value

/-! The arguments of a tool call, read from the text the model wrote. -/
namespace Parley

@[ext] structure Arguments where
  entries : Dict Value := []
  ordered : entries.Ordered := by first | exact Dict.ordered_nil | decide

namespace Arguments

def find? (args : Arguments) (key : String) : Option Value :=
  args.entries.find? key

/-- Arguments are flat: a nested object or array counts as null. -/
def scalar : Json → Value
  | .arr _ | .obj _ => .null
  | j => Value.ofJson j

/-- The arguments that the members of an object make. -/
def ofMembers (members : List (String × Json)) : Arguments :=
  { entries := Dict.ofEntries (members.map fun m => (m.1, scalar m.2))
    ordered := Dict.ofEntries_ordered _ }

/-- Blank text stands for no arguments. All other text has to be a JSON object. -/
def parse (raw : String) : Except Error Arguments :=
  if Text.isBlankText raw then .ok {}
  else
    match Json.parse raw with
    | .error f => .error (.argumentParse (f.message (Utf8.ofString raw)))
    | .ok (.obj members) => .ok (ofMembers members)
    | .ok _ => .error (.argumentParse ("expected a JSON object, got `" ++ raw ++ "`"))

def toValue (args : Arguments) : Value :=
  .object args.entries args.ordered

def text (args : Arguments) : String :=
  args.toValue.display

def describe (args : Arguments) : String :=
  "\x7b" ++ ", ".intercalate (Datum.describeMembers (Value.memberData args.entries)) ++ "\x7d"

end Arguments

end Parley
