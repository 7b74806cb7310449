import Parley.Dict

/-! What the model is told about a tool: its name, its purpose and the schema of its arguments. -/
namespace Parley

structure Property where
  type : String
  description : String
  deriving DecidableEq

structure ToolDefinition where
  name : String
  description : String
  properties : Dict Property := []
  required : List String := []
  ordered : properties.Ordered := by first | exact Dict.ordered_nil | decide
  deriving DecidableEq

namespace ToolDefinition

/-- A later call replaces the property. A name becomes required with its first call that asks for it
and stays so. -/
def withParameter (d : ToolDefinition) (name type description : String) (required : Bool) :
    ToolDefinition :=
  { d with
    properties := d.properties.insert name ⟨type, description⟩
    required := if required && !d.required.contains name then d.required ++ [name] else d.required
    ordered := d.ordered.insert name ⟨type, description⟩ }

end ToolDefinition

end Parley
