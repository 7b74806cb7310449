import Parley.Engine.Lifecycle
import Parley.Tool.ImageTools
import Parley.Tool.Weather

/-! The tools that come with the engine. -/
namespace Parley

structure BuiltinTool where
  definition : ToolDefinition
  tool : Tool

namespace BuiltinTool

def all (w : Workshop) : List BuiltinTool :=
  ⟨Weather.definition, Weather.tool⟩ :: ImageTool.all.map fun t => ⟨t.definition, t.tool w⟩

/-- The tool of that name; the weather where there is none. -/
def named (w : Workshop) (name : String) : BuiltinTool :=
  ((all w).find? fun t => t.definition.name = name).getD ⟨Weather.definition, Weather.tool⟩

end BuiltinTool

def Engine.withBuiltinTools (e : Engine) (w : Workshop) : Engine :=
  (BuiltinTool.all w).foldl (fun e t => (e.register t.definition.name t.definition t.tool).2) e

end Parley
