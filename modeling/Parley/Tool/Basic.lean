import Parley.Chat.Message
import Parley.Notice
import Parley.Tool.Arguments

/-! Tools and what comes of calling them. -/
namespace Parley

/-- A code of zero means success. -/
structure ToolResult where
  code : Int
  description : String
  value : Option Value

namespace ToolResult

def success (v : Value) : ToolResult :=
  ⟨0, "Success", some v⟩

def failure (description : String) : ToolResult :=
  ⟨-1, description, none⟩

def isSuccess (r : ToolResult) : Bool :=
  r.code = 0

/-- The message for the model. A failure is not bound to the call. -/
def toMessage (r : ToolResult) (callId : String) : Message :=
  if r.isSuccess then .toolResult callId ((r.value.map Value.display).getD "")
  else .toolError ("Error: " ++ r.description)

def error (r : ToolResult) : Error :=
  ⟨.toolExecution,
    some ("code " ++ String.ofList (Decimal.intText r.code) ++ ": " ++ r.description)⟩

end ToolResult

/-- A call as the tool sees it. -/
structure Invocation where
  arguments : Arguments
  toolName : String
  callId : String

structure ToolOutcome where
  result : ToolResult
  /-- What the tool reports on its own account. -/
  reports : List (Level × String) := []

/-- A tool answers a call in the light of the calls it served before, latest first. -/
abbrev Tool := List Invocation → Invocation → ToolOutcome

/-- A tool that keeps no state and reports nothing. -/
def Tool.pure (f : Invocation → ToolResult) : Tool :=
  fun _ call => ⟨f call, []⟩

end Parley
