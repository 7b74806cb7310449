import Parley.Tool.Registry

/-! Executing the calls that a model asks for. -/
namespace Parley

structure Execution where
  notices : List Notice
  registry : Registry
  /-- The message for the model; the only error is an unknown tool. -/
  message : Except Error Message

/-- What a tool is told about a call, and what there is to report: arguments that cannot be read
count as none. -/
def ToolCall.invocation (c : ToolCall) : Invocation × List Notice :=
  match Arguments.parse c.arguments with
  | .ok arguments => (⟨arguments, c.name, c.id⟩, [])
  | .error e => (⟨{}, c.name, c.id⟩, [.badArguments e])

def Registry.execute (r : Registry) (c : ToolCall) : Execution :=
  let (call, early) := c.invocation
  match r.invoke call with
  | .ok (outcome, registry) =>
    let invoking : Notice := .invoking call.arguments.describe
    let late := if outcome.result.isSuccess then [] else [.toolFailed outcome.result.error]
    let byTool := outcome.reports.map fun (level, message) => .byTool level message
    ⟨early ++ invoking :: byTool ++ late, registry, .ok (outcome.result.toMessage c.id)⟩
  | .error e => ⟨early, r, .error e⟩

end Parley
