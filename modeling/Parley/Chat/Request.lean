import Parley.Chat.Message
import Parley.Chat.ToolDefinition
import Parley.Json.Printer

/-! Requests to the model and the payload that carries them. Optional members are left out when they
are empty. -/
namespace Parley

structure Request where
  model : String
  messages : List Message
  tools : List ToolDefinition

def optionalMember (name : String) (present : Bool) (value : Json) : List (String × Json) :=
  if present then [(name, value)] else []

def ToolCall.toJson (c : ToolCall) : Json :=
  .obj [("id", .str c.id), ("type", .str c.kind),
    ("function", .obj [("name", .str c.name), ("arguments", .str c.arguments)])]

def Message.toJson (m : Message) : Json :=
  .obj ([("role", .str m.role.name), ("content", .str m.content)]
    ++ optionalMember "tool_call_id" m.toolCallId.isSome (.str (m.toolCallId.getD ""))
    ++ optionalMember "tool_calls" m.hasToolCalls (.arr (m.toolCalls.map ToolCall.toJson)))

def Property.toJson (p : Property) : Json :=
  .obj [("type", .str p.type), ("description", .str p.description)]

namespace ToolDefinition

def schema (d : ToolDefinition) : Json :=
  .obj ([("type", .str "object"),
      ("properties", .obj (d.properties.map fun p => (p.1, p.2.toJson)))]
    ++ optionalMember "required" (!d.required.isEmpty) (.arr (d.required.map .str)))

def toJson (d : ToolDefinition) : Json :=
  .obj [("type", .str ToolCall.functionKind),
    ("function", .obj [("name", .str d.name), ("description", .str d.description),
      ("parameters", d.schema)])]

end ToolDefinition

namespace Request

def toJson (r : Request) : Json :=
  .obj ([("model", .str r.model), ("messages", .arr (r.messages.map Message.toJson))]
    ++ optionalMember "tools" (!r.tools.isEmpty) (.arr (r.tools.map ToolDefinition.toJson)))

def payload (r : Request) : String :=
  r.toJson.render

end Request

end Parley
