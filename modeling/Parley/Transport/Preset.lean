import Parley.Chat.Request
import Parley.Chat.Response
import Parley.Utf8

/-! Prepared response bodies. -/
namespace Parley

structure PresetChoice where
  index : Nat
  role : String
  content : Option String
  toolCalls : List ToolCall := []
  finishReason : Option String

structure Preset where
  id : String := "chatcmpl-test"
  object : String := "chat.completion"
  created : Int := 0
  model : String := "test-model"
  choices : List PresetChoice := []

def PresetChoice.toJson (c : PresetChoice) : Json :=
  .obj [("index", .int c.index),
    ("message", .obj ([("role", .str c.role), ("content", (c.content.map Json.str).getD .null)]
      ++ optionalMember "tool_calls" (!c.toolCalls.isEmpty)
        (.arr (c.toolCalls.map ToolCall.toJson)))),
    ("finish_reason", (c.finishReason.map Json.str).getD .null)]

namespace Preset

def withChoice (p : Preset) (role content : String) : Preset :=
  let choice : PresetChoice :=
    { index := p.choices.length, role, content := some content, finishReason := some "stop" }
  { p with choices := p.choices ++ [choice] }

def assistant (content : String) : Preset :=
  ({} : Preset).withChoice Role.assistant.name content

def toolCalls (calls : List ToolCall) : Preset :=
  { choices :=
    [{ index := 0, role := Role.assistant.name, content := none, toolCalls := calls,
       finishReason := some "tool_calls" }] }

def toJson (p : Preset) : Json :=
  .obj [("id", .str p.id), ("object", .str p.object), ("created", .int p.created),
    ("model", .str p.model), ("choices", .arr (p.choices.map PresetChoice.toJson))]

def body (p : Preset) : Bytes :=
  Utf8.encode p.toJson.chars

end Preset

end Parley
