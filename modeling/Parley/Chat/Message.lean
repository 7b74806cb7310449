/-! Messages of a conversation. -/
namespace Parley

inductive Role where
  | system
  | user
  | assistant
  | tool
  deriving DecidableEq, Repr

namespace Role

def all : List Role :=
  [.system, .user, .assistant, .tool]

def name : Role → String
  | .system => "system"
  | .user => "user"
  | .assistant => "assistant"
  | .tool => "tool"

def ofName? (s : String) : Option Role :=
  all.find? fun r => r.name = s

end Role

/-- A call the model asks for. The arguments stay as the model wrote them. -/
structure ToolCall where
  id : String
  kind : String
  name : String
  arguments : String
  deriving DecidableEq, Repr

def ToolCall.functionKind : String :=
  "function"

structure Message where
  role : Role
  content : String
  /-- The call that a tool message answers. -/
  toolCallId : Option String := none
  toolCalls : List ToolCall := []
  deriving DecidableEq, Repr

namespace Message

def system (content : String) : Message :=
  { role := .system, content }

def user (content : String) : Message :=
  { role := .user, content }

def assistant (content : String) : Message :=
  { role := .assistant, content }

def toolResult (callId content : String) : Message :=
  { role := .tool, content, toolCallId := some callId }

/-- A tool message that answers no call in particular. -/
def toolError (content : String) : Message :=
  { role := .tool, content }

def withToolCalls (m : Message) (calls : List ToolCall) : Message :=
  { m with toolCalls := calls }

def hasToolCalls (m : Message) : Bool :=
  !m.toolCalls.isEmpty

end Message

end Parley
