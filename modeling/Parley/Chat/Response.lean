import Parley.Chat.Message

/-! Responses of the model. -/
namespace Parley

structure Usage where
  promptTokens : Nat
  completionTokens : Nat
  totalTokens : Nat
  deriving DecidableEq, Repr

structure Choice where
  index : Nat
  message : Message
  finishReason : Option String
  deriving DecidableEq, Repr

structure Response where
  id : String := ""
  object : String := ""
  created : Int := 0
  model : String := ""
  choices : List Choice := []
  usage : Option Usage := none
  deriving DecidableEq, Repr

namespace Response

/-- The first message by the assistant; other choices are ignored. -/
def assistantMessage? (r : Response) : Option Message :=
  (r.choices.map (·.message)).find? fun m => m.role = .assistant

def content (r : Response) : String :=
  (r.assistantMessage?.map (·.content)).getD ""

end Response

end Parley
