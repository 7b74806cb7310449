import Parley.Chat.Decoding
import Parley.Error
import Parley.Text.Cut
import Parley.Transport.Basic
import Parley.Transport.MediaType

/-! From the outcome of a request to a response or an error. The first check that fails decides: the
transport, the status, the content type, the body. -/
namespace Parley.Transport

/-- How much of a refused body is kept, in characters. -/
def excerptLength : Nat := 256

def excerpt (body : Bytes) : String :=
  String.ofList (Text.truncate excerptLength (Utf8.lossy body))

/-- A reply need not name its content type. -/
def isJsonReply (r : Reply) : Bool :=
  match r.contentType with
  | none => true
  | some text => (MediaType.parse? text).any MediaType.isJson

def classify : Outcome → Except Error Response
  | .error f => .error ⟨.transport, some f.text⟩
  | .ok r =>
    if !r.isSuccess then .error ⟨.httpStatus r.status, some (excerpt r.body)⟩
    else if !isJsonReply r then
      .error ⟨.decode, some ("unexpected content type: " ++ r.contentType.getD "")⟩
    else
      match Response.decode r.body with
      | .ok response => .ok response
      | .error e => .error ⟨.decode, some e.message⟩

end Parley.Transport
