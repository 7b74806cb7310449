import Parley.Chat.Choice
import Parley.Json.Record

/-! Reading a response body. Only the members that are known count; choices are kept as values first
and read one by one, so that one that does not fit costs no other. -/
namespace Parley

open Json

namespace Usage

/-- The fields read so far. -/
structure Draft where
  promptTokens : Option Nat := none
  completionTokens : Option Nat := none
  totalTokens : Option Nat := none

def Draft.fields : List (Json.Field Draft) := [
  ⟨"prompt_tokens", false, (·.promptTokens.isSome),
    fun d => do pure { d with promptTokens := some (← readUnsigned) }⟩,
  ⟨"completion_tokens", false, (·.completionTokens.isSome),
    fun d => do pure { d with completionTokens := some (← readUnsigned) }⟩,
  ⟨"total_tokens", false, (·.totalTokens.isSome),
    fun d => do pure { d with totalTokens := some (← readUnsigned) }⟩]

def Draft.toUsage (d : Draft) : Usage :=
  ⟨d.promptTokens.getD 0, d.completionTokens.getD 0, d.totalTokens.getD 0⟩

def read (fuel depth : Nat) : Reader Usage := do
  pure (← readRecord "struct UsageIn" Draft.fields fuel depth {}).toUsage

end Usage

namespace Response

structure Draft where
  id : Option String := none
  object : Option String := none
  created : Option Int := none
  model : Option String := none
  choices : Option (List Json) := none
  usage : Option (Option Usage) := none

/-- Values stand inside one bracket, the record's own. -/
def Draft.fields (fuel depth : Nat) : List (Json.Field Draft) := [
  ⟨"id", false, (·.id.isSome), fun d => do pure { d with id := some (← readString) }⟩,
  ⟨"object", false, (·.object.isSome), fun d => do pure { d with object := some (← readString) }⟩,
  ⟨"created", false, (·.created.isSome), fun d => do pure { d with created := some (← readSigned) }⟩,
  ⟨"model", false, (·.model.isSome), fun d => do pure { d with model := some (← readString) }⟩,
  ⟨"choices", true, (·.choices.isSome),
    fun d => do pure { d with choices := some (← readArray fuel (depth - 1)) }⟩,
  ⟨"usage", false, (·.usage.isSome),
    fun d => do pure { d with usage := some (← readOptional (Usage.read fuel (depth - 1))) }⟩]

def Draft.toResponse (d : Draft) : Response :=
  { id := d.id.getD ""
    object := d.object.getD ""
    created := d.created.getD 0
    model := d.model.getD ""
    choices := (d.choices.getD []).filterMap Choice.ofJson?
    usage := d.usage.getD none }

def read (s : Bytes) : Except Failure Draft :=
  let fuel := fuelFor s
  (do
    let d ← readRecord "struct ResponseIn" (Draft.fields fuel depthLimit) fuel depthLimit {}
    finish
    pure d : Reader Draft).run' s

/-- A body that cannot be decoded, with the reason. -/
structure CodecError where
  reason : String

def CodecError.message (e : CodecError) : String :=
  "codec error: " ++ e.reason

def decode (body : Bytes) : Except CodecError Response :=
  match read body with
  | .ok d => .ok d.toResponse
  | .error f => .error ⟨f.message body⟩

end Response

end Parley
