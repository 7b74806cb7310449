import Parley.Chat.Response
import Parley.Json.Basic

/-! Choices read from JSON values. A record is an object, or an array of its fields in order; in an
object the last of a repeated member counts and others are ignored. A choice that does not fit is no
choice. -/
namespace Parley

open Json

/-- The values of the named fields, as far as they are there. -/
def Json.fields? (names : List String) : Json → Option (List (Option Json))
  | .arr items =>
    if items.length ≤ names.length then
      some (items.map some ++ List.replicate (names.length - items.length) none)
    else none
  | .obj members =>
    let d := Dict.ofEntries members
    some (names.map d.find?)
  | _ => none

def Json.stringOr (fallback : String) : Option Json → Option String
  | none => some fallback
  | some j => j.asString?

/-- A string that may be absent or null. -/
def Json.optionalString : Option Json → Option (Option String)
  | none | some .null => some none
  | some j => j.asString?.map some

/-- A role by its name, or by an object with the name as its only member and no value. -/
def Role.ofJson? : Json → Option Role
  | .str s => Role.ofName? s
  | .obj members =>
    match Dict.ofEntries members with
    | [(name, .null)] => Role.ofName? name
    | _ => none
  | _ => none

def ToolCall.ofJson? (j : Json) : Option ToolCall :=
  match j.fields? ["id", "type", "function"] with
  | some [some (.str id), type, some function] => do
    let kind ← stringOr functionKind type
    match ← function.fields? ["name", "arguments"] with
    | [name, arguments] =>
      pure ⟨id, kind, ← stringOr "" name, ← stringOr "" arguments⟩
    | _ => none
  | _ => none

/-- A list of calls that may be absent or null. One call that does not fit spoils it. -/
def ToolCall.listOfJson? : Option Json → Option (List ToolCall)
  | none | some .null => some []
  | some (.arr items) => items.mapM ToolCall.ofJson?
  | some _ => none

def Message.ofJson? (j : Json) : Option Message :=
  match j.fields? ["role", "content", "tool_call_id", "tool_calls"] with
  | some [some role, content, toolCallId, toolCalls] => do
    pure
      { role := ← Role.ofJson? role
        content := (← optionalString content).getD ""
        toolCallId := ← optionalString toolCallId
        toolCalls := ← ToolCall.listOfJson? toolCalls }
  | _ => none

namespace Choice

/-- `2 ^ 32`. -/
def indexLimit : Nat := 0x100000000

def indexOfJson? : Option Json → Option Nat
  | none => some 0
  | some (.int n) => if 0 ≤ n ∧ n < indexLimit then some n.toNat else none
  | some _ => none

def ofJson? (j : Json) : Option Choice :=
  match j.fields? ["index", "message", "finish_reason"] with
  | some [index, some message, finishReason] => do
    pure
      { index := ← indexOfJson? index
        message := ← Message.ofJson? message
        finishReason := ← optionalString finishReason }
  | _ => none

end Choice

end Parley
