import Parley.Chat.Request
import Parley.Proofs.Bodies
import Parley.Proofs.Writing

/-! A message that was written into a request is decoded from a response unchanged. -/
namespace Parley
open Json Json.Grammar Utf8

namespace Json

/-- An array, unless it has no items. -/
def unlessEmpty (items : List Json) : Option Json :=
  if items.isEmpty then none else some (.arr items)

theorem fields?_obj (names : List String) (members : List (String × Json)) :
    fields? names (.obj members) = some (names.map fun name => members.reverse.lookup name) := by
  have found : (Dict.ofEntries members).find? = fun name => members.reverse.lookup name := by
    funext name
    exact Dict.find?_ofEntries members name
  simp only [fields?, found]

theorem Readable.optional {depth : Nat} {value : Json} (readable : value.Readable depth)
    (name : String) (present : Bool) :
    ∀ m ∈ optionalMember name present value, m.2.Readable depth := by
  intro m member
  cases present with
  | false => cases member
  | true =>
    obtain rfl := List.mem_singleton.mp member
    exact readable

theorem Readable.map {α : Type} {f : α → Json} {depth : Nat} (readable : ∀ x, (f x).Readable depth)
    (xs : List α) : Readable (depth + 1) (.arr (xs.map f)) := by
  refine .arr fun j member => ?_
  obtain ⟨x, -, rfl⟩ := List.mem_map.mp member
  exact readable x

theorem itemChars_append (before : List Json) (j : Json) (after : List Json) :
    itemChars (before ++ j :: after) =
      before.flatMap (fun i => ',' :: chars i) ++ ',' :: chars j ++ itemChars after := by
  induction before with
  | nil => rfl
  | cons i before ih =>
    rw [List.cons_append, itemChars, ih, List.flatMap_cons]
    simp only [List.cons_append, List.append_assoc]

/-- The text of an array holds the text of each item, and the rest of it depends on the others
alone. -/
theorem chars_arr_append (before after : List Json) :
    ∃ head tail, ∀ j, chars (.arr (before ++ j :: after)) = head ++ chars j ++ tail := by
  cases before with
  | nil => exact ⟨['['], itemChars after, fun j => by rw [List.nil_append, chars]; rfl⟩
  | cons i before =>
    refine ⟨'[' :: chars i ++ before.flatMap (fun i => ',' :: chars i) ++ [','], itemChars after, ?_⟩
    intro j
    rw [List.cons_append, chars, itemChars_append]
    simp only [List.cons_append, List.append_assoc, List.nil_append]

theorem optionalString_map (s : Option String) : optionalString (s.map .str) = some s := by
  cases s <;> rfl

theorem readable_getD (depth : Nat) (s : Option String) :
    ((s.map Json.str).getD Json.null).Readable depth := by
  cases s with
  | none => exact .null depth
  | some s => exact .str depth s

theorem optionalString_getD (s : Option String) :
    optionalString (some ((s.map .str).getD .null)) = some s := by
  cases s <;> rfl

end Json

namespace ToolCall

theorem ofJson?_toJson (c : ToolCall) : ofJson? c.toJson = some c := by
  simp [ofJson?, toJson, fields?_obj, List.lookup_cons, stringOr, asString?]

theorem toJson_readable (depth : Nat) (c : ToolCall) : c.toJson.Readable (depth + 2) := by
  refine .obj ?_
  simp only [List.forall_mem_cons]
  refine ⟨.str _ _, .str _ _, .obj ?_, List.forall_mem_nil _⟩
  simp only [List.forall_mem_cons]
  exact ⟨.str _ _, .str _ _, List.forall_mem_nil _⟩

theorem listOfJson?_toJson (calls : List ToolCall) :
    listOfJson? (unlessEmpty (calls.map toJson)) = some calls := by
  have all : (calls.map toJson).mapM ofJson? = some calls := by
    induction calls with
    | nil => rfl
    | cons c calls ih => simp [ofJson?_toJson, ih]
  cases calls with
  | nil => rfl
  | cons c calls => exact all

end ToolCall

theorem Role.ofJson?_name (r : Role) : Role.ofJson? (.str r.name) = some r := by
  cases r <;> rfl

namespace Message

theorem toJson_fields (m : Message) :
    m.toJson.fields? ["role", "content", "tool_call_id", "tool_calls"] =
      some [some (.str m.role.name), some (.str m.content), m.toolCallId.map .str,
        unlessEmpty (m.toolCalls.map ToolCall.toJson)] := by
  obtain ⟨role, content, toolCallId, toolCalls⟩ := m
  unfold toJson
  rw [fields?_obj]
  cases toolCallId <;> cases toolCalls <;> rfl

theorem ofJson?_toJson (m : Message) : ofJson? m.toJson = some m := by
  have content := optionalString_map (some m.content)
  rw [Option.map_some] at content
  unfold ofJson?
  rw [toJson_fields]
  simp only [Role.ofJson?_name, content, optionalString_map, ToolCall.listOfJson?_toJson,
    Option.bind_eq_bind, Option.bind_some, Option.getD_some, Option.pure_def]

theorem toJson_readable (depth : Nat) (m : Message) : m.toJson.Readable (depth + 4) := by
  refine .obj ?_
  simp only [List.forall_mem_append, List.forall_mem_cons]
  refine ⟨⟨⟨.str _ _, .str _ _, List.forall_mem_nil _⟩, ?_⟩, ?_⟩
  · exact Readable.optional (.str _ _) _ _
  · exact (Readable.map (ToolCall.toJson_readable depth) m.toolCalls).optional _ _

/-- The text of a message in a payload. -/
def text (m : Message) : List Char :=
  chars m.toJson

theorem text_payload (model : String) (before after : List Message) (tools : List ToolDefinition) :
    ∃ head tail, ∀ m : Message,
      (Request.mk model (before ++ m :: after) tools).payload.toList = head ++ m.text ++ tail := by
  obtain ⟨head, tail, holds⟩ := chars_arr_append (before.map toJson) (after.map toJson)
  refine ⟨'\x7b' :: quoted "model".toList ++ ':' :: quoted model.toList ++ ',' ::
    quoted "messages".toList ++ ':' :: head, tail ++ memberChars (optionalMember "tools"
      (!tools.isEmpty) (.arr (tools.map ToolDefinition.toJson))), ?_⟩
  intro m
  rw [Request.payload, render, String.toList_ofList, Request.toJson, List.cons_append,
    List.cons_append, List.nil_append, chars, memberChars, chars, List.map_append, List.map_cons,
    holds]
  simp only [text, List.cons_append, List.append_assoc]

end Message

namespace Choice

def toJson (c : Choice) : Json :=
  .obj [("index", .int c.index), ("message", c.message.toJson),
    ("finish_reason", (c.finishReason.map .str).getD .null)]

theorem indexOfJson?_natCast {n : Nat} (small : n < indexLimit) :
    indexOfJson? (some (.int n)) = some n := by
  unfold indexOfJson?
  dsimp only
  rw [if_pos (by omega), Int.toNat_natCast]

theorem ofJson?_toJson {c : Choice} (small : c.index < indexLimit) : ofJson? c.toJson = some c := by
  simp [ofJson?, toJson, fields?_obj, List.lookup_cons, indexOfJson?_natCast small,
    optionalString_getD, Message.ofJson?_toJson]

theorem toJson_readable (depth : Nat) {c : Choice} (small : c.index < indexLimit) :
    c.toJson.Readable (depth + 5) := by
  refine .obj ?_
  simp only [List.forall_mem_cons]
  have limit : indexLimit < wordLimit := by decide
  exact ⟨.int _ (by omega) (by omega), c.message.toJson_readable depth, readable_getD _ _,
    List.forall_mem_nil _⟩

end Choice

namespace Response

/-- The text of a body with one choice, around the text of its message. -/
def choiceBody (index : UInt32) (message : List Char) (finish : Option String) : List Char :=
  "\x7b\"choices\":[\x7b\"index\":".toList ++ Decimal.natText index.toNat
    ++ ",\"message\":".toList ++ message
    ++ ",\"finish_reason\":".toList ++ (finish.elim "null".toList fun f => quoted f.toList)
    ++ "\x7d]\x7d".toList

theorem choiceBody_text (index : UInt32) (m : Message) (finish : Option String) :
    choiceBody index m.text finish =
      chars (.obj [("choices", .arr [Choice.toJson ⟨index.toNat, m, finish⟩])]) := by
  have index_name : "\x7b\"choices\":[\x7b\"index\":".toList = '\x7b' :: quoted "choices".toList
      ++ ':' :: '[' :: '\x7b' :: quoted "index".toList ++ [':'] := rfl
  have message_name : ",\"message\":".toList = ',' :: quoted "message".toList ++ [':'] := rfl
  have finish_name : ",\"finish_reason\":".toList = ',' :: quoted "finish_reason".toList ++ [':'] :=
    rfl
  have closing : "\x7d]\x7d".toList = ['\x7d', ']', '\x7d'] := rfl
  have number : chars (.int index.toNat) = Decimal.natText index.toNat := by
    rw [chars, Decimal.intText, if_neg (by omega), Int.natAbs_natCast]
  have reason : chars ((finish.map .str).getD .null) =
      finish.elim "null".toList fun f => quoted f.toList := by
    cases finish <;> simp only [Option.map, Option.getD, Option.elim, chars]
  unfold choiceBody
  simp only [index_name, message_name, finish_name, closing, ← number, ← reason]
  simp only [Choice.toJson, chars, itemChars, memberChars, Message.text, List.cons_append,
    List.nil_append, List.append_assoc]

/-- An object is a body if its members are those of a response. -/
theorem written_obj {ms : List (String × Json)} {d : Draft}
    (holds : d.Holds (ms.map fun m => (m.1, encode (chars m.2)))) :
    Written (encode (chars (.obj ms))) d := by
  refine ⟨blank, blank, _, _, ?_, recordText_obj Draft.names ms, holds⟩
  rw [encode_blank, List.append_nil, List.nil_append]

theorem written_choices {choices : List Json} (readable : ∀ j ∈ choices, j.Readable 125) :
    Written (encode (chars (.obj [("choices", .arr choices)]))) { choices := some choices } := by
  apply written_obj
  constructor
  case choices => exact ⟨_, rfl, (Readable.arr readable).stands⟩
  case given => rfl
  case others => simp [Draft.names]
  all_goals simp [Grammar.One]

theorem decode_choices (choices : List Choice) (small : ∀ c ∈ choices, c.index < Choice.indexLimit) :
    decode (encode (chars (.obj [("choices", .arr (choices.map Choice.toJson))]))) =
      .ok { choices } := by
  have readable : ∀ j ∈ choices.map Choice.toJson, j.Readable 125 := by
    intro j member
    obtain ⟨c, inside, rfl⟩ := List.mem_map.mp member
    exact Choice.toJson_readable 120 (small c inside)
  have fits : (choices.map Choice.toJson).filterMap Choice.ofJson? = choices := by
    rw [List.filterMap_map]
    clear readable
    induction choices with
    | nil => rfl
    | cons c choices ih =>
      obtain ⟨first, others⟩ := List.forall_mem_cons.mp small
      rw [List.filterMap_cons, Function.comp_apply, Choice.ofJson?_toJson first, ih others]
  refine decode_iff.mpr ⟨_, written_choices readable, ?_⟩
  simp only [Draft.toResponse, Option.getD_some, fits]
  rfl

/-- What stands for a message in a payload stands for the same message in a body. -/
theorem decode_text (m : Message) (index : UInt32) (finish : Option String) :
    (∀ model before after tools, ∃ head tail, ∀ other : Message,
      (Request.mk model (before ++ other :: after) tools).payload.toList =
        head ++ other.text ++ tail) ∧
    decode (encode (choiceBody index m.text finish)) =
      .ok { choices := [⟨index.toNat, m, finish⟩] } := by
  refine ⟨Message.text_payload, ?_⟩
  rw [choiceBody_text]
  exact decode_choices [⟨index.toNat, m, finish⟩] (List.forall_mem_singleton.mpr index.toNat_lt)

end Response

end Parley
