import Mathlib.Data.List.Forall2
import Parley.Proofs.Acceptance
import Parley.Proofs.MessageRoundTrip
import Parley.Transport.Preset

/-! Prepared bodies are responses: what is decoded is what was prepared, less the choices whose role
is no role. -/
namespace Parley

open Json Json.Grammar Utf8

/-! Choices. -/

theorem Role.name_injective {r r' : Role} (same : r.name = r'.name) : r = r' := by
  have read := ofJson?_name r
  rw [same, ofJson?_name] at read
  exact (Option.some.inj read).symm

namespace PresetChoice

/-- The names of roles. -/
def roles : List String :=
  ["system", "user", "assistant", "tool"]

/-- A choice is decoded as it was prepared. -/
structure Kept (c : PresetChoice) (decoded : Choice) : Prop where
  index : decoded.index = c.index
  role : decoded.message.role.name = c.role
  content : decoded.message.content = c.content.getD ""
  toolCallId : decoded.message.toolCallId = none
  toolCalls : decoded.message.toolCalls = c.toolCalls
  finishReason : decoded.finishReason = c.finishReason

theorem mem_roles {s : String} : s ∈ roles ↔ ∃ r, Role.ofName? s = some r := by
  constructor
  · intro member
    simp only [roles, List.mem_cons, List.not_mem_nil, or_false] at member
    rcases member with rfl | rfl | rfl | rfl
    · exact ⟨.system, rfl⟩
    · exact ⟨.user, rfl⟩
    · exact ⟨.assistant, rfl⟩
    · exact ⟨.tool, rfl⟩
  · rintro ⟨r, named⟩
    obtain rfl := Role.name_of_ofName? named
    cases r <;> decide

def message (c : PresetChoice) : Json :=
  .obj ([("role", .str c.role), ("content", (c.content.map Json.str).getD .null)]
    ++ optionalMember "tool_calls" (!c.toolCalls.isEmpty)
      (.arr (c.toolCalls.map ToolCall.toJson)))

theorem toJson_eq (c : PresetChoice) : c.toJson =
    .obj [("index", .int c.index), ("message", c.message),
      ("finish_reason", (c.finishReason.map Json.str).getD .null)] :=
  rfl

theorem message_fields (c : PresetChoice) :
    c.message.fields? ["role", "content", "tool_call_id", "tool_calls"] =
      some [some (.str c.role), some ((c.content.map Json.str).getD .null), none,
        unlessEmpty (c.toolCalls.map ToolCall.toJson)] := by
  unfold message
  rw [fields?_obj]
  cases c.toolCalls <;> rfl

theorem ofJson?_message (c : PresetChoice) :
    Message.ofJson? c.message = (Role.ofName? c.role).map fun role =>
      { role, content := c.content.getD "", toolCalls := c.toolCalls } := by
  have absent := optionalString_map none
  unfold Message.ofJson?
  rw [message_fields]
  simp only [Option.map_none] at absent
  simp only [optionalString_getD, absent, ToolCall.listOfJson?_toJson, Role.ofJson?]
  cases Role.ofName? c.role <;> rfl

theorem ofJson?_toJson {c : PresetChoice} (small : c.index < Choice.indexLimit) :
    Choice.ofJson? c.toJson = (Message.ofJson? c.message).map fun message =>
      ⟨c.index, message, c.finishReason⟩ := by
  have fields : c.toJson.fields? ["index", "message", "finish_reason"] =
      some [some (.int c.index), some c.message,
        some ((c.finishReason.map Json.str).getD .null)] := by
    rw [toJson_eq, fields?_obj]
    rfl
  unfold Choice.ofJson?
  rw [fields]
  simp only [Choice.indexOfJson?_natCast small, optionalString_getD]
  cases Message.ofJson? c.message <;> rfl

/-- A choice is decoded just when its role is a role. -/
theorem decoded {c : PresetChoice} (small : c.index < Choice.indexLimit) :
    if c.role ∈ roles then ∃ decoded, Choice.ofJson? c.toJson = some decoded ∧ c.Kept decoded
    else Choice.ofJson? c.toJson = none := by
  rw [ofJson?_toJson small, ofJson?_message]
  split
  · next known =>
    obtain ⟨r, named⟩ := mem_roles.mp known
    refine ⟨_, by rw [named]; rfl, ?_⟩
    exact ⟨rfl, (Role.name_of_ofName? named).symm, rfl, rfl, rfl, rfl⟩
  · next unknown =>
    cases named : Role.ofName? c.role with
    | none => rfl
    | some r => exact absurd (mem_roles.mpr ⟨r, named⟩) unknown

theorem toJson_readable {c : PresetChoice} (small : c.index < Choice.indexLimit) (depth : Nat) :
    c.toJson.Readable (depth + 5) := by
  have limit : Choice.indexLimit < wordLimit := by decide
  rw [toJson_eq]
  refine .obj ?_
  simp only [List.forall_mem_cons]
  refine ⟨.int _ (by omega) (by omega), .obj ?_, readable_getD _ _, List.forall_mem_nil _⟩
  simp only [List.forall_mem_append, List.forall_mem_cons]
  refine ⟨⟨.str _ _, readable_getD _ _, List.forall_mem_nil _⟩, ?_⟩
  exact (Readable.map (ToolCall.toJson_readable depth) c.toolCalls).optional _ _

end PresetChoice

/-! Bodies. -/

namespace Preset

/-- The numbers fit the words they are kept in: 64 bits with a sign, and 32 bits without. -/
structure Bounded (p : Preset) : Prop where
  created : -0x8000000000000000 ≤ p.created ∧ p.created < 0x8000000000000000
  index : ∀ c ∈ p.choices, c.index < 0x100000000

theorem choices_kept {choices : List PresetChoice}
    (small : ∀ c ∈ choices, c.index < Choice.indexLimit) :
    List.Forall₂ PresetChoice.Kept (choices.filter fun c => c.role ∈ PresetChoice.roles)
      ((choices.map PresetChoice.toJson).filterMap Choice.ofJson?) := by
  induction choices with
  | nil => exact .nil
  | cons c choices ih =>
    obtain ⟨first, others⟩ := List.forall_mem_cons.mp small
    have decoded := PresetChoice.decoded first
    split at decoded
    · next known =>
      obtain ⟨choice, read, kept⟩ := decoded
      rw [List.filter_cons, if_pos (decide_eq_true known), List.map_cons,
        List.filterMap_cons_some read]
      exact .cons kept (ih others)
    · next unknown =>
      rw [List.filter_cons, if_neg (by simpa using unknown), List.map_cons,
        List.filterMap_cons_none decoded]
      exact ih others

/-- What is read of a prepared body. -/
def draft (p : Preset) : Response.Draft :=
  { id := some p.id, object := some p.object, created := some p.created, model := some p.model,
    choices := some (p.choices.map PresetChoice.toJson) }

theorem body_written {p : Preset} (bounded : p.Bounded) : Response.Written p.body p.draft := by
  have word : (wordLimit : Int) = 0x10000000000000000 := rfl
  obtain ⟨⟨least, most⟩, small⟩ := bounded
  have choices : Stands fieldDepth (encode (chars (.arr (p.choices.map PresetChoice.toJson))))
      (.arr (p.choices.map PresetChoice.toJson)) := by
    have each : ∀ j ∈ p.choices.map PresetChoice.toJson, j.Readable 125 := by
      intro j member
      obtain ⟨c, inside, rfl⟩ := List.mem_map.mp member
      exact PresetChoice.toJson_readable (small c inside) 120
    exact (Readable.arr each).stands
  have created : IsSigned (encode (chars (.int p.created))) p.created :=
    ⟨Readable.stands (.int _ least (by omega)), least, by omega⟩
  apply Response.written_obj
  constructor
  case id | object | model => exact ⟨_, rfl, Readable.stands (.str _ _)⟩
  case created => exact ⟨_, rfl, created⟩
  case choices => exact ⟨_, rfl, choices⟩
  case given => rfl
  case usage => simp [draft, Grammar.One]
  case others => simp [Response.Draft.names]

/-- The response is what was prepared, less the choices whose role is no role. -/
structure Decoded (p : Preset) (r : Response) : Prop where
  id : r.id = p.id
  object : r.object = p.object
  created : r.created = p.created
  model : r.model = p.model
  usage : r.usage = none
  choices : List.Forall₂ PresetChoice.Kept
    (p.choices.filter fun c => c.role ∈ PresetChoice.roles) r.choices

theorem decode_decoded {p : Preset} (bounded : p.Bounded) :
    ∃ r, Response.decode p.body = .ok r ∧ p.Decoded r := by
  refine ⟨p.draft.toResponse, Response.decode_iff.mpr ⟨p.draft, body_written bounded, rfl⟩, ?_⟩
  exact ⟨rfl, rfl, rfl, rfl, rfl, choices_kept bounded.index⟩

/-- One choice has a role. -/
theorem Decoded.single {p : Preset} {c : PresetChoice} {r : Response} (decoded : p.Decoded r)
    (role : Role)
    (one : (p.choices.filter fun c => c.role ∈ PresetChoice.roles) = [c])
    (named : c.role = role.name) : r.choices =
      [⟨c.index, { role, content := c.content.getD "", toolCalls := c.toolCalls },
        c.finishReason⟩] := by
  have kept := decoded.choices
  rw [one] at kept
  obtain ⟨⟨_, ⟨_, _, _, _⟩, _⟩, _, ⟨rfl, name, rfl, rfl, rfl, rfl⟩, others, same⟩ :=
    List.forall₂_cons_left_iff.mp kept
  obtain rfl := List.forall₂_nil_left_iff.mp others
  obtain rfl := Role.name_injective (name.trans named)
  exact same

theorem bounded_single {c : PresetChoice} (first : c.index = 0) :
    Bounded { choices := [c] } where
  created := ⟨show (-0x8000000000000000 : Int) ≤ 0 by decide, show (0 : Int) < _ by decide⟩
  index := List.forall_mem_singleton.mpr (by rw [first]; decide)

/-- A prepared body is decoded, and as it was prepared. One that asks for calls or says a text is
decoded to an assistant's message that does so. -/
theorem decode_body :
    (∀ p : Preset, p.Bounded → ∃ r, Response.decode p.body = .ok r ∧ p.Decoded r) ∧
    (∀ calls, ∃ r, Response.decode (toolCalls calls).body = .ok r ∧
      r.choices = [⟨0, (Message.assistant "").withToolCalls calls, some "tool_calls"⟩]) ∧
    ∀ text, ∃ r, Response.decode (assistant text).body = .ok r ∧
      r.choices = [⟨0, Message.assistant text, some "stop"⟩] := by
  refine ⟨fun p bounded => decode_decoded bounded, fun calls => ?_, fun text => ?_⟩
  · have bounded : (toolCalls calls).Bounded := bounded_single rfl
    obtain ⟨r, read, decoded⟩ := decode_decoded bounded
    exact ⟨r, read, decoded.single .assistant rfl rfl⟩
  · have bounded : (assistant text).Bounded := bounded_single rfl
    obtain ⟨r, read, decoded⟩ := decode_decoded bounded
    exact ⟨r, read, decoded.single .assistant rfl rfl⟩

/-- A choice whose role is no role, and one without a text. -/
def mixed : Preset where
  created := -1
  choices :=
    [{ index := 7, role := "Assistant", content := some "lost", finishReason := none },
      { index := 0xFFFFFFFF, role := "user", content := none, finishReason := some "stop" }]

theorem mixed_decoded : mixed.Bounded ∧ ∃ r, Response.decode mixed.body = .ok r ∧ r.created = -1 ∧
    r.choices = [⟨0xFFFFFFFF, Message.user "", some "stop"⟩] := by
  have bounded : mixed.Bounded := ⟨by decide, by simp [mixed]⟩
  obtain ⟨r, read, decoded⟩ := decode_body.1 mixed bounded
  exact ⟨bounded, r, read, decoded.created, decoded.single .user rfl rfl⟩

end Preset

end Parley
