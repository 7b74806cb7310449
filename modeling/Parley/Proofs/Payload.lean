import Mathlib.Data.List.Forall2
import Parley.Proofs.MessageRoundTrip

/-! A payload says all of its request: what is read back from it has the shape that the API
prescribes, and no other request has the same payload. -/
namespace Parley

namespace Json

/-- An object with these members in any order. A member without a value is left out. -/
def Record (fields : List (String × Option Json)) (j : Json) : Prop :=
  ∃ members, j = .obj members ∧ members.Perm (fields.filterMap fun f => f.2.map (f.1, ·))

theorem optionalMember_items {α : Type} {f : α → Json} (injective : Function.Injective f)
    {name : String} {xs ys : List α}
    (same : optionalMember name (!xs.isEmpty) (.arr (xs.map f)) =
      optionalMember name (!ys.isEmpty) (.arr (ys.map f))) : xs = ys := by
  cases xs with
  | nil =>
    cases ys with
    | nil => rfl
    | cons y ys => cases same
  | cons x xs =>
    cases ys with
    | nil => cases same
    | cons y ys =>
      obtain ⟨first, -⟩ := List.cons.inj same
      have items := Json.arr.inj (Prod.mk.inj first).2
      exact List.map_injective_iff.mpr injective items

end Json

open Json

/-! The shapes. -/

def ToolCall.Shape (c : ToolCall) (j : Json) : Prop :=
  ∃ function,
    function.Record [("name", some (.str c.name)), ("arguments", some (.str c.arguments))] ∧
    j.Record [("id", some (.str c.id)), ("type", some (.str c.kind)), ("function", some function)]

def Message.Shape (m : Message) (j : Json) : Prop :=
  ∃ calls, List.Forall₂ ToolCall.Shape m.toolCalls calls ∧
    j.Record [("role", some (.str m.role.name)), ("content", some (.str m.content)),
      ("tool_call_id", m.toolCallId.map .str), ("tool_calls", unlessEmpty calls)]

def Property.Shape (p : Property) (j : Json) : Prop :=
  j.Record [("type", some (.str p.type)), ("description", some (.str p.description))]

/-- The properties stand in the order of the UTF-8 bytes of their names. -/
def ToolDefinition.Shape (d : ToolDefinition) (j : Json) : Prop :=
  ∃ properties parameters function,
    List.Forall₂ (fun p q => p.1 = q.1 ∧ p.2.Shape q.2) d.properties properties ∧
    (properties.map fun q => Utf8.ofString q.1).Pairwise (· < ·) ∧
    parameters.Record [("type", some (.str "object")), ("properties", some (.obj properties)),
      ("required", unlessEmpty (d.required.map .str))] ∧
    function.Record [("name", some (.str d.name)), ("description", some (.str d.description)),
      ("parameters", some parameters)] ∧
    j.Record [("type", some (.str "function")), ("function", some function)]

def Request.Shape (r : Request) (j : Json) : Prop :=
  ∃ messages tools,
    List.Forall₂ Message.Shape r.messages messages ∧
    List.Forall₂ ToolDefinition.Shape r.tools tools ∧
    j.Record [("model", some (.str r.model)), ("messages", some (.arr messages)),
      ("tools", unlessEmpty tools)]

theorem forall₂_map {α β : Type} {S : α → β → Prop} {f : α → β} {xs : List α}
    (shape : ∀ x ∈ xs, S x (f x)) : List.Forall₂ S xs (xs.map f) :=
  List.forall₂_map_right_iff.mpr (List.forall₂_same.mpr shape)

theorem ToolCall.toJson_shape (c : ToolCall) : c.Shape c.toJson :=
  ⟨_, ⟨_, rfl, .refl _⟩, ⟨_, rfl, .refl _⟩⟩

namespace Message

theorem toJson_shape (m : Message) : m.Shape m.toJson := by
  refine ⟨m.toolCalls.map ToolCall.toJson, forall₂_map fun c _ => c.toJson_shape, _, rfl, ?_⟩
  obtain ⟨role, content, toolCallId, toolCalls⟩ := m
  cases toolCallId <;> cases toolCalls <;> exact .refl _

theorem toJson_injective : Function.Injective toJson := by
  intro m n same
  have read := ofJson?_toJson m
  rw [same, ofJson?_toJson] at read
  exact (Option.some.inj read).symm

end Message

theorem Property.toJson_injective : Function.Injective Property.toJson := by
  intro p q same
  obtain ⟨type, description⟩ := p
  obtain ⟨type', description'⟩ := q
  simpa [Property.toJson] using same

namespace ToolDefinition

theorem schema_shape (d : ToolDefinition) :
    d.schema.Record [("type", some (.str "object")),
      ("properties", some (.obj (d.properties.map fun p => (p.1, p.2.toJson)))),
      ("required", unlessEmpty (d.required.map .str))] := by
  refine ⟨_, rfl, ?_⟩
  obtain ⟨name, description, properties, required⟩ := d
  cases required <;> exact .refl _

theorem toJson_shape (d : ToolDefinition) : d.Shape d.toJson := by
  refine ⟨d.properties.map fun p => (p.1, p.2.toJson), d.schema, _, ?_, ?_, d.schema_shape,
    ⟨_, rfl, .refl _⟩, ⟨_, rfl, .refl _⟩⟩
  · exact forall₂_map fun p _ => ⟨rfl, _, rfl, .refl _⟩
  · rw [List.map_map]
    exact (List.pairwise_map.mp d.ordered).map _ fun _ _ less => Utf8.ofString_lt less

theorem schema_readable (depth : Nat) (d : ToolDefinition) : d.schema.Readable (depth + 3) := by
  have properties : ∀ m ∈ d.properties.map fun p => (p.1, p.2.toJson), m.2.Readable (depth + 1) := by
    intro m member
    obtain ⟨p, -, rfl⟩ := List.mem_map.mp member
    refine .obj ?_
    simp only [List.forall_mem_cons]
    exact ⟨.str _ _, .str _ _, List.forall_mem_nil _⟩
  refine .obj ?_
  simp only [List.forall_mem_append, List.forall_mem_cons]
  refine ⟨⟨.str _ _, .obj properties, List.forall_mem_nil _⟩, ?_⟩
  exact (Readable.map (Readable.str _) d.required).optional _ _

theorem toJson_readable (depth : Nat) (d : ToolDefinition) : d.toJson.Readable (depth + 5) := by
  refine .obj ?_
  simp only [List.forall_mem_cons]
  refine ⟨.str _ _, .obj ?_, List.forall_mem_nil _⟩
  simp only [List.forall_mem_cons]
  exact ⟨.str _ _, .str _ _, d.schema_readable depth, List.forall_mem_nil _⟩

theorem schema_injective {d e : ToolDefinition} (same : d.schema = e.schema) :
    d.properties = e.properties ∧ d.required = e.required := by
  have members := Json.obj.inj same
  simp only [List.cons_append, List.nil_append, List.cons.injEq, Prod.mk.injEq, Json.obj.injEq,
    true_and] at members
  obtain ⟨properties, required⟩ := members
  constructor
  · apply List.map_injective_iff.mpr ?_ properties
    intro p q pair
    obtain ⟨name, value⟩ := Prod.mk.inj pair
    exact Prod.ext name (Property.toJson_injective value)
  · exact optionalMember_items (fun _ _ => Json.str.inj) required

theorem toJson_injective : Function.Injective toJson := by
  intro d e same
  simp only [toJson, Json.obj.injEq, List.cons.injEq, Prod.mk.injEq, Json.str.injEq, true_and,
    and_true] at same
  obtain ⟨name, description, schema⟩ := same
  obtain ⟨properties, required⟩ := schema_injective schema
  cases d
  cases e
  simp_all only

end ToolDefinition

namespace Request

theorem toJson_shape (r : Request) : r.Shape r.toJson := by
  refine ⟨r.messages.map Message.toJson, r.tools.map ToolDefinition.toJson,
    forall₂_map fun m _ => m.toJson_shape,
    forall₂_map fun d _ => d.toJson_shape, _, rfl, ?_⟩
  obtain ⟨model, messages, tools⟩ := r
  cases tools <;> exact .refl _

theorem toJson_readable (depth : Nat) (r : Request) : r.toJson.Readable (depth + 7) := by
  refine .obj ?_
  simp only [List.forall_mem_append, List.forall_mem_cons]
  refine ⟨⟨.str _ _, ?_, List.forall_mem_nil _⟩, ?_⟩
  · exact Readable.map (Message.toJson_readable (depth + 1)) r.messages
  · exact (Readable.map (ToolDefinition.toJson_readable depth) r.tools).optional _ _

theorem toJson_injective : Function.Injective toJson := by
  intro r s same
  have members := Json.obj.inj same
  simp only [List.cons_append, List.nil_append, List.cons.injEq, Prod.mk.injEq, Json.str.injEq,
    Json.arr.injEq, true_and] at members
  obtain ⟨model, messages, tools⟩ := members
  have messages := List.map_injective_iff.mpr Message.toJson_injective messages
  have tools := optionalMember_items ToolDefinition.toJson_injective tools
  cases r
  cases s
  simp_all only

theorem payload_injective : Function.Injective payload := by
  intro r s same
  exact toJson_injective (render_injective (r.toJson_readable 120) (s.toJson_readable 120) same)

theorem payload_read (r : Request) :
    ∃ j, Json.read (Utf8.ofString r.payload) = .ok j ∧ r.Shape j :=
  ⟨r.toJson, parse_render (r.toJson_readable 120), r.toJson_shape⟩

/-- The body is UTF-8, it reads as JSON of the shape that the API prescribes, and it tells the
request. -/
theorem payload_faithful (r : Request) :
    Utf8.decode? (Utf8.ofString r.payload) = some r.payload.toList ∧
    (∃ j, Json.read (Utf8.ofString r.payload) = .ok j ∧ r.Shape j) ∧
    ∀ other : Request, Utf8.ofString other.payload = Utf8.ofString r.payload →
      other.model = r.model ∧ other.messages = r.messages ∧ other.tools = r.tools := by
  refine ⟨Utf8.decode?_encode _, r.payload_read, ?_⟩
  intro other same
  obtain rfl := payload_injective (Utf8.ofString_injective same)
  exact ⟨rfl, rfl, rfl⟩

/-- An empty call id, properties given out of order and required names that repeat or have no
property. -/
def awkward : Request where
  model := "test-model"
  messages := [.user "\"Hot\"\n\\ or not?", .toolResult "" "é", .assistant ""]
  tools := [{ name := "weather", description := "" },
    ({ name := "weather", description := "", required := ["when", "city", "when"] } : ToolDefinition)
      |>.withParameter "unit" "string" "" false
      |>.withParameter "city" "string" "of it" true]

theorem awkward_faithful :
    awkward.tools.map (fun d => (d.properties.map (·.1), d.required)) =
      [([], []), (["city", "unit"], ["when", "city", "when"])] ∧
    Utf8.decode? (Utf8.ofString awkward.payload) = some awkward.payload.toList ∧
    (∃ j, Json.read (Utf8.ofString awkward.payload) = .ok j ∧ awkward.Shape j) ∧
    ∀ other : Request, Utf8.ofString other.payload = Utf8.ofString awkward.payload →
      other.model = awkward.model ∧ other.messages = awkward.messages ∧
        other.tools = awkward.tools :=
  ⟨by decide, payload_faithful awkward⟩

end Request

end Parley
