import Mathlib.Data.List.Induction
import Parley.Proofs.Payload

/-! Parameters added to a definition one after the other, under names that may repeat. The
properties keep what was said last of a name, and the required names stand in the order in which they
were first required. -/
namespace Parley

/-- What is said when a parameter is added. -/
structure Parameter where
  name : String
  type : String
  description : String
  required : Bool

namespace Parameter

def property (c : Parameter) : Property :=
  ⟨c.type, c.description⟩

/-- One of these, and none behind it has its name. -/
def LastOf (c : Parameter) (calls : List Parameter) : Prop :=
  ∃ before after, calls = before ++ c :: after ∧ ∀ later ∈ after, later.name ≠ c.name

def requires (name : String) (c : Parameter) : Bool :=
  c.required && c.name = name

/-- How many stand in front of the first one that requires the name. -/
def firstRequired (calls : List Parameter) (name : String) : Nat :=
  calls.findIdx (requires name)

variable {calls : List Parameter} {c : Parameter} {name : String}

theorem firstRequired_lt :
    firstRequired calls name < calls.length ↔ ∃ c ∈ calls, c.required = true ∧ c.name = name := by
  unfold firstRequired requires
  simp only [List.findIdx_lt_length, Bool.and_eq_true, decide_eq_true_eq]

theorem firstRequired_known (known : firstRequired calls name < calls.length) :
    firstRequired (calls ++ [c]) name = firstRequired calls name :=
  List.findIdx_append.trans (if_pos known)

theorem firstRequired_new (new : ¬ firstRequired calls c.name < calls.length)
    (asked : c.required = true) : firstRequired (calls ++ [c]) c.name = calls.length := by
  refine (List.findIdx_append.trans (if_neg new)).trans ?_
  simp [List.findIdx_cons, requires, asked]

end Parameter

namespace ToolDefinition
open Parameter

def add (d : ToolDefinition) (c : Parameter) : ToolDefinition :=
  d.withParameter c.name c.type c.description c.required

/-- The definition to which these parameters and no others were added. -/
def ofParameters (name description : String) (calls : List Parameter) : ToolDefinition :=
  calls.foldl add { name, description }

variable {name description : String} {calls : List Parameter}

theorem ofParameters_concat (c : Parameter) :
    ofParameters name description (calls ++ [c]) = (ofParameters name description calls).add c :=
  List.foldl_concat _ _ _ _

theorem ofParameters_named : (ofParameters name description calls).name = name ∧
    (ofParameters name description calls).description = description := by
  induction calls using List.reverseRecOn with
  | nil => exact ⟨rfl, rfl⟩
  | append_singleton calls c ih =>
    rw [ofParameters_concat]
    exact ih

theorem properties_eq : (ofParameters name description calls).properties =
    Dict.ofEntries (calls.map fun c => (c.name, c.property)) := by
  induction calls using List.reverseRecOn with
  | nil => rfl
  | append_singleton calls c ih =>
    rw [ofParameters_concat, List.map_append, List.map_singleton, Dict.ofEntries_concat, ← ih]
    rfl

theorem find?_properties {key : String} {p : Property} :
    (ofParameters name description calls).properties.find? key = some p ↔
      ∃ c : Parameter, c.LastOf calls ∧ c.name = key ∧ c.property = p := by
  rw [properties_eq, Dict.find?_ofEntries_eq_some]
  constructor
  · rintro ⟨before, after, split, none⟩
    obtain ⟨before, rest, rfl, rfl, back⟩ := List.map_eq_append_iff.mp split
    obtain ⟨c, after, rfl, same, rfl⟩ := List.map_eq_cons_iff.mp back
    obtain ⟨rfl, rfl⟩ := Prod.mk.inj same
    refine ⟨c, ⟨before, after, rfl, ?_⟩, rfl, rfl⟩
    exact fun later inside => none _ (List.mem_map_of_mem inside)
  · rintro ⟨c, ⟨before, after, rfl, none⟩, rfl, rfl⟩
    refine ⟨_, _, List.map_append.trans (congrArg _ List.map_cons), ?_⟩
    intro e member
    obtain ⟨later, inside, rfl⟩ := List.mem_map.mp member
    exact none later inside

theorem mem_properties {key : String} :
    key ∈ (ofParameters name description calls).properties.map (·.1) ↔
      ∃ c ∈ calls, c.name = key := by
  rw [properties_eq, Dict.mem_keys_ofEntries, List.map_map]
  exact List.mem_map

/-- A parameter leaves the required names as they are, or it is required and its name is put behind
the others. -/
theorem required_add (d : ToolDefinition) (c : Parameter) :
    ((d.add c).required = d.required ∧ (c.required = true → c.name ∈ d.required)) ∨
    ((d.add c).required = d.required ++ [c.name] ∧ c.required = true ∧ c.name ∉ d.required) := by
  unfold add withParameter
  cases asked : c.required with
  | false => exact .inl ⟨rfl, nofun⟩
  | true =>
    by_cases known : c.name ∈ d.required
    · exact .inl ⟨by simp [known], fun _ => known⟩
    · exact .inr ⟨by simp [known], rfl, known⟩

theorem mem_required {key : String} :
    key ∈ (ofParameters name description calls).required ↔
      ∃ c ∈ calls, c.required = true ∧ c.name = key := by
  induction calls using List.reverseRecOn with
  | nil => exact ⟨nofun, nofun⟩
  | append_singleton calls c ih =>
    rw [ofParameters_concat]
    simp only [List.mem_append, List.mem_singleton, or_and_right, exists_or, exists_eq_left, ← ih]
    rcases required_add (ofParameters name description calls) c with
      ⟨same, known⟩ | ⟨more, asked, -⟩
    · rw [same]
      exact (or_iff_left_of_imp fun ⟨asked, here⟩ => here ▸ known asked).symm
    · rw [more, List.mem_append, List.mem_singleton, eq_comm, and_iff_right asked]

theorem required_in_order : (ofParameters name description calls).required.Pairwise
    fun earlier later => firstRequired calls earlier < firstRequired calls later := by
  induction calls using List.reverseRecOn with
  | nil => exact .nil
  | append_singleton calls c ih =>
    -- A known name keeps its place, and a new one is first required behind all that came before.
    have known : ∀ key ∈ (ofParameters name description calls).required,
        firstRequired calls key < calls.length :=
      fun key member => firstRequired_lt.mpr (mem_required.mp member)
    have kept : (ofParameters name description calls).required.Pairwise fun earlier later =>
        firstRequired (calls ++ [c]) earlier < firstRequired (calls ++ [c]) later := by
      refine ih.imp_of_mem fun first second less => ?_
      rwa [firstRequired_known (known _ first), firstRequired_known (known _ second)]
    rw [ofParameters_concat]
    rcases required_add (ofParameters name description calls) c with
      ⟨same, -⟩ | ⟨more, asked, fresh⟩
    · rw [same]
      exact kept
    · rw [more, List.pairwise_append]
      refine ⟨kept, List.pairwise_singleton _ _, ?_⟩
      intro key member last new
      obtain rfl := List.mem_singleton.mp new
      have unasked : ¬ firstRequired calls c.name < calls.length := by
        rwa [firstRequired_lt, ← mem_required]
      rw [firstRequired_known (known key member), firstRequired_new unasked asked]
      exact known key member

/-- After any parameters a definition has the name and description that it was made with. Its
properties are a map of just the names given, each with the type and description said last. Its
required names do not repeat, are just those that were ever required, stand in the order in which
they first were, and all have a property. A request shows these properties and required names. -/
theorem schema_consistent (name description : String) (calls : List Parameter) :
    let d := ofParameters name description calls
    d.name = name ∧ d.description = description ∧
    d.properties.Ordered ∧
    (∀ key p, d.properties.find? key = some p ↔
      ∃ c : Parameter, c.LastOf calls ∧ c.name = key ∧ c.property = p) ∧
    (∀ key, key ∈ d.properties.map (·.1) ↔ ∃ c ∈ calls, c.name = key) ∧
    d.required.Nodup ∧
    (∀ key, key ∈ d.required ↔ ∃ c ∈ calls, c.required = true ∧ c.name = key) ∧
    (d.required.Pairwise fun earlier later =>
      firstRequired calls earlier < firstRequired calls later) ∧
    (∀ key ∈ d.required, key ∈ d.properties.map (·.1)) ∧
    d.Shape d.toJson := by
  intro d
  have distinct : d.required.Nodup := by
    refine required_in_order.imp fun less same => ?_
    exact less.ne (congrArg (firstRequired calls) same)
  have described : ∀ key ∈ d.required, key ∈ d.properties.map (·.1) := by
    intro key member
    obtain ⟨c, inside, -, named⟩ := mem_required.mp member
    exact mem_properties.mpr ⟨c, inside, named⟩
  exact ⟨ofParameters_named.1, ofParameters_named.2, d.ordered, fun _ _ => find?_properties,
    fun _ => mem_properties, distinct, fun _ => mem_required, required_in_order, described,
    d.toJson_shape⟩

example :
    let d := ofParameters "weather" "Weather" [⟨"unit", "string", "The unit", false⟩,
      ⟨"city", "string", "The city", true⟩, ⟨"unit", "number", "The scale", true⟩,
      ⟨"city", "string", "The city and state", false⟩]
    d.properties = [("city", ⟨"string", "The city and state"⟩), ("unit", ⟨"number", "The scale"⟩)] ∧
      d.required = ["city", "unit"] := by
  decide

end ToolDefinition

end Parley
