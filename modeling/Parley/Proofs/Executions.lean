import Parley.Tool.Execution

/-! What a call of a tool comes to, and what it leaves in the registry. -/
namespace Parley

/-- A call as its tool sees it. -/
def ToolCall.asked (c : ToolCall) : Invocation :=
  ⟨(Arguments.parse c.arguments).toOption.getD {}, c.name, c.id⟩

theorem ToolCall.invocation_asked (c : ToolCall) : c.invocation.1 = c.asked := by
  unfold invocation asked
  cases Arguments.parse c.arguments <;> rfl

theorem ToolCall.invocation_plain (c : ToolCall) : ∀ n ∈ c.invocation.2, n.isDetail = false := by
  unfold invocation
  cases Arguments.parse c.arguments with
  | ok arguments => exact List.forall_mem_nil _
  | error e => exact List.forall_mem_singleton.mpr rfl

def RegisteredTool.serving (t : RegisteredTool) (call : Invocation) : RegisteredTool :=
  { t with served := call :: t.served }

@[simp] theorem RegisteredTool.serving_definition (t : RegisteredTool) (call : Invocation) :
    (t.serving call).definition = t.definition :=
  rfl

namespace Registry

theorem find?_eq_some_iff {r : Registry} {name : String} {t : RegisteredTool} :
    r.find? name = some t ↔ ∃ i, r.index.find? name = some i ∧ r.tools[i]? = some t :=
  Option.bind_eq_some_iff

theorem find?_name {r : Registry} {name : String} {t : RegisteredTool}
    (found : r.find? name = some t) : t.definition.name = name := by
  obtain ⟨i, known, there⟩ := find?_eq_some_iff.mp found
  obtain ⟨u, same, named⟩ := r.placed name i known
  obtain rfl := Option.some.inj (same.symm.trans there)
  exact named

theorem mem_of_find? {r : Registry} {name : String} {t : RegisteredTool}
    (found : r.find? name = some t) : t ∈ r.tools := by
  obtain ⟨i, -, there⟩ := find?_eq_some_iff.mp found
  exact List.mem_of_getElem? there

/-- There is a tool at every place of the index. -/
theorem find?_isSome (r : Registry) (name : String) :
    (r.find? name).isSome = (r.index.find? name).isSome := by
  unfold find?
  cases known : r.index.find? name with
  | none => rfl
  | some i =>
      obtain ⟨t, there, -⟩ := r.placed name i known
      rw [Option.bind_some, there]
      rfl

theorem contains_find? (r : Registry) (name : String) :
    r.contains name = (r.find? name).isSome :=
  (r.find?_isSome name).symm

theorem put_known {r : Registry} {t : RegisteredTool} {i : Nat}
    (known : r.index.find? t.definition.name = some i) :
    (r.put t).tools = r.tools.set i t ∧ (r.put t).index = r.index := by
  unfold put
  split
  · next place found =>
      obtain rfl := Option.some.inj (found.symm.trans known)
      exact ⟨rfl, rfl⟩
  · next none => cases none.symm.trans known

theorem put_unknown {r : Registry} {t : RegisteredTool}
    (unknown : r.index.find? t.definition.name = none) :
    (r.put t).tools = r.tools ++ [t] ∧
      (r.put t).index = r.index.insert t.definition.name r.tools.length := by
  unfold put
  split
  · next place found => cases found.symm.trans unknown
  · exact ⟨rfl, rfl⟩

theorem mem_put {r : Registry} {t u : RegisteredTool} (member : u ∈ (r.put t).tools) :
    u = t ∨ u ∈ r.tools := by
  cases known : r.index.find? t.definition.name with
  | none =>
      rw [(put_unknown known).1, List.mem_append, List.mem_singleton] at member
      exact member.symm
  | some i =>
      rw [(put_known known).1] at member
      exact (List.mem_or_eq_of_mem_set member).symm

theorem find?_put (r : Registry) (t : RegisteredTool) (name : String) :
    (r.put t).find? name = if t.definition.name = name then some t else r.find? name := by
  cases known : r.index.find? t.definition.name with
  | none =>
      obtain ⟨tools, index⟩ := put_unknown known
      unfold find?
      rw [tools, index, Dict.find?_insert]
      by_cases same : t.definition.name = name
      · rw [if_pos same, if_pos same.symm, Option.bind_some, List.getElem?_concat_length]
      · rw [if_neg same, if_neg (Ne.symm same)]
        cases place : r.index.find? name with
        | none => rfl
        | some i =>
            obtain ⟨u, there, -⟩ := r.placed name i place
            have inside : i < r.tools.length := (List.getElem?_eq_some_iff.mp there).1
            exact List.getElem?_append_left inside
  | some i =>
      obtain ⟨tools, index⟩ := put_known known
      obtain ⟨u, there, former⟩ := r.placed _ i known
      have inside : i < r.tools.length := (List.getElem?_eq_some_iff.mp there).1
      unfold find?
      rw [tools, index]
      by_cases same : t.definition.name = name
      · rw [if_pos same, ← same, known, Option.bind_some, List.getElem?_set_self inside]
      · rw [if_neg same]
        cases place : r.index.find? name with
        | none => rfl
        | some j =>
            -- Another name has another place, as the tool at a place has but one name.
            have apart : i ≠ j := by
              rintro rfl
              obtain ⟨v, here, named⟩ := r.placed name i place
              obtain rfl := Option.some.inj (there.symm.trans here)
              exact same (former.symm.trans named)
            exact List.getElem?_set_ne apart

/-- A tool that takes the place of another under its definition changes no definition. -/
theorem definitions_put {r : Registry} {t u : RegisteredTool}
    (found : r.find? t.definition.name = some u) (same : u.definition = t.definition) :
    (r.put t).definitions = r.definitions := by
  obtain ⟨i, known, there⟩ := find?_eq_some_iff.mp found
  obtain ⟨inside, rfl⟩ := List.getElem?_eq_some_iff.mp there
  have mapped : i < (r.tools.map (·.definition)).length := by rwa [List.length_map]
  have kept := List.set_getElem_self mapped
  rw [List.getElem_map, same] at kept
  unfold definitions
  rw [(put_known known).1, List.map_set, kept]

theorem execute_unregistered {r : Registry} {c : ToolCall} (missing : r.find? c.name = none) :
    r.execute c = ⟨c.invocation.2, r, .error (.unknownTool c.name)⟩ := by
  have name : c.invocation.1.toolName = c.name := by
    rw [c.invocation_asked]
    rfl
  simp [execute, invoke, name, missing]

theorem execute_registered {r : Registry} {c : ToolCall} {t : RegisteredTool}
    (found : r.find? c.name = some t) :
    r.execute c =
      let outcome := t.tool t.served c.asked
      { notices := c.invocation.2 ++ .invoking c.asked.arguments.describe ::
          (outcome.reports.map fun x => .byTool x.1 x.2) ++
          if outcome.result.isSuccess then [] else [.toolFailed outcome.result.error]
        registry := r.put (t.serving c.asked)
        message := .ok (outcome.result.toMessage c.id) } := by
  have name : c.asked.toolName = c.name := rfl
  simp [execute, invoke, c.invocation_asked, name, found, RegisteredTool.serving]

/-- A call is added to what its tool has served, and changes nothing else. -/
theorem execute_find? (r : Registry) (c : ToolCall) (name : String) :
    (r.execute c).registry.find? name =
      (r.find? name).map fun t => if c.name = name then t.serving c.asked else t := by
  cases found : r.find? c.name with
  | none =>
      rw [execute_unregistered found]
      by_cases same : c.name = name
      · simp [← same, found]
      · simp [same]
  | some t =>
      rw [execute_registered found, find?_put, t.serving_definition, find?_name found]
      by_cases same : c.name = name
      · simp [← same, found]
      · simp [same]

theorem execute_definitions (r : Registry) (c : ToolCall) :
    (r.execute c).registry.definitions = r.definitions := by
  cases found : r.find? c.name with
  | none => rw [execute_unregistered found]
  | some t =>
      rw [execute_registered found]
      refine definitions_put (u := t) ?_ rfl
      rw [t.serving_definition, find?_name found, found]

end Registry

end Parley
