import Parley.Chat.ToolDefinition
import Parley.Tool.Basic

/-! The registered tools, in the order in which their names were first registered. -/
namespace Parley

structure RegisteredTool where
  definition : ToolDefinition
  tool : Tool
  /-- The calls served so far, latest first. -/
  served : List Invocation := []

/-- The tools, and the place of each name among them. A name leads to the tool whose definition has
it. -/
structure Registry where
  tools : List RegisteredTool
  index : Dict Nat
  placed : ∀ name i, index.find? name = some i →
    ∃ t, tools[i]? = some t ∧ t.definition.name = name

namespace Registry

def empty : Registry :=
  ⟨[], [], nofun⟩

def find? (r : Registry) (name : String) : Option RegisteredTool :=
  (r.index.find? name).bind fun i => r.tools[i]?

def contains (r : Registry) (name : String) : Bool :=
  (r.index.find? name).isSome

def definitions (r : Registry) : List ToolDefinition :=
  r.tools.map (·.definition)

def size (r : Registry) : Nat :=
  r.tools.length

def isEmpty (r : Registry) : Bool :=
  r.tools.isEmpty

theorem placed_set {r : Registry} {t : RegisteredTool} {place : Nat}
    (found : r.index.find? t.definition.name = some place) (name : String) (i : Nat)
    (known : r.index.find? name = some i) :
    ∃ u, (r.tools.set place t)[i]? = some u ∧ u.definition.name = name := by
  obtain ⟨u, there, named⟩ := r.placed name i known
  by_cases same : place = i
  · subst same
    obtain ⟨old, before, former⟩ := r.placed _ place found
    obtain rfl := Option.some.inj (before.symm.trans there)
    have inside : place < r.tools.length := (List.getElem?_eq_some_iff.mp there).1
    exact ⟨t, List.getElem?_set_self inside, former.symm.trans named⟩
  · exact ⟨u, (List.getElem?_set_ne same).trans there, named⟩

theorem placed_append (r : Registry) (t : RegisteredTool) (name : String) (i : Nat)
    (known : (r.index.insert t.definition.name r.tools.length).find? name = some i) :
    ∃ u, (r.tools ++ [t])[i]? = some u ∧ u.definition.name = name := by
  rw [Dict.find?_insert] at known
  split at known
  · next same =>
    obtain rfl := Option.some.inj known
    exact ⟨t, List.getElem?_concat_length, same.symm⟩
  · obtain ⟨u, there, named⟩ := r.placed name i known
    have inside : i < r.tools.length := (List.getElem?_eq_some_iff.mp there).1
    exact ⟨u, (List.getElem?_append_left inside).trans there, named⟩

/-- Replaces the tool of that name in its place, or adds one at the end. -/
def put (r : Registry) (t : RegisteredTool) : Registry :=
  match found : r.index.find? t.definition.name with
  | some place => ⟨r.tools.set place t, r.index, placed_set found⟩
  | none =>
    ⟨r.tools ++ [t], r.index.insert t.definition.name r.tools.length, placed_append r t⟩

/-- Whether the tool was accepted, what there is to report, and the registry afterwards. A blank name
is refused; the definition takes the name of the registration. -/
def register (r : Registry) (name : String) (definition : ToolDefinition) (tool : Tool) :
    Bool × List Notice × Registry :=
  if Text.isBlankText name then (false, [.unnamedTool], r)
  else
    let renamed := if definition.name = name then [] else [.toolRenamed definition.name name]
    let put := if r.contains name then .toolReplaced name else .toolAdded name
    (true, renamed ++ [put], r.put { definition := { definition with name }, tool })

def lookup (r : Registry) (name : String) : Except Error Tool :=
  match r.find? name with
  | some t => .ok t.tool
  | none => .error (.unknownTool name)

/-- Lets the tool that is called serve the call. -/
def invoke (r : Registry) (call : Invocation) : Except Error (ToolOutcome × Registry) :=
  match r.find? call.toolName with
  | some t =>
    .ok (t.tool t.served call, r.put { t with served := call :: t.served })
  | none => .error (.unknownTool call.toolName)

end Registry

end Parley
