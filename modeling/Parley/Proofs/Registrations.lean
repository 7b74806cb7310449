import Mathlib.Data.List.Induction
import Mathlib.Data.List.Nodup
import Mathlib.Data.List.TakeWhile
import Parley.Proofs.Executions

/-! The registry as a map that keeps the order of insertion: after any registrations it holds the
accepted names, each where it came first and with what was last registered for it. -/
namespace Parley

namespace Text

theorem dropWhile_blank_iff {s : List Char} : s.dropWhile isBlank = [] ↔ s.all isBlank = true := by
  rw [List.dropWhile_eq_nil_iff, List.all_eq_true]

theorem trim_eq_empty_iff {s : String} : trim s = "" ↔ isBlankText s = true := by
  unfold trim trimChars isBlankText
  rw [String.ofList_eq_empty_iff, List.reverse_eq_nil_iff, dropWhile_blank_iff, List.all_reverse]
  constructor
  · intro blank
    rw [← List.takeWhile_append_dropWhile (p := isBlank) (l := s.toList), List.all_append, blank,
      List.all_takeWhile, Bool.and_self]
  · intro blank
    rw [dropWhile_blank_iff.mpr blank, List.all_nil]

end Text

/-- What is asked for when a tool is registered. -/
structure Registration where
  name : String
  definition : ToolDefinition
  tool : Tool

namespace Registration

def accepted (c : Registration) : Bool :=
  !Text.isBlankText c.name

/-- The accepted names, each where it came first. -/
def names (calls : List Registration) : List String :=
  ((calls.filter accepted).map (·.name)).eraseDups

/-- The last registration of a name that was accepted. -/
def last? (calls : List Registration) (name : String) : Option Registration :=
  calls.reverse.find? fun c => c.accepted && c.name = name

/-- What the registry keeps of it. -/
def entry (c : Registration) : RegisteredTool :=
  { definition := { c.definition with name := c.name }, tool := c.tool }

variable {calls : List Registration} {c : Registration} {name : String}

theorem mem_names : name ∈ names calls ↔ ∃ c ∈ calls, c.accepted = true ∧ c.name = name := by
  unfold names
  simp only [List.mem_eraseDups, List.mem_map, List.mem_filter, and_assoc]

theorem last?_eq_some (found : last? calls name = some c) :
    c ∈ calls ∧ c.accepted = true ∧ c.name = name := by
  have chosen := List.find?_some found
  rw [Bool.and_eq_true, decide_eq_true_eq] at chosen
  exact ⟨List.mem_reverse.mp (List.mem_of_find?_eq_some found), chosen⟩

theorem last?_isSome : (last? calls name).isSome = true ↔ name ∈ names calls := by
  unfold last?
  rw [List.find?_isSome, mem_names]
  simp only [List.mem_reverse, Bool.and_eq_true, decide_eq_true_eq]

theorem names_refused (refused : c.accepted = false) : names (calls ++ [c]) = names calls := by
  unfold names
  rw [List.filter_append, List.filter_cons_of_neg (by simp [refused]), List.filter_nil,
    List.append_nil]

theorem names_accepted (accepted : c.accepted = true) :
    names (calls ++ [c]) =
      if c.name ∈ names calls then names calls else names calls ++ [c.name] := by
  have known : c.name ∈ names calls ↔ c.name ∈ (calls.filter Registration.accepted).map (·.name) :=
    List.mem_eraseDups
  simp only [known]
  unfold names
  rw [List.filter_append, List.filter_cons_of_pos accepted, List.filter_nil, List.map_append,
    List.map_singleton, List.eraseDups_append]
  split
  · next old => simp [List.removeAll, old]
  · next new => simp [List.removeAll, new, List.eraseDups_cons]

theorem last?_refused (refused : c.accepted = false) (name : String) :
    last? (calls ++ [c]) name = last? calls name := by
  unfold last?
  rw [List.reverse_concat, List.find?_cons_of_neg (by simp [refused])]

theorem last?_accepted (accepted : c.accepted = true) (name : String) :
    last? (calls ++ [c]) name = if c.name = name then some c else last? calls name := by
  unfold last?
  rw [List.reverse_concat]
  split
  · next same => exact List.find?_cons_of_pos (by simp [accepted, same])
  · next other => exact List.find?_cons_of_neg (by simp [other])

end Registration

namespace Registry
open Registration

/-- The registry after these registrations and no others. -/
def ofRegistrations (calls : List Registration) : Registry :=
  calls.foldl (fun r c => (r.register c.name c.definition c.tool).2.2) .empty

/-- The tools stand as the names do, and the index says where. -/
structure Mirrors (r : Registry) (calls : List Registration) : Prop where
  tools : r.tools.map some = (names calls).map fun name => (last? calls name).map entry
  index : ∀ name i, r.index.find? name = some i ↔ (names calls)[i]? = some name

namespace Mirrors

variable {r : Registry} {calls : List Registration} {c : Registration}

theorem length (mirrors : r.Mirrors calls) : r.tools.length = (names calls).length := by
  simpa using congrArg List.length mirrors.tools

theorem known (mirrors : r.Mirrors calls) (name : String) :
    (r.index.find? name).isSome = true ↔ name ∈ names calls := by
  rw [Option.isSome_iff_exists, List.mem_iff_getElem?]
  exact exists_congr fun i => mirrors.index name i

theorem find? (mirrors : r.Mirrors calls) (name : String) :
    r.find? name = (last? calls name).map entry := by
  cases place : r.index.find? name with
  | none =>
    have unknown := mt (mirrors.known name).mpr
    rw [place, ← last?_isSome] at unknown
    have none : last? calls name = none := by simpa using unknown
    rw [none]
    unfold Registry.find?
    rw [place]
    rfl
  | some i =>
    have there : (names calls)[i]? = some name := (mirrors.index name i).mp place
    have same := congrArg (·[i]?) mirrors.tools
    simp only [List.getElem?_map, there, Option.map_some] at same
    obtain ⟨t, found, kept⟩ := Option.map_eq_some_iff.mp same
    rw [← kept]
    exact find?_eq_some_iff.mpr ⟨i, place, found⟩

theorem nodup (mirrors : r.Mirrors calls) : (names calls).Nodup := by
  rw [List.nodup_iff_getElem?_ne_getElem?]
  intro i j before within same
  have there := List.getElem?_eq_getElem within
  have first := (mirrors.index _ i).mpr (same.trans there)
  have second := (mirrors.index _ j).mpr there
  exact before.ne (Option.some.inj (first.symm.trans second))

theorem refused (mirrors : r.Mirrors calls) (refused : c.accepted = false) :
    r.Mirrors (calls ++ [c]) where
  tools := by
    rw [mirrors.tools, names_refused refused]
    exact List.map_congr_left fun name _ => by rw [last?_refused refused]
  index := by
    rw [names_refused refused]
    exact mirrors.index

/-- The name is known: its tool gives way in its place. -/
theorem replaced (mirrors : r.Mirrors calls) (accepted : c.accepted = true) {place : Nat}
    (known : r.index.find? c.name = some place) : (r.put c.entry).Mirrors (calls ++ [c]) := by
  obtain ⟨tools, index⟩ := put_known (t := c.entry) known
  have there := (mirrors.index c.name place).mp known
  have same : names (calls ++ [c]) = names calls := by
    rw [names_accepted accepted, if_pos (List.mem_of_getElem? there)]
  have inside : place < r.tools.length := by
    rw [mirrors.length]
    exact (List.getElem?_eq_some_iff.mp there).1
  refine ⟨?_, by rw [index, same]; exact mirrors.index⟩
  rw [tools, same, List.map_set, mirrors.tools]
  apply List.ext_getElem?
  intro i
  rw [List.getElem?_map]
  by_cases here : place = i
  · subst here
    rw [List.getElem?_set_self (by rwa [List.length_map, ← mirrors.length]), there, Option.map_some,
      last?_accepted accepted, if_pos rfl, Option.map_some]
  · rw [List.getElem?_set_ne here, List.getElem?_map]
    cases found : (names calls)[i]? with
    | none => rfl
    | some name =>
      have other : c.name ≠ name := by
        rintro rfl
        have again := (mirrors.index c.name i).mpr found
        exact here (Option.some.inj (known.symm.trans again))
      rw [Option.map_some, Option.map_some, last?_accepted accepted, if_neg other]

/-- The name is new: its tool comes behind all others. -/
theorem added (mirrors : r.Mirrors calls) (accepted : c.accepted = true)
    (unknown : r.index.find? c.name = none) : (r.put c.entry).Mirrors (calls ++ [c]) := by
  obtain ⟨tools, index⟩ := put_unknown (t := c.entry) unknown
  have fresh : c.name ∉ names calls := by
    rw [← mirrors.known, unknown]
    exact Bool.false_ne_true
  have more : names (calls ++ [c]) = names calls ++ [c.name] := by
    rw [names_accepted accepted, if_neg fresh]
  constructor
  · have older : ∀ name ∈ names calls,
        (last? (calls ++ [c]) name).map entry = (last? calls name).map entry := by
      intro name member
      have other : c.name ≠ name := fun same => fresh (same ▸ member)
      rw [last?_accepted accepted, if_neg other]
    rw [tools, more, List.map_append, List.map_append, mirrors.tools, List.map_congr_left older,
      List.map_singleton, List.map_singleton, last?_accepted accepted, if_pos rfl, Option.map_some]
  · intro name i
    rw [index, more, Dict.find?_insert, List.getElem?_append, List.getElem?_singleton,
      mirrors.length]
    change (if name = c.name then _ else _) = some i ↔ _
    by_cases same : name = c.name
    · subst same
      rw [if_pos rfl, Option.some_inj]
      split
      · next within =>
        constructor
        · intro last
          omega
        · intro found
          exact (fresh (List.mem_of_getElem? found)).elim
      · next behind =>
        rw [Option.ite_none_right_eq_some, and_iff_left rfl]
        omega
    · rw [if_neg same, mirrors.index]
      split
      · exact Iff.rfl
      · next behind =>
        rw [List.getElem?_eq_none (Nat.not_lt.mp behind)]
        split
        · simp [Ne.symm same]
        · exact Iff.rfl

/-- One registration, of whatever name. -/
theorem register (mirrors : r.Mirrors calls) (c : Registration) :
    (r.register c.name c.definition c.tool).2.2.Mirrors (calls ++ [c]) := by
  unfold Registry.register
  split
  · next blank => exact mirrors.refused (by simp [accepted, blank])
  · next written =>
    have accepted : c.accepted = true := by simp [Registration.accepted, written]
    cases place : r.index.find? c.name with
    | none => exact mirrors.added accepted place
    | some i => exact mirrors.replaced accepted place

end Mirrors

theorem ofRegistrations_mirrors (calls : List Registration) :
    (ofRegistrations calls).Mirrors calls := by
  induction calls using List.reverseRecOn with
  | nil => exact ⟨rfl, fun name i => ⟨nofun, nofun⟩⟩
  | append_singleton calls c ih =>
    have last : ofRegistrations (calls ++ [c]) =
        ((ofRegistrations calls).register c.name c.definition c.tool).2.2 :=
      List.foldl_concat _ _ _ _
    rw [last]
    exact ih.register c

/-- After any registrations the definitions are those last accepted for each accepted name, under
that name and in the order in which the names came; a name leads to the tool last accepted for it,
or is unknown; the place of a name is its place among the names; and just the blank names are
refused, which changes nothing. -/
theorem refines_ordered_map (calls : List Registration) :
    let r := ofRegistrations calls
    (names calls).Nodup ∧
    r.definitions.map some =
      (names calls).map (fun name => (last? calls name).map fun c => { c.definition with name }) ∧
    (∀ name, r.lookup name =
      match last? calls name with
      | some c => .ok c.tool
      | none => .error (.unknownTool name)) ∧
    (∀ name, last? calls name = none ↔ ¬ ∃ c ∈ calls, c.accepted = true ∧ c.name = name) ∧
    (∀ name, r.contains name = true ↔ name ∈ names calls) ∧
    r.size = (names calls).length ∧
    (r.isEmpty = true ↔ names calls = []) ∧
    (∀ name i, r.index.find? name = some i ↔ (names calls)[i]? = some name) ∧
    (∀ name i, r.index.find? name = some i → i < r.tools.length) ∧
    ∀ c : Registration,
      ((r.register c.name c.definition c.tool).1 = false ↔ Text.trim c.name = "") ∧
      (c.accepted = false ↔ Text.trim c.name = "") ∧
      (Text.trim c.name = "" → (r.register c.name c.definition c.tool).2.2 = r) := by
  have mirrors := ofRegistrations_mirrors calls
  have length := mirrors.length
  refine ⟨mirrors.nodup, ?_, ?_, ?_, mirrors.known, length, ?_, mirrors.index, ?_, ?_⟩
  · have entries := congrArg (List.map (Option.map RegisteredTool.definition)) mirrors.tools
    rw [List.map_map, List.map_map] at entries
    rw [definitions, List.map_map]
    refine entries.trans (List.map_congr_left fun name _ => ?_)
    cases found : last? calls name with
    | none => simp [found]
    | some c =>
      obtain ⟨-, -, rfl⟩ := last?_eq_some found
      simp [found, entry]
  · intro name
    unfold lookup
    rw [mirrors.find?]
    cases last? calls name <;> rfl
  · intro name
    rw [← mem_names, ← last?_isSome, Bool.not_eq_true, Option.isSome_eq_false_iff,
      Option.isNone_iff_eq_none]
  · rw [isEmpty, List.isEmpty_iff_length_eq_zero, length, List.length_eq_zero_iff]
  · intro name i place
    rw [length]
    exact (List.getElem?_eq_some_iff.mp ((mirrors.index name i).mp place)).1
  · intro c
    rw [Text.trim_eq_empty_iff]
    unfold register Registration.accepted
    cases Text.isBlankText c.name <;> simp

end Registry

end Parley
