import Parley.Proofs.Completeness
import Parley.Proofs.Maps
import Parley.Tool.Arguments

/-! Arguments are read from the texts of JSON objects and no others, and come out flat. -/
namespace Parley.Arguments
open Json.Grammar

/-- What is left of a value in flat arguments. -/
inductive Flattened : Json → Value → Prop
  | null : Flattened .null .null
  | bool (b : Bool) : Flattened (.bool b) (.bool b)
  | int (n : Int) : Flattened (.int n) (.number (Binary64.ofInt n))
  | float (x : Binary64) : Flattened (.float x) (.number x)
  | str (s : String) : Flattened (.str s) (.text s)
  | arr (items : List Json) : Flattened (.arr items) .null
  | obj (members : List (String × Json)) : Flattened (.obj members) .null

theorem flattened_iff {j : Json} {v : Value} : Flattened j v ↔ scalar j = v := by
  constructor
  · intro flattened
    cases flattened <;> rfl
  · rintro rfl
    cases j with
    | null => exact .null
    | bool b => exact .bool b
    | int n => exact .int n
    | float x => exact .float x
    | str s => exact .str s
    | arr items => exact .arr items
    | obj members => exact .obj members

theorem Flattened.flat {j : Json} {v : Value} (flattened : Flattened j v) :
    (∀ members, v.datum ≠ .object members) ∧ ∀ items, v.datum ≠ .array items := by
  cases flattened <;> exact ⟨nofun, nofun⟩

variable {raw : String} {members : List (String × Json)}

theorem lookup_scalar (key : String) (members : List (String × Json)) :
    (members.map fun m => (m.1, scalar m.2)).lookup key = (members.lookup key).map scalar := by
  induction members with
  | nil => rfl
  | cons m members ih =>
    obtain ⟨name, j⟩ := m
    rw [List.map_cons, List.lookup_cons, List.lookup_cons, ih]
    cases key == name <;> rfl

theorem find?_ofMembers (key : String) (value : Value) :
    (ofMembers members).find? key = some value ↔
      ∃ j, members.reverse.lookup key = some j ∧ Flattened j value := by
  unfold find? ofMembers
  rw [Dict.find?_ofEntries, ← List.map_reverse, lookup_scalar, Option.map_eq_some_iff]
  simp only [flattened_iff]

theorem parse_object (written : Text.isBlankText raw = false)
    (spelled : IsText raw.toList (.obj members)) : parse raw = .ok (ofMembers members) := by
  unfold parse
  rw [written, parse_of_isText spelled]
  rfl

theorem parse_other (written : Text.isBlankText raw = false)
    (other : ¬ ∃ members, IsText raw.toList (.obj members)) :
    ∃ reason, parse raw = .error (.argumentParse reason) := by
  unfold parse
  rw [written]
  simp only [Bool.false_eq_true, if_false]
  cases read : Json.parse raw with
  | error f => exact ⟨_, rfl⟩
  | ok j =>
    cases j with
    | obj members => exact (other ⟨members, isText_of_parse read⟩).elim
    | _ => exact ⟨_, rfl⟩

theorem blank_iff : Text.isBlankText raw = true ↔ ∀ c ∈ raw.toList, Text.isBlank c :=
  List.all_eq_true

theorem written_of {c : Char} (inside : c ∈ raw.toList) (dark : ¬ Text.isBlank c) :
    Text.isBlankText raw = false := by
  rw [Bool.eq_false_iff, ne_eq, blank_iff]
  intro blank
  exact dark (blank c inside)

/-- Read arguments are what the members of the text make. -/
theorem members_of_parse (written : Text.isBlankText raw = false) {args : Arguments}
    (read : parse raw = .ok args) :
    ∃ members, IsText raw.toList (.obj members) ∧ args = ofMembers members := by
  by_cases object : ∃ members, IsText raw.toList (.obj members)
  · obtain ⟨members, spelled⟩ := object
    rw [parse_object written spelled] at read
    exact ⟨members, spelled, (Except.ok.inj read).symm⟩
  · obtain ⟨reason, refused⟩ := parse_other written object
    rw [refused] at read
    cases read

/-- Arguments in which the same is found are the same. -/
theorem ext_find? {args args' : Arguments} (agree : ∀ key, args.find? key = args'.find? key) :
    args = args' :=
  Arguments.ext (args.ordered.ext args'.ordered agree)

/-- The arguments of an object are those that find what its last members say. -/
theorem eq_ofMembers_iff {args : Arguments} :
    args = ofMembers members ↔ ∀ key value,
      args.find? key = some value ↔
        ∃ j, members.reverse.lookup key = some j ∧ Flattened j value := by
  constructor
  · rintro rfl
    exact fun key value => find?_ofMembers key value
  · intro finds
    refine ext_find? fun key => ?_
    ext value
    rw [finds, find?_ofMembers]

theorem ofMembers_flat {a : String × Value} (member : a ∈ (ofMembers members).entries) :
    (∀ members, a.2.datum ≠ .object members) ∧ ∀ items, a.2.datum ≠ .array items := by
  obtain ⟨m, -, rfl⟩ := List.mem_map.mp (Dict.mem_of_mem_ofEntries member)
  exact (flattened_iff.mpr rfl).flat

/-- Blank text gives no arguments. All other text gives arguments exactly if it is, in white space,
a JSON object, and then what the last member of each name is flattened to. -/
theorem parse_exact (raw : String) :
    ((∀ c ∈ raw.toList, Text.isBlank c) → parse raw = .ok { entries := [] }) ∧
    ((∃ c ∈ raw.toList, ¬ Text.isBlank c) →
      ((∃ args, parse raw = .ok args) ↔ ∃ members, IsText raw.toList (.obj members)) ∧
      (∀ args, parse raw = .ok args ↔
        ∃ members, IsText raw.toList (.obj members) ∧ ∀ key value,
          args.find? key = some value ↔
            ∃ j, members.reverse.lookup key = some j ∧ Flattened j value) ∧
      ((¬ ∃ members, IsText raw.toList (.obj members)) →
        ∃ reason, parse raw = .error (.argumentParse reason))) ∧
    ∀ args, parse raw = .ok args → ∀ a ∈ args.entries,
      (∀ members, a.2.datum ≠ .object members) ∧ ∀ items, a.2.datum ≠ .array items := by
  have empty (blank : Text.isBlankText raw = true) : parse raw = .ok { entries := [] } := by
    unfold parse
    rw [blank]
    rfl
  refine ⟨fun blank => empty (blank_iff.mpr blank), ?_, ?_⟩
  · rintro ⟨c, inside, dark⟩
    have written := written_of inside dark
    refine ⟨⟨?_, ?_⟩, fun args => ⟨?_, ?_⟩, parse_other written⟩
    · rintro ⟨args, read⟩
      obtain ⟨members, spelled, -⟩ := members_of_parse written read
      exact ⟨members, spelled⟩
    · rintro ⟨members, spelled⟩
      exact ⟨ofMembers members, parse_object written spelled⟩
    · intro read
      obtain ⟨members, spelled, made⟩ := members_of_parse written read
      exact ⟨members, spelled, eq_ofMembers_iff.mp made⟩
    · rintro ⟨members, spelled, finds⟩
      rw [eq_ofMembers_iff.mpr finds]
      exact parse_object written spelled
  · intro args read a member
    cases written : Text.isBlankText raw with
    | true =>
      rw [empty written] at read
      cases read
      cases member
    | false =>
      obtain ⟨members, -, rfl⟩ := members_of_parse written read
      exact ofMembers_flat member

/-- A number may be refused though the double nearest to it is finite, since its power of ten is
rounded before it is multiplied. -/
theorem near_greatest_refused :
    ∃ n : Numeral, n.chars = "1.7976931348623158e308".toList ∧
      (Binary64.ofNat (17976931348623158 * 10 ^ 292)).isFinite = true ∧
      ∃ reason, parse (String.ofList ("\x7b\"a\":".toList ++ n.chars ++ ['\x7d'])) =
        .error (.argumentParse reason) := by
  let whole : Digits := ⟨['1'], List.cons_ne_nil _ _, List.all_eq_true.mp rfl⟩
  let fraction : Digits := ⟨"7976931348623158".toList, by decide, List.all_eq_true.mp (by decide)⟩
  let power : Digits := ⟨['3', '0', '8'], List.cons_ne_nil _ _, List.all_eq_true.mp rfl⟩
  let exponent : Exponent := ⟨'e', [], power, .inl rfl, .inl rfl⟩
  let n : Numeral := ⟨false, whole, some fraction, some exponent, by simp [whole]⟩
  refine ⟨n, rfl, by decide +kernel, ?_⟩
  have refused : (Json.parse
      (String.ofList ("\x7b\"a\":".toList ++ n.chars ++ ['\x7d']))).isOk = false := by
    decide +kernel
  apply parse_other
  · decide +kernel
  · rintro ⟨members, spelled⟩
    rw [parse_of_isText spelled] at refused
    cases refused

end Parley.Arguments
