import Parley.Proofs.JsonRoundTrip
import Parley.Proofs.Values
import Parley.Tool.Basic

/-! Arguments are read back from the text that they are displayed as. -/
namespace Parley
open Value Datum

/-- Answers with the text of its arguments. -/
def Tool.echo : Tool :=
  .pure fun call => .success (.text call.arguments.text)

namespace Arguments

/-- What a text shows as it is: flat, and of the numbers the integers that are written as such. -/
inductive Plain : Value → Prop
  | null : Plain .null
  | bool (b : Bool) : Plain (.bool b)
  | text (s : String) : Plain (.text s)
  | number {x : Binary64} {n : Int} (whole : x.toInt? = some n)
    (small : n.natAbs < 9007199254740991) : Plain (.number x)

section plain

variable {v : Value}

theorem Plain.toJson_number {x : Binary64} {n : Int} (whole : x.toInt? = some n)
    (small : n.natAbs < safeLimit) : (Value.number x).toJson = .int n := by
  have finite := (Binary64.toInt?_eq_some whole).1
  change numberToJson x = .int n
  rw [numberToJson, finite, whole]
  exact if_pos small

theorem Plain.readable (plain : Plain v) (depth : Nat) : v.toJson.Readable depth := by
  cases plain with
  | null => exact .null depth
  | bool b => exact .bool depth b
  | text s => exact .str depth s
  | @number x n whole small =>
    rw [toJson_number whole small]
    have limit : Json.wordLimit = 0x10000000000000000 := rfl
    exact .int depth (by omega) (by omega)

theorem Plain.scalar (plain : Plain v) : scalar v.toJson = v.mapNumbers returned := by
  cases plain with
  | null | bool | text => rfl
  | @number x n whole small =>
    have back := ofJson_toJson (.number x)
    rw [toJson_number whole small] at back ⊢
    exact back

theorem Plain.finite (plain : Plain v) : ∀ x ∈ v.numbers, x.isFinite := by
  intro x inside
  cases plain with
  | number whole small =>
    obtain rfl := List.mem_singleton.mp inside
    exact (Binary64.toInt?_eq_some whole).1
  | _ => cases inside

end plain

theorem isBlankText_render (ms : List (String × Json)) :
    Text.isBlankText (Json.render (.obj ms)) = false := by
  unfold Text.isBlankText Json.render
  rw [String.toList_ofList]
  cases ms with
  | nil => rfl
  | cons m ms =>
    rw [Json.chars, List.cons_append, List.cons_append, List.all_cons]
    rfl

theorem parse_render {ms : List (String × Json)} (readable : ∀ m ∈ ms, m.2.Readable 126) :
    parse (Json.render (.obj ms)) = .ok (ofMembers ms) := by
  have read : Json.parse (Json.render (.obj ms)) = .ok (.obj ms) :=
    Json.parse_render (.obj readable)
  unfold parse
  rw [isBlankText_render, read]
  rfl

def mapNumbers (f : Binary64 → Value) (args : Arguments) : Arguments :=
  { entries := args.entries.map fun a => (a.1, a.2.mapNumbers f)
    ordered := args.ordered.mapValues (Value.mapNumbers f) }

variable {args : Arguments}

theorem toValue_mapNumbers (f : Binary64 → Value) :
    (args.mapNumbers f).toValue = args.toValue.mapNumbers f := by
  refine Value.ext (congrArg Datum.object ?_)
  rw [mapMembers_eq, memberData, memberData, mapNumbers, List.map_map, List.map_map]
  rfl

theorem toValue_toJson (args : Arguments) :
    args.toValue.toJson = .obj (args.entries.map fun a => (a.1, a.2.toJson)) :=
  object_toJson args.ordered

theorem text_eq (args : Arguments) : text args = args.toValue.toJson.render :=
  rfl

theorem ofMembers_toJson (plain : ∀ a ∈ args.entries, Plain a.2) :
    ofMembers (args.entries.map fun a => (a.1, a.2.toJson)) = args.mapNumbers returned := by
  have values : (args.entries.map fun a => (a.1, a.2.toJson)).map (fun m => (m.1, scalar m.2)) =
      (args.mapNumbers returned).entries := by
    rw [mapNumbers, List.map_map]
    apply List.map_congr_left
    intro a inside
    exact congrArg (Prod.mk a.1) (plain a inside).scalar
  refine Arguments.ext ((congrArg Dict.ofEntries values).trans ?_)
  exact (args.mapNumbers returned).ordered.ofEntries

theorem parse_text (plain : ∀ a ∈ args.entries, Plain a.2) :
    parse (text args) = .ok (args.mapNumbers returned) := by
  have readable : ∀ m ∈ args.entries.map fun a => (a.1, a.2.toJson), m.2.Readable 126 :=
    List.forall_mem_map.mpr fun a inside => (plain a inside).readable 126
  rw [text_eq, toValue_toJson, parse_render readable, ofMembers_toJson plain]

/-- Arguments of this kind, and so what an echo of them says, are read back from their text, and
are displayed as the same text again. -/
theorem text_read_back (plain : ∀ a ∈ args.entries, Plain a.2) :
    ∃ read, parse (text args) = .ok read ∧ read.toValue.equals args.toValue ∧
      text read = text args ∧
      ∀ served name id,
        ((Tool.echo served ⟨args, name, id⟩).result.toMessage id).content = text args := by
  refine ⟨args.mapNumbers returned, parse_text plain, ?_, ?_, ?_⟩
  · have finite : ∀ x ∈ args.toValue.numbers, x.isFinite := by
      intro x inside
      obtain ⟨m, member, within⟩ := mem_memberNumbers.mp inside
      obtain ⟨a, given, rfl⟩ := List.mem_map.mp member
      exact (plain a given).finite x within
    rw [toValue_mapNumbers]
    exact returned_equals_self finite
  · rw [text_eq, text_eq, toValue_mapNumbers, toJson_returned]
  · intro served name id
    rfl

/-- An empty key, characters that are escaped, a zero with a sign and the largest number. -/
def escaped : Arguments where
  entries :=
    [("", .text "\"\\\x00\n"), ("\t/", .number ⟨0x8000000000000000⟩),
      ("n", .number (.ofInt (-9007199254740990))), ("é", .null), ("😀", .bool true)]

theorem escaped_read_back :
    (∀ a ∈ escaped.entries, Plain a.2) ∧
    text escaped = "\x7b\"\":\"\\\"\\\\\\u0000\\n\",\"\\t/\":0,\"n\":-9007199254740990," ++
      "\"é\":null,\"😀\":true\x7d" ∧
    ∃ read, parse (text escaped) = .ok read ∧ read.toValue.equals escaped.toValue ∧
      text read = text escaped ∧
      ∀ served name id,
        ((Tool.echo served ⟨escaped, name, id⟩).result.toMessage id).content = text escaped := by
  have plain : ∀ a ∈ escaped.entries, Plain a.2 := by
    unfold escaped
    simp only [List.forall_mem_cons]
    refine ⟨.text _, .number (n := 0) ?_ (by decide), .number (n := -9007199254740990) ?_ (by decide),
      .null, .bool _, List.forall_mem_nil _⟩
    · decide +kernel
    · decide +kernel
  refine ⟨plain, ?_, text_read_back plain⟩
  decide +kernel

end Arguments

end Parley
