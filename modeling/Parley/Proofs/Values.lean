import Parley.Proofs.Doubles
import Parley.Proofs.Maps
import Parley.Value

/-! What becomes of a value that is turned into JSON and back. -/
namespace Parley

/-- Equality of the numbers that two words stand for: both zeros are one, and a NaN is none. -/
def Binary64.equals (x y : Binary64) : Bool :=
  (x.isZero && y.isZero) || (x = y && !x.isNaN)

namespace Datum

mutual

/-- Equality with numbers compared as such. -/
def equals : Datum → Datum → Bool
  | .null, .null => true
  | .number x, .number y => x.equals y
  | .text s, .text t => s = t
  | .bool b, .bool c => b = c
  | .object ms, .object ns => membersEqual ms ns
  | .array ds, .array es => itemsEqual ds es
  | _, _ => false

def itemsEqual : List Datum → List Datum → Bool
  | [], [] => true
  | d :: ds, e :: es => d.equals e && itemsEqual ds es
  | _, _ => false

def membersEqual : List (String × Datum) → List (String × Datum) → Bool
  | [], [] => true
  | (k, d) :: ms, (l, e) :: ns => k = l && d.equals e && membersEqual ms ns
  | _, _ => false

end

mutual

/-- The value with each number replaced. -/
def mapNumbers (f : Binary64 → Datum) : Datum → Datum
  | .null => .null
  | .number x => f x
  | .text s => .text s
  | .bool b => .bool b
  | .object members => .object (mapMembers f members)
  | .array items => .array (mapItems f items)

def mapItems (f : Binary64 → Datum) : List Datum → List Datum
  | [] => []
  | d :: ds => d.mapNumbers f :: mapItems f ds

def mapMembers (f : Binary64 → Datum) : List (String × Datum) → List (String × Datum)
  | [] => []
  | (k, d) :: ms => (k, d.mapNumbers f) :: mapMembers f ms

end

mutual

/-- The numbers anywhere in a value. -/
def numbers : Datum → List Binary64
  | .number x => [x]
  | .object members => memberNumbers members
  | .array items => itemNumbers items
  | .null | .text _ | .bool _ => []

def itemNumbers : List Datum → List Binary64
  | [] => []
  | d :: ds => d.numbers ++ itemNumbers ds

def memberNumbers : List (String × Datum) → List Binary64
  | [] => []
  | (_, d) :: ms => d.numbers ++ memberNumbers ms

end

section maps

theorem itemsToJson_eq (ds : List Datum) : itemsToJson ds = ds.map toJson := by
  induction ds with
  | nil => rfl
  | cons d ds ih => rw [itemsToJson, ih, List.map_cons]

theorem membersToJson_eq (ms : List (String × Datum)) :
    membersToJson ms = ms.map fun m => (m.1, m.2.toJson) := by
  induction ms with
  | nil => rfl
  | cons m ms ih => rw [membersToJson, ih, List.map_cons]

theorem itemsOfJson_eq (js : List Json) : itemsOfJson js = js.map ofJson := by
  induction js with
  | nil => rfl
  | cons j js ih => rw [itemsOfJson, ih, List.map_cons]

theorem membersOfJson_eq (ms : List (String × Json)) :
    membersOfJson ms = ms.map fun m => (m.1, ofJson m.2) := by
  induction ms with
  | nil => rfl
  | cons m ms ih => rw [membersOfJson, ih, List.map_cons]

variable (f : Binary64 → Datum)

theorem mapItems_eq (ds : List Datum) : mapItems f ds = ds.map (mapNumbers f) := by
  induction ds with
  | nil => rfl
  | cons d ds ih => rw [mapItems, ih, List.map_cons]

theorem mapMembers_eq (ms : List (String × Datum)) :
    mapMembers f ms = ms.map fun m => (m.1, m.2.mapNumbers f) := by
  induction ms with
  | nil => rfl
  | cons m ms ih => rw [mapMembers, ih, List.map_cons]

theorem mem_itemNumbers {x : Binary64} {ds : List Datum} :
    x ∈ itemNumbers ds ↔ ∃ d ∈ ds, x ∈ d.numbers := by
  induction ds with
  | nil => simp [itemNumbers]
  | cons d ds ih => simp only [itemNumbers, List.mem_append, List.mem_cons, exists_eq_or_imp, ih]

theorem mem_memberNumbers {x : Binary64} {ms : List (String × Datum)} :
    x ∈ memberNumbers ms ↔ ∃ m ∈ ms, x ∈ m.2.numbers := by
  induction ms with
  | nil => simp [memberNumbers]
  | cons m ms ih => simp only [memberNumbers, List.mem_append, List.mem_cons, exists_eq_or_imp, ih]

theorem mapMembers_ordered {ms : List (String × Datum)} (keys : Dict.Ordered ms) :
    Dict.Ordered (mapMembers f ms) := by
  rw [mapMembers_eq]
  exact keys.mapValues (Datum.mapNumbers f)

theorem Ordered.mapNumbers {d : Datum} (ordered : d.Ordered) (each : ∀ x, (f x).Ordered) :
    (d.mapNumbers f).Ordered := by
  induction ordered with
  | null => exact .null
  | number x => exact each x
  | text s => exact .text s
  | bool b => exact .bool b
  | object keys all ih =>
    rw [Datum.mapNumbers]
    refine .object (mapMembers_ordered f keys) ?_
    rw [mapMembers_eq]
    exact List.forall_mem_map.mpr ih
  | array all ih =>
    rw [Datum.mapNumbers, mapItems_eq]
    exact .array (List.forall_mem_map.mpr ih)

end maps

/-- Induction with the members and the items as lists. -/
theorem induct {P : Datum → Prop} (null : P .null) (number : ∀ x, P (.number x))
    (text : ∀ s, P (.text s)) (bool : ∀ b, P (.bool b))
    (object : ∀ ms, (∀ m ∈ ms, P m.2) → P (.object ms))
    (array : ∀ ds, (∀ d ∈ ds, P d) → P (.array ds)) (d : Datum) : P d :=
  @Datum.rec P (fun ms => ∀ m ∈ ms, P m.2) (fun ds => ∀ d ∈ ds, P d) (fun m => P m.2)
    null number text bool object array
    (List.forall_mem_nil _) (fun _ _ head tail => List.forall_mem_cons.mpr ⟨head, tail⟩)
    (List.forall_mem_nil _) (fun _ _ head tail => List.forall_mem_cons.mpr ⟨head, tail⟩)
    (fun _ _ value => value) d

/-! What holds of each number holds of the whole value. -/

section numbers

variable {f g : Binary64 → Datum}

theorem mapNumbers_eq_self (d : Datum) (same : ∀ x ∈ d.numbers, f x = .number x) :
    d.mapNumbers f = d := by
  induction d using induct with
  | null | text | bool => rfl
  | number x => exact same x List.mem_cons_self
  | object ms ih =>
    have each : ∀ m ∈ ms, (m.1, m.2.mapNumbers f) = m := by
      intro m member
      rw [ih m member fun x inside => same x (mem_memberNumbers.mpr ⟨m, member, inside⟩)]
    rw [mapNumbers, mapMembers_eq, List.map_congr_left each, List.map_id']
  | array ds ih =>
    have each : ∀ d ∈ ds, d.mapNumbers f = d := fun d member =>
      ih d member fun x inside => same x (mem_itemNumbers.mpr ⟨d, member, inside⟩)
    rw [mapNumbers, mapItems_eq, List.map_congr_left each, List.map_id']

theorem itemsEqual_map {ds : List Datum} (each : ∀ d ∈ ds, (d.mapNumbers f).equals (d.mapNumbers g)) :
    itemsEqual (mapItems f ds) (mapItems g ds) := by
  induction ds with
  | nil => rfl
  | cons d ds ih =>
    obtain ⟨first, others⟩ := List.forall_mem_cons.mp each
    simp only [mapItems, itemsEqual, first, ih others, Bool.and_self]

theorem membersEqual_map {ms : List (String × Datum)}
    (each : ∀ m ∈ ms, (m.2.mapNumbers f).equals (m.2.mapNumbers g)) :
    membersEqual (mapMembers f ms) (mapMembers g ms) := by
  induction ms with
  | nil => rfl
  | cons m ms ih =>
    obtain ⟨first, others⟩ := List.forall_mem_cons.mp each
    simp only [mapMembers, membersEqual, first, ih others, Bool.and_self, decide_true]

theorem equals_mapNumbers (each : ∀ x, (f x).equals (g x)) (d : Datum) :
    (d.mapNumbers f).equals (d.mapNumbers g) := by
  induction d using induct with
  | null => rfl
  | number x => exact each x
  | text s => exact decide_eq_true rfl
  | bool b => exact decide_eq_true rfl
  | object ms ih => exact membersEqual_map ih
  | array ds ih => exact itemsEqual_map ih

theorem toJson_mapNumbers (each : ∀ x, (f x).toJson = numberToJson x) (d : Datum) :
    (d.mapNumbers f).toJson = d.toJson := by
  induction d using induct with
  | null | text | bool => rfl
  | number x => exact each x
  | object ms ih =>
    simp only [mapNumbers, toJson, mapMembers_eq, membersToJson_eq, List.map_map]
    congr 1
    apply List.map_congr_left
    intro m member
    exact congrArg (Prod.mk m.1) (ih m member)
  | array ds ih =>
    simp only [mapNumbers, toJson, mapItems_eq, itemsToJson_eq, List.map_map]
    congr 1
    exact List.map_congr_left ih

end numbers

end Datum

/-! There and back. -/

namespace Value
open Datum

theorem array_toJson (items : List Value) : (array items).toJson = .arr (items.map toJson) := by
  refine congrArg Json.arr ?_
  rw [itemsToJson_eq, List.map_map]
  rfl

theorem object_toJson {members : Dict Value} (ordered : members.Ordered) :
    (object members ordered).toJson = .obj (members.map fun m => (m.1, m.2.toJson)) := by
  refine congrArg Json.obj ?_
  rw [membersToJson_eq, memberData, List.map_map]
  rfl

def equals (v w : Value) : Bool :=
  v.datum.equals w.datum

def numbers (v : Value) : List Binary64 :=
  v.datum.numbers

def mapNumbers (f : Binary64 → Value) (v : Value) : Value :=
  ⟨v.datum.mapNumbers fun x => (f x).datum, v.ordered.mapNumbers _ fun x => (f x).ordered⟩

/-- A number that is not finite counts as null. -/
def finiteOrNull (x : Binary64) : Value :=
  if x.isFinite then .number x else .null

/-- What a number comes back as: zero loses its sign. -/
def returned (x : Binary64) : Value :=
  if x.isZero then .number .zero else finiteOrNull x

theorem isFinite_of_isZero {x : Binary64} (zero : x.isZero = true) : x.isFinite = true :=
  (Binary64.toInt?_eq_some (Binary64.toInt?_zero zero)).1

theorem numberToJson_of_isZero {x : Binary64} (zero : x.isZero = true) :
    numberToJson x = .int 0 := by
  unfold numberToJson
  rw [isFinite_of_isZero zero, Binary64.toInt?_zero zero]
  rfl

theorem ofJson_numberToJson (x : Binary64) : ofJson (numberToJson x) = returned x := by
  cases zero : x.isZero with
  | true =>
    rw [numberToJson_of_isZero zero, returned, zero]
    rfl
  | false =>
    unfold numberToJson returned finiteOrNull
    rw [zero]
    cases x.isFinite with
    | false => rfl
    | true =>
      cases whole : x.toInt? with
      | none => rfl
      | some n =>
        simp only [Bool.not_true, Bool.false_eq_true, if_false, if_true]
        split
        · exact congrArg Value.number (Binary64.ofInt_toInt? whole zero)
        · rfl

theorem returned_toJson (x : Binary64) : (returned x).toJson = numberToJson x := by
  cases zero : x.isZero with
  | true =>
    rw [returned, zero, numberToJson_of_isZero zero]
    rfl
  | false =>
    rw [returned, zero]
    cases finite : x.isFinite with
    | true => simp [finiteOrNull, finite, toJson, number, Datum.toJson]
    | false => simp [finiteOrNull, finite, toJson, null, Datum.toJson, numberToJson]

theorem returned_equals (x : Binary64) : (returned x).equals (finiteOrNull x) := by
  cases zero : x.isZero with
  | true =>
    have both : Binary64.zero.equals x = true := by
      rw [Binary64.equals, zero]
      rfl
    simpa [returned, finiteOrNull, zero, isFinite_of_isZero zero, equals, number, Datum.equals]
      using both
  | false =>
    cases finite : x.isFinite with
    | true =>
      have number : x.isNaN = false := by
        simp only [Binary64.isFinite, Binary64.isNaN, decide_eq_true_eq, decide_eq_false_iff_not] at *
        omega
      simp [returned, finiteOrNull, zero, finite, equals, Value.number, Datum.equals,
        Binary64.equals, number]
    | false => simp [returned, finiteOrNull, zero, finite, equals, null, Datum.equals]

theorem datum_ofJson_toJson {d : Datum} (ordered : d.Ordered) :
    Datum.ofJson d.toJson = d.mapNumbers fun x => (returned x).datum := by
  induction ordered with
  | null | text | bool => rfl
  | number x => exact congrArg datum (ofJson_numberToJson x)
  | @object ms keys all ih =>
    have members : membersOfJson (membersToJson ms) = mapMembers (fun x => (returned x).datum) ms := by
      rw [membersToJson_eq, membersOfJson_eq, mapMembers_eq, List.map_map]
      apply List.map_congr_left
      intro m member
      exact congrArg (Prod.mk m.1) (ih m member)
    rw [Datum.toJson, Datum.ofJson, Datum.mapNumbers, members, (mapMembers_ordered _ keys).ofEntries]
  | @array ds all ih =>
    rw [Datum.toJson, Datum.ofJson, Datum.mapNumbers, itemsToJson_eq, itemsOfJson_eq, mapItems_eq,
      List.map_map]
    exact congrArg Datum.array (List.map_congr_left ih)

theorem ofJson_toJson (v : Value) : ofJson v.toJson = v.mapNumbers returned :=
  Value.ext (datum_ofJson_toJson v.ordered)

theorem toJson_returned (v : Value) : (v.mapNumbers returned).toJson = v.toJson :=
  toJson_mapNumbers returned_toJson v.datum

/-- Finite numbers come back as they were. -/
theorem returned_equals_self {v : Value} (finite : ∀ x ∈ v.numbers, x.isFinite) :
    (v.mapNumbers returned).equals v := by
  have same : v.datum.mapNumbers (fun x => (finiteOrNull x).datum) = v.datum :=
    mapNumbers_eq_self v.datum fun x inside => congrArg datum (if_pos (finite x inside))
  have equal := equals_mapNumbers returned_equals v.datum
  rwa [same] at equal

/-- Values survive the way through JSON, but for the numbers that JSON does not have. Those become
null, so the way through a value settles any JSON at once. -/
theorem json_faithful (v : Value) :
    (ofJson v.toJson).equals (v.mapNumbers finiteOrNull) ∧
    ((∀ x ∈ v.numbers, x.isFinite) → (ofJson v.toJson).equals v) ∧
    ∀ j : Json, (ofJson (ofJson j).toJson).toJson = (ofJson j).toJson := by
  rw [ofJson_toJson]
  refine ⟨equals_mapNumbers returned_equals v.datum, returned_equals_self, ?_⟩
  intro j
  rw [ofJson_toJson, toJson_returned]

/-- Zeros, a NaN and an infinity, and integers on both sides of the safe limit. -/
def awkward : Value :=
  .object
    [("", .object [] (by decide)),
      ("numbers", .array [.number ⟨0x8000000000000000⟩, .number ⟨0x7FF8000000000000⟩,
        .number ⟨0xFFF0000000000000⟩, .number (.ofInt 9007199254740990),
        .number (.ofInt (-9007199254740991)), .number ⟨0x3FE0000000000000⟩]),
      ("text", .text "null")]
    (by decide)

theorem awkward_settled :
    let settled := ofJson awkward.toJson
    (∀ x ∈ settled.numbers, x.isFinite) ∧
    awkward.toJson.render = "\x7b\"\":\x7b\x7d,\"numbers\":[0,null,null,9007199254740990," ++
      "-9007199254740991.0,0.5],\"text\":\"null\"\x7d" ∧
    settled.equals (awkward.mapNumbers finiteOrNull) ∧
    (ofJson settled.toJson).equals settled := by
  intro settled
  have finite : ∀ x ∈ settled.numbers, x.isFinite := by decide +kernel
  refine ⟨finite, ?_, ?_, ?_⟩
  · decide +kernel
  · exact (json_faithful awkward).1
  · exact (json_faithful settled).2.1 finite

end Value

end Parley
