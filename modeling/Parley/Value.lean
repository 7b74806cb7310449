import Parley.Json.Printer
import Parley.Text.Quoted

/-! Dynamically typed values, which tools receive and return. -/
namespace Parley

/-- What values are made of. The members of an object are any list here. -/
inductive Datum where
  | null
  | number (x : Binary64)
  | text (s : String)
  | bool (b : Bool)
  | object (members : List (String × Datum))
  | array (items : List Datum)

namespace Datum

/-- All objects are maps. -/
inductive Ordered : Datum → Prop
  | null : Ordered .null
  | number (x : Binary64) : Ordered (.number x)
  | text (s : String) : Ordered (.text s)
  | bool (b : Bool) : Ordered (.bool b)
  | object {members : List (String × Datum)} (keys : Dict.Ordered members)
    (all : ∀ m ∈ members, Ordered m.2) : Ordered (.object members)
  | array {items : List Datum} (all : ∀ d ∈ items, Ordered d) : Ordered (.array items)

/-- Integers below this magnitude are written as such. -/
def safeLimit : Nat := 9007199254740991

/-- A number without a fraction becomes an integer while it is safe; what is not finite becomes
null. -/
def numberToJson (x : Binary64) : Json :=
  if !x.isFinite then .null
  else
    match x.toInt? with
    | some n => if n.natAbs < safeLimit then .int n else .float x
    | none => .float x

mutual

def toJson : Datum → Json
  | .null => .null
  | .number x => numberToJson x
  | .text s => .str s
  | .bool b => .bool b
  | .object members => .obj (membersToJson members)
  | .array items => .arr (itemsToJson items)

def itemsToJson : List Datum → List Json
  | [] => []
  | d :: ds => d.toJson :: itemsToJson ds

def membersToJson : List (String × Datum) → List (String × Json)
  | [] => []
  | (k, d) :: ms => (k, d.toJson) :: membersToJson ms

end

mutual

def ofJson : Json → Datum
  | .null => .null
  | .bool b => .bool b
  | .int n => .number (Binary64.ofInt n)
  | .float x => .number x
  | .str s => .text s
  | .arr items => .array (itemsOfJson items)
  | .obj members => .object (Dict.ofEntries (membersOfJson members))

def itemsOfJson : List Json → List Datum
  | [] => []
  | j :: js => ofJson j :: itemsOfJson js

def membersOfJson : List (String × Json) → List (String × Datum)
  | [] => []
  | (k, j) :: ms => (k, ofJson j) :: membersOfJson ms

end

mutual

/-- Objects come out of JSON as maps, whatever names they repeat there. -/
theorem ofJson_ordered : (j : Json) → (ofJson j).Ordered
  | .null => .null
  | .bool b => .bool b
  | .int _ => .number _
  | .float x => .number x
  | .str s => .text s
  | .arr items => .array (itemsOfJson_ordered items)
  | .obj members => .object (Dict.ofEntries_ordered _) fun m inside =>
      membersOfJson_ordered members m (Dict.mem_of_mem_ofEntries inside)

theorem itemsOfJson_ordered : (js : List Json) → ∀ d ∈ itemsOfJson js, d.Ordered
  | [] => List.forall_mem_nil _
  | j :: js => List.forall_mem_cons.mpr ⟨ofJson_ordered j, itemsOfJson_ordered js⟩

theorem membersOfJson_ordered : (ms : List (String × Json)) → ∀ m ∈ membersOfJson ms, m.2.Ordered
  | [] => List.forall_mem_nil _
  | (_, j) :: ms => List.forall_mem_cons.mpr ⟨ofJson_ordered j, membersOfJson_ordered ms⟩

end

mutual

/-- The value and its kind, as logs show them. -/
def describe : Datum → String
  | .null => "Null"
  | .number x => "Number(" ++ String.ofList (Decimal.describe x) ++ ")"
  | .text s => "String(" ++ Text.quote s ++ ")"
  | .bool b => "Bool(" ++ (if b then "true" else "false") ++ ")"
  | .object members => "Object(\x7b" ++ ", ".intercalate (describeMembers members) ++ "\x7d)"
  | .array items => "Array([" ++ ", ".intercalate (describeItems items) ++ "])"

def describeItems : List Datum → List String
  | [] => []
  | d :: ds => d.describe :: describeItems ds

def describeMembers : List (String × Datum) → List String
  | [] => []
  | (k, d) :: ms => (Text.quote k ++ ": " ++ d.describe) :: describeMembers ms

end

end Datum

/-- A value has maps for objects. -/
@[ext] structure Value where
  datum : Datum
  ordered : datum.Ordered

namespace Value

def null : Value :=
  ⟨.null, .null⟩

def number (x : Binary64) : Value :=
  ⟨.number x, .number x⟩

def text (s : String) : Value :=
  ⟨.text s, .text s⟩

def bool (b : Bool) : Value :=
  ⟨.bool b, .bool b⟩

def array (items : List Value) : Value :=
  ⟨.array (items.map datum), .array (List.forall_mem_map.mpr fun v _ => v.ordered)⟩

def memberData (members : Dict Value) : List (String × Datum) :=
  members.map fun m => (m.1, m.2.datum)

def object (members : Dict Value) (ordered : members.Ordered) : Value :=
  ⟨.object (memberData members),
    .object (ordered.mapValues datum) (List.forall_mem_map.mpr fun m _ => m.2.ordered)⟩

def asText? (v : Value) : Option String :=
  match v.datum with
  | .text s => some s
  | _ => none

def asNumber? (v : Value) : Option Binary64 :=
  match v.datum with
  | .number x => some x
  | _ => none

def asBool? (v : Value) : Option Bool :=
  match v.datum with
  | .bool b => some b
  | _ => none

def isNull (v : Value) : Bool :=
  match v.datum with
  | .null => true
  | _ => false

def toJson (v : Value) : Json :=
  v.datum.toJson

def ofJson (j : Json) : Value :=
  ⟨.ofJson j, Datum.ofJson_ordered j⟩

/-- Text stands for itself, every other value for its JSON. -/
def display (v : Value) : String :=
  match v.datum with
  | .text s => s
  | d => d.toJson.render

end Value

end Parley
