import Parley.Json.Skip

/-! Records read straight from a text. A record is an object with known members, or an array of
their values in the order of declaration. -/
namespace Parley.Json

open Reader

variable {σ α : Type}

structure Field (σ : Type) where
  name : String
  required : Bool
  isSet : σ → Bool
  read : σ → Reader σ

/-- Refuses the value ahead because of its kind. Scalars are read first, so an error inside one
comes before it; a bracket is left where it is. -/
def refuseType (expected : String) : Reader α := do
  let wrong := fun (found : Found) => (refuse (.wrongType found expected) : Reader α)
  match ← peek with
  | some 'n' => skip; literal "ull".toList; wrong .null
  | some 't' => skip; literal "rue".toList; wrong (.bool true)
  | some 'f' => skip; literal "alse".toList; wrong (.bool false)
  | some '-' => skip; ofNumber wrong (← number true)
  | some '"' => skip; wrong (.str (← string))
  | some '[' => wrong .arr
  | some '\x7b' => wrong .obj
  | some c => if c.isDigit then ofNumber wrong (← number false) else refuseNext .expectedValue
  | none => refuseNext .expectedValue
where
  ofNumber (wrong : Found → Reader α) : Json → Reader α
    | .int n => wrong (.int n)
    | .float x => wrong (.float x)
    | _ => wrong .null

def readString : Reader String := do
  match ← token with
  | none => refuseNext .endOfValue
  | some '"' => skip; string
  | some _ => refuseType "a string"

/-- An integer of a type with this name and range. -/
def readInt (low high : Int) (expected : String) : Reader Int := do
  match ← token with
  | none => refuseNext .endOfValue
  | some '-' => skip; check (← number true)
  | some c => if c.isDigit then check (← number false) else refuseType expected
where
  check : Json → Reader Int
    | .int n => if low ≤ n ∧ n ≤ high then pure n else refuse (.wrongRange n expected)
    | .float x => refuse (.wrongType (.float x) expected)
    | _ => refuse .badNumber

def readSigned : Reader Int :=
  readInt (-0x8000000000000000) 0x7FFFFFFFFFFFFFFF "i64"

def readUnsigned : Reader Nat := do
  pure (← readInt 0 0xFFFFFFFFFFFFFFFF "u64").toNat

/-- `null`, or a value. -/
def readOptional (inner : Reader α) : Reader (Option α) := do
  match ← token with
  | some 'n' => skip; literal "ull".toList; pure none
  | _ => some <$> inner

/-- An array of values with at most `depth` brackets open inside it. -/
def readArray (fuel depth : Nat) : Reader (List Json) := do
  match ← token with
  | none => refuseNext .endOfValue
  | some '[' =>
    match depth with
    | 0 => refuseNext .tooDeep
    | depth + 1 => do
      skip
      let xs ← items fuel depth true
      closeArray
      pure xs
  | some _ => refuseType "a sequence"

/-- The place of a fault found inside an object: behind what can be read of its end. -/
def refuseInObject (f : Fault) : Reader α := do
  match ← token with
  | some '\x7d' => skip; refuse f
  | _ => refuse f

def readMembers (fields : List (Field σ)) : Nat → Bool → σ → Reader σ
  | 0, _, _ => refuse .endOfValue
  | fuel + 1, first, acc => do
    match ← nextName? first with
    | none =>
      match fields.find? fun f => f.required && !f.isSet acc with
      | some f => refuseInObject (.missingField f.name)
      | none => pure acc
    | some name =>
      match fields.find? fun f => f.name = name with
      | none =>
        colon
        skipValue fuel
        readMembers fields fuel false acc
      | some f =>
        if f.isSet acc then refuseInObject (.duplicateField name)
        else do
          colon
          readMembers fields fuel false (← f.read acc)

/-- The fields of a record written as an array, from number `index` on. An array may end early if
the fields it leaves out have defaults. -/
def readInOrder (expected : String) (size : Nat) : Nat → List (Field σ) → σ → Reader σ
  | _, [], acc => pure acc
  | index, f :: fs, acc => do
    if ← moreItems (index == 0) then
      readInOrder expected size (index + 1) fs (← f.read acc)
    else if f.required then do
      skip
      refuse (.shortRecord index expected size)
    else readInOrder expected size (index + 1) fs acc

def readRecord (expected : String) (fields : List (Field σ)) (fuel depth : Nat) (start : σ) :
    Reader σ := do
  match ← token with
  | none => refuseNext .endOfValue
  | some '[' =>
    if depth = 0 then refuseNext .tooDeep
    else do
      skip
      let r ← readInOrder expected fields.length 0 fields start
      closeArray
      pure r
  | some '\x7b' =>
    if depth = 0 then refuseNext .tooDeep
    else do
      skip
      let r ← readMembers fields fuel true start
      closeObject
      pure r
  | some _ => refuseType expected

end Parley.Json
