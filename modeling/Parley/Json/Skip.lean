import Parley.Json.Reader

/-! Passing over a value nobody asks for. Its syntax is checked, but no depth, no surrogate, no
encoding and no range of a number. -/
namespace Parley.Json

open Reader

def skipDigits : Reader Unit := do
  let _ ← digits

def skipExponent : Reader Unit := do
  skip
  match ← peek with
  | some '+' | some '-' => skip
  | _ => pure ()
  match ← next with
  | some c => if c.isDigit then skipDigits else refuse .badNumber
  | none => refuse .badNumber

def skipFraction : Reader Unit := do
  skip
  if (← digits).isEmpty then refuseNext .badNumber
  else
    match ← peek with
    | some 'e' | some 'E' => skipExponent
    | _ => pure ()

/-- A number behind its sign. -/
def skipNumber : Reader Unit := do
  match ← next with
  | some '0' =>
    match ← peek with
    | some c => if c.isDigit then refuseNext .badNumber else pure ()
    | none => pure ()
  | some c => if c.isDigit then skipDigits else refuse .badNumber
  | none => refuse .badNumber
  match ← peek with
  | some '.' => skipFraction
  | some 'e' | some 'E' => skipExponent
  | _ => pure ()

/-- Where a string that is passed over stands; a unit owes this many more bytes than one. -/
inductive Passing where
  | plain
  | escape
  | unit (valid : Bool) (owed : Nat)

def passContent : Passing → Bytes → Except Failure (Unit × Bytes)
  | _, [] => .error ⟨.endOfString, 0⟩
  | .plain, b :: s =>
    if b = 0x22 then .ok ((), s)
    else if b = 0x5C then passContent .escape s
    else if b < 0x20 then .error ⟨.controlCharacter, (b :: s).length⟩
    else passContent .plain s
  | .escape, b :: s =>
    if b = 0x75 then passContent (.unit true 3) s
    else if (shortEscape? b).isSome then passContent .plain s
    else .error ⟨.badEscape, s.length⟩
  | .unit valid owed, b :: s =>
    let valid := valid && (hexValue? b).isSome
    match owed with
    | 0 => if valid then passContent .plain s else .error ⟨.badEscape, s.length⟩
    | owed + 1 => passContent (.unit valid owed) s

def skipString : Reader Unit :=
  passContent .plain

def skipName : Reader Unit := do
  match ← token with
  | some '"' => skip; skipString
  | some _ => refuseNext .keyNotString
  | none => refuseNext .endOfObject
  colon

mutual

def skipValue : Nat → Reader Unit
  | 0 => refuse .endOfValue
  | fuel + 1 => do
    match ← token with
    | none => refuseNext .endOfValue
    | some 'n' => skip; literal "ull".toList
    | some 't' => skip; literal "rue".toList
    | some 'f' => skip; literal "alse".toList
    | some '-' => skip; skipNumber
    | some '"' => skip; skipString
    | some '[' => skip; skipItems fuel true
    | some '\x7b' => skip; skipMembers fuel true
    | some c => if c.isDigit then skipNumber else refuseNext .expectedValue

/-- The items up to the closing bracket. A comma before it leaves a value missing. -/
def skipItems : Nat → Bool → Reader Unit
  | 0, _ => refuse .endOfValue
  | fuel + 1, first => do
    match ← token with
    | none => refuseNext .endOfArray
    | some ']' => skip
    | some c =>
      if first then do
        skipValue fuel
        skipItems fuel false
      else if c = ',' then do
        skip
        skipValue fuel
        skipItems fuel false
      else refuseNext .expectedCommaOrBracket

def skipMembers : Nat → Bool → Reader Unit
  | 0, _ => refuse .endOfValue
  | fuel + 1, first => do
    match ← token with
    | none => refuseNext .endOfObject
    | some '\x7d' => skip
    | some c =>
      if first then do
        skipName
        skipValue fuel
        skipMembers fuel false
      else if c = ',' then do
        skip
        skipName
        skipValue fuel
        skipMembers fuel false
      else refuseNext .expectedCommaOrBrace

end

end Parley.Json
