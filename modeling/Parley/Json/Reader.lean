import Parley.Json.Basic
import Parley.Json.Fault

/-! Reading JSON off the front of a byte list. A reader takes what it needs and leaves the rest; a
failure names its place by how much is left, so no reader counts positions. -/
namespace Parley.Json

abbrev Reader (α : Type) := StateT Bytes (Except Failure) α

namespace Reader

variable {α : Type}

/-- The byte ahead, as the character of that number. -/
def peek : Reader (Option Char) :=
  fun s => .ok (s.head?.map Char.ofUInt8, s)

def skip : Reader Unit :=
  fun s => .ok ((), s.tail)

def next : Reader (Option Char) :=
  fun s => .ok (s.head?.map Char.ofUInt8, s.tail)

/-- Fails after the bytes taken so far. -/
def refuse (f : Fault) : Reader α :=
  fun s => .error ⟨f, s.length⟩

/-- Fails after the byte ahead, or at the end of the text. -/
def refuseNext (f : Fault) : Reader α :=
  fun s => .error ⟨f, s.tail.length⟩

def isSpace (b : UInt8) : Bool :=
  b = 0x20 || b = 0x09 || b = 0x0A || b = 0x0D

/-- Drops white space and looks at the byte behind it. -/
def token : Reader (Option Char) :=
  fun s => let t := s.dropWhile isSpace; .ok (t.head?.map Char.ofUInt8, t)

/-- What is left of a literal after its first letter. -/
def literal : List Char → Reader Unit
  | [] => pure ()
  | c :: cs => do
    match ← next with
    | none => refuse .endOfValue
    | some d => if d = c then literal cs else refuse .expectedLiteral

end Reader

open Reader

/-! Numbers. -/

def isDigit (b : UInt8) : Bool :=
  0x30 ≤ b && b ≤ 0x39

/-- The digits ahead. -/
def digits : Reader (List Nat) :=
  fun s => .ok ((s.takeWhile isDigit).map fun b => b.toNat - 0x30, s.dropWhile isDigit)

/-- Takes digits into `n` while the result stays below `limit`; the second part is what was not
taken. -/
def absorb (limit n : Nat) : List Nat → Nat × List Nat
  | [] => (n, [])
  | d :: ds => if n * 10 + d < limit then absorb limit (n * 10 + d) ds else (n, d :: ds)

/-- `2 ^ 64`. -/
def wordLimit : Nat := 0x10000000000000000

/-- `2 ^ 31`. -/
def exponentLimit : Nat := 0x80000000

/-- A double divided by a power of ten, in steps of `10 ^ 308` at most. Each step rounds. -/
def scaleDown (x : Binary64) (k : Nat) : Binary64 :=
  if k ≤ 308 then x.div (Binary64.ofNat (Decimal.tenPow k))
  else if x.isZero then x
  else scaleDown (x.div (Binary64.ofNat (Decimal.tenPow 308))) (k - 308)
termination_by k

/-- The double that stands for `significand * 10 ^ exponent`: the significand and the power are each
rounded before they are multiplied. `none` if there is no finite one. -/
def scale? (significand : Nat) (exponent : Int) : Option Binary64 :=
  let x := Binary64.ofNat significand
  if exponent < 0 then some (scaleDown x exponent.natAbs)
  else if x.isZero then some x
  else if 308 < exponent then none
  else
    let y := x.mul (Binary64.ofNat (Decimal.tenPow exponent.natAbs))
    if y.isFinite then some y else none

def signed (negative : Bool) (x : Binary64) : Binary64 :=
  if negative then x.neg else x

def scaled (negative : Bool) (significand : Nat) (exponent : Int) : Reader Json :=
  match scale? significand exponent with
  | some x => pure (.float (signed negative x))
  | none => refuse .numberOutOfRange

/-- The exponent of a number, from its `e` on. One that needs more than 31 bits makes the number
zero, or too large. -/
def exponentPart (negative : Bool) (significand : Nat) (shift : Int) : Reader Json := do
  skip
  let below ← do
    match ← peek with
    | some '+' => skip; pure false
    | some '-' => skip; pure true
    | _ => pure false
  match ← peek with
  | none => refuse .endOfValue
  | some c =>
    if c.isDigit then
      let ds ← digits
      match absorb exponentLimit 0 ds with
      | (n, []) => scaled negative significand (if below then shift - n else shift + n)
      | (_, _ :: unread) =>
        if significand = 0 ∨ below then pure (.float (signed negative .zero))
        else fun s => .error ⟨.numberOutOfRange, unread.length + s.length⟩
    else do
      skip
      refuse .badNumber

/-- The fraction of a number, from its point on. -/
def fractionPart (negative : Bool) (significand : Nat) (shift : Int) : Reader Json := do
  skip
  match ← digits with
  | [] =>
    match ← peek with
    | none => refuseNext .endOfValue
    | some _ => refuseNext .badNumber
  | ds =>
    let (n, unread) := absorb wordLimit significand ds
    let shift := shift - (ds.length - unread.length : Nat)
    match ← peek with
    | some 'e' | some 'E' => exponentPart negative n shift
    | _ => scaled negative n shift

/-- An integer that fits a word is exact. Minus zero and what does not fit are doubles. -/
def wholeNumber (negative : Bool) (n : Nat) : Json :=
  if !negative then .int n
  else if 0 < n ∧ n ≤ 0x8000000000000000 then .int (-n)
  else .float (Binary64.ofNat n).neg

/-- A number behind its sign. -/
def number (negative : Bool) : Reader Json := do
  match ← peek with
  | none => refuse .endOfValue
  | some c =>
    if c.isDigit then
      let ds ← digits
      match ds with
      | 0 :: _ :: unread => fun s => .error ⟨.badNumber, unread.length + s.length⟩
      | _ =>
        let (n, unread) := absorb wordLimit 0 ds
        match ← peek with
        | some '.' => fractionPart negative n unread.length
        | some 'e' | some 'E' => exponentPart negative n unread.length
        | _ =>
          if unread.isEmpty then pure (wholeNumber negative n)
          else scaled negative n unread.length
    else do
      skip
      refuse .badNumber

/-! Strings. -/

def hexValue? (b : UInt8) : Option Nat :=
  let n := b.toNat
  if 0x30 ≤ n ∧ n ≤ 0x39 then some (n - 0x30)
  else if 0x41 ≤ n ∧ n ≤ 0x46 then some (n - 0x37)
  else if 0x61 ≤ n ∧ n ≤ 0x66 then some (n - 0x57)
  else none

/-- The byte that a short escape stands for. -/
def shortEscape? (b : UInt8) : Option UInt8 :=
  match Char.ofUInt8 b with
  | '"' => some 0x22
  | '\\' => some 0x5C
  | '/' => some 0x2F
  | 'b' => some 0x08
  | 'f' => some 0x0C
  | 'n' => some 0x0A
  | 'r' => some 0x0D
  | 't' => some 0x09
  | _ => none

/-- Where a string stands. `lead` is a leading surrogate that waits for its second half, and `taken`
holds the bytes of a unit so far, latest first. -/
inductive Within where
  | plain
  | escape
  | unit (lead : Option Nat) (taken : Bytes)
  | backslash (lead : Nat)
  | letterU (lead : Nat)

def unitValue? (taken : Bytes) : Option Nat :=
  taken.reverse.foldl (fun n b => do pure ((← n) * 16 + (← hexValue? b))) (some 0)

def isTrailing (u : Nat) : Bool :=
  0xDC00 ≤ u && u ≤ 0xDFFF

def isLeading (u : Nat) : Bool :=
  0xD800 ≤ u && u ≤ 0xDBFF

/-- What a finished unit of an escape leads to. -/
inductive UnitStep where
  | char (c : Char)
  | lead (u : Nat)
  | fault (f : Fault)

def unitStep (lead : Option Nat) (taken : Bytes) : UnitStep :=
  match unitValue? taken, lead with
  | none, _ => .fault .badEscape
  | some u, none =>
    if isTrailing u then .fault .loneSurrogate
    else if isLeading u then .lead u
    else .char (Char.ofNat u)
  | some u, some high =>
    if isTrailing u then .char (Char.ofNat ((high - 0xD800) * 0x400 + (u - 0xDC00) + 0x10000))
    else .fault .loneSurrogate

/-- The content of a string up to its closing quote, in UTF-8; `done` is what has been read of it,
latest first. -/
def content : Within → Bytes → Bytes → Except Failure (Bytes × Bytes)
  | _, _, [] => .error ⟨.endOfString, 0⟩
  | .plain, done, b :: s =>
    if b = 0x22 then .ok (done.reverse, s)
    else if b = 0x5C then content .escape done s
    else if b < 0x20 then .error ⟨.controlCharacter, s.length⟩
    else content .plain (b :: done) s
  | .escape, done, b :: s =>
    if b = 0x75 then content (.unit none []) done s
    else
      match shortEscape? b with
      | some c => content .plain (c :: done) s
      | none => .error ⟨.badEscape, s.length⟩
  | .unit lead taken, done, b :: s =>
    if taken.length < 3 then content (.unit lead (b :: taken)) done s
    else
      match unitStep lead (b :: taken) with
      | .char c => content .plain ((Utf8.encodeChar c).reverse ++ done) s
      | .lead u => content (.backslash u) done s
      | .fault f => .error ⟨f, s.length⟩
  | .backslash u, done, b :: s =>
    if b = 0x5C then content (.letterU u) done s else .error ⟨.endOfEscape, s.length⟩
  | .letterU u, done, b :: s =>
    if b = 0x75 then content (.unit (some u) []) done s else .error ⟨.endOfEscape, s.length⟩

/-- A string behind its opening quote. Bytes that are not UTF-8 are reported once the string is
closed, by as many bytes before its end as there are from the first wrong one on. -/
def string : Reader String := fun s => do
  let (bytes, rest) ← content .plain [] s
  match Utf8.decode? bytes with
  | some cs => .ok (String.ofList cs, rest)
  | none => .error ⟨.badCodePoint, rest.length + (bytes.length - Utf8.validLength bytes)⟩

/-! Arrays and objects. -/

/-- Whether another item follows; stands on the closing bracket if not. -/
def moreItems (first : Bool) : Reader Bool := do
  match ← token with
  | none => refuseNext .endOfArray
  | some ']' => pure false
  | some c =>
    if first then pure true
    else if c = ',' then do
      skip
      match ← token with
      | none => refuseNext .endOfValue
      | some ']' => refuseNext .trailingComma
      | some _ => pure true
    else refuseNext .expectedCommaOrBracket

/-- The name of the next member; stands on the closing brace if there is none. -/
def nextName? (first : Bool) : Reader (Option String) := do
  match ← token with
  | none => refuseNext .endOfObject
  | some '\x7d' => pure none
  | some c =>
    if first then
      if c = '"' then do skip; some <$> string else refuseNext .keyNotString
    else if c = ',' then do
      skip
      match ← token with
      | none => refuseNext .endOfValue
      | some '"' => skip; some <$> string
      | some '\x7d' => refuseNext .trailingComma
      | some _ => refuseNext .keyNotString
    else refuseNext .expectedCommaOrBrace

def colon : Reader Unit := do
  match ← token with
  | some ':' => skip
  | some _ => refuseNext .expectedColon
  | none => refuseNext .endOfObject

def closeArray : Reader Unit := do
  match ← token with
  | none => refuseNext .endOfArray
  | some ']' => skip
  | some ',' => do
    skip
    match ← token with
    | some ']' => refuseNext .trailingComma
    | _ => refuseNext .trailingCharacters
  | some _ => refuseNext .trailingCharacters

def closeObject : Reader Unit := do
  match ← token with
  | none => refuseNext .endOfObject
  | some '\x7d' => skip
  | some ',' => refuseNext .trailingComma
  | some _ => refuseNext .trailingCharacters

mutual

/-- A value with at most `depth` brackets open inside it. Every call takes from `fuel`, and between
two that do not nest a byte is taken, so twice the length of the text is enough of it. -/
def value : Nat → Nat → Reader Json
  | 0, _ => refuse .endOfValue
  | fuel + 1, depth => do
    match ← token with
    | none => refuseNext .endOfValue
    | some 'n' => skip; literal "ull".toList; pure .null
    | some 't' => skip; literal "rue".toList; pure (.bool true)
    | some 'f' => skip; literal "alse".toList; pure (.bool false)
    | some '-' => skip; number true
    | some '"' => skip; .str <$> string
    | some '[' =>
      match depth with
      | 0 => refuseNext .tooDeep
      | depth + 1 => do
        skip
        let xs ← items fuel depth true
        closeArray
        pure (.arr xs)
    | some '\x7b' =>
      match depth with
      | 0 => refuseNext .tooDeep
      | depth + 1 => do
        skip
        let ms ← members fuel depth true
        closeObject
        pure (.obj ms)
    | some c => if c.isDigit then number false else refuseNext .expectedValue

def items : Nat → Nat → Bool → Reader (List Json)
  | 0, _, _ => refuse .endOfValue
  | fuel + 1, depth, first => do
    if ← moreItems first then
      let x ← value fuel depth
      let xs ← items fuel depth false
      pure (x :: xs)
    else pure []

def members : Nat → Nat → Bool → Reader (List (String × Json))
  | 0, _, _ => refuse .endOfValue
  | fuel + 1, depth, first => do
    match ← nextName? first with
    | some name =>
      colon
      let x ← value fuel depth
      let ms ← members fuel depth false
      pure ((name, x) :: ms)
    | none => pure []

end

/-- How many brackets may be open at once. -/
def depthLimit : Nat := 127

def fuelFor (s : Bytes) : Nat := 2 * s.length + 2

/-- Nothing but white space may follow. -/
def finish : Reader Unit := do
  match ← token with
  | none => pure ()
  | some _ => refuseNext .trailingCharacters

/-- The one value of a text. -/
def read (s : Bytes) : Except Failure Json :=
  (do let j ← value (fuelFor s) depthLimit; finish; pure j : Reader Json).run' s

def parse (s : String) : Except Failure Json :=
  read (Utf8.ofString s)

end Parley.Json
