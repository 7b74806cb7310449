import Parley.Json.Reader

/-! The grammar of JSON texts over characters, by RFC 8259, and what each text stands for. -/
namespace Parley.Json.Grammar

def isSpace (c : Char) : Bool :=
  c = ' ' || c = '\t' || c = '\n' || c = '\r'

abbrev Spaces := { cs : List Char // ∀ c ∈ cs, isSpace c = true }

/-! Numbers. -/

/-- One digit or more. -/
structure Digits where
  chars : List Char
  nonempty : chars ≠ []
  all : ∀ d ∈ chars, d.isDigit = true

namespace Digits

def values (ds : Digits) : List Nat :=
  ds.chars.map fun d => d.toNat - '0'.toNat

def value (ds : Digits) : Nat :=
  Nat.ofDigitChars 10 ds.chars 0

end Digits

structure Exponent where
  mark : Char
  sign : List Char
  digits : Digits
  marked : mark = 'e' ∨ mark = 'E'
  signed : sign = [] ∨ sign = ['+'] ∨ sign = ['-']

def Exponent.chars (e : Exponent) : List Char :=
  e.mark :: (e.sign ++ e.digits.chars)

def fractionChars : Option Digits → List Char
  | some ds => '.' :: ds.chars
  | none => []

def exponentChars : Option Exponent → List Char
  | some e => e.chars
  | none => []

/-- A number without a superfluous zero in front. -/
structure Numeral where
  negative : Bool
  whole : Digits
  fraction : Option Digits
  exponent : Option Exponent
  lead : ∀ ds, whole.chars = '0' :: ds → ds = []

namespace Numeral

variable (n : Numeral)

/-- All but the sign. -/
def unsigned : List Char :=
  n.whole.chars ++ (fractionChars n.fraction ++ exponentChars n.exponent)

def chars : List Char :=
  if n.negative then '-' :: n.unsigned else n.unsigned

/-- The digits as far as they fit a word, and the power of ten that they are to be multiplied by. -/
def scaled : Nat × Int :=
  let head := absorb wordLimit 0 n.whole.values
  match n.fraction with
  | none => (head.1, head.2.length)
  | some ds =>
    let all := absorb wordLimit head.1 ds.values
    (all.1, head.2.length - (ds.values.length - all.2.length : Nat))

end Numeral

/-- The product of the significand and the power of ten, each rounded, has to be finite. -/
def float? (negative : Bool) (significand : Nat) (power : Int) : Option Json :=
  (scale? significand power).map fun x => .float (signed negative x)

/-- An exponent of more than 31 bits leaves zero or nothing. -/
def Exponent.float? (e : Exponent) (negative : Bool) (significand : Nat) (power : Int) :
    Option Json :=
  let n := e.digits.value
  let below := e.sign = ['-']
  if n < exponentLimit then
    Grammar.float? negative significand (if below then power - n else power + n)
  else if significand = 0 ∨ below then some (.float (Json.signed negative .zero))
  else none

def optionalFloat? (e : Option Exponent) (negative : Bool) (significand : Nat) (power : Int) :
    Option Json :=
  match e with
  | some e => e.float? negative significand power
  | none => float? negative significand power

/-- Integers that fit a word are exact. -/
def Numeral.value? (n : Numeral) : Option Json :=
  if n.fraction.isNone ∧ n.exponent.isNone ∧ n.whole.value < wordLimit then
    some (wholeNumber n.negative n.whole.value)
  else optionalFloat? n.exponent n.negative n.scaled.1 n.scaled.2

/-! Strings. -/

/-- What may stand behind a backslash, and what it makes. -/
def shortEscapes : List (Char × Char) :=
  [('"', '"'), ('\\', '\\'), ('/', '/'), ('b', '\x08'), ('f', '\x0C'), ('n', '\n'), ('r', '\r'),
    ('t', '\t')]

def hexDigit? (c : Char) : Option Nat :=
  if c.isDigit then some (c.toNat - '0'.toNat)
  else if 'A' ≤ c ∧ c ≤ 'F' then some (c.toNat - 'A'.toNat + 10)
  else if 'a' ≤ c ∧ c ≤ 'f' then some (c.toNat - 'a'.toNat + 10)
  else none

/-- Four hexadecimal digits and their number. -/
inductive Hex : List Char → Nat → Prop
  | intro {a b c d : Char} {i j k l : Nat} (first : hexDigit? a = some i)
    (second : hexDigit? b = some j) (third : hexDigit? c = some k) (fourth : hexDigit? d = some l) :
    Hex [a, b, c, d] (((i * 16 + j) * 16 + k) * 16 + l)

/-- What stands between the quotes, and the characters it means. Surrogates come in pairs only. -/
inductive Spelled : List Char → List Char → Prop
  | nil : Spelled [] []
  | plain {c : Char} {text meant : List Char} (quote : c ≠ '"') (slash : c ≠ '\\')
    (control : 0x20 ≤ c.toNat) (rest : Spelled text meant) : Spelled (c :: text) (c :: meant)
  | short {e c : Char} {text meant : List Char} (escape : (e, c) ∈ shortEscapes)
    (rest : Spelled text meant) : Spelled ('\\' :: e :: text) (c :: meant)
  | unit {ds text meant : List Char} {u : Nat} (hex : Hex ds u)
    (scalar : isLeading u = false ∧ isTrailing u = false) (rest : Spelled text meant) :
    Spelled ('\\' :: 'u' :: (ds ++ text)) (Char.ofNat u :: meant)
  | pair {ds es text meant : List Char} {u v : Nat} (hex : Hex ds u) (hex' : Hex es v)
    (lead : isLeading u = true) (trail : isTrailing v = true) (rest : Spelled text meant) :
    Spelled ('\\' :: 'u' :: (ds ++ '\\' :: 'u' :: (es ++ text)))
      (Char.ofNat ((u - 0xD800) * 0x400 + (v - 0xDC00) + 0x10000) :: meant)

/-- A string in its quotes. -/
structure Quoted where
  inside : List Char
  meant : List Char
  spelled : Spelled inside meant

namespace Quoted

def chars (q : Quoted) : List Char :=
  '"' :: (q.inside ++ ['"'])

def value (q : Quoted) : String :=
  String.ofList q.meant

end Quoted

/-! Values. -/

/-- A value and its text, in white space. -/
structure Item where
  before : Spaces
  text : List Char
  value : Json
  after : Spaces

def Item.chars (i : Item) : List Char :=
  i.before.val ++ (i.text ++ i.after.val)

structure Member where
  before : Spaces
  name : Quoted
  after : Spaces
  item : Item

def Member.chars (m : Member) : List Char :=
  m.before.val ++ (m.name.chars ++ (m.after.val ++ ':' :: m.item.chars))

def separated (texts : List (List Char)) : List Char :=
  List.intercalate [','] texts

/-- The text stands for the value, with at most `depth` brackets open at once. -/
inductive Spells : Nat → List Char → Json → Prop
  | null (depth : Nat) : Spells depth ['n', 'u', 'l', 'l'] .null
  | true (depth : Nat) : Spells depth ['t', 'r', 'u', 'e'] (.bool true)
  | false (depth : Nat) : Spells depth ['f', 'a', 'l', 's', 'e'] (.bool false)
  | number (depth : Nat) (n : Numeral) {j : Json} (value : n.value? = some j) :
    Spells depth n.chars j
  | str (depth : Nat) (q : Quoted) : Spells depth q.chars (.str q.value)
  | arr {depth : Nat} (inside : Spaces) {items : List Item}
    (all : ∀ i ∈ items, Spells depth i.text i.value) :
    Spells (depth + 1) ('[' :: (inside.val ++ (separated (items.map Item.chars) ++ [']'])))
      (.arr (items.map Item.value))
  | obj {depth : Nat} (inside : Spaces) {members : List Member}
    (all : ∀ m ∈ members, Spells depth m.item.text m.item.value) :
    Spells (depth + 1)
      ('\x7b' :: (inside.val ++ (separated (members.map Member.chars) ++ ['\x7d'])))
      (.obj (members.map fun m => (m.name.value, m.item.value)))

/-- A whole text is one value, in white space. -/
def IsText (text : List Char) (j : Json) : Prop :=
  ∃ i : Item, i.chars = text ∧ i.value = j ∧ Spells depthLimit i.text j

end Parley.Json.Grammar
