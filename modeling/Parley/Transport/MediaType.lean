/-! Media types, as far as it takes to tell whether a body is JSON. -/
namespace Parley

structure MediaType where
  type : List Char
  subtype : List Char
  suffix : Option (List Char)

namespace MediaType

def isToken (c : Char) : Bool :=
  c.isAlphanum || "!#$%&'*+-.^_`|~".toList.contains c

def isQuotable (c : Char) : Bool :=
  0x1F < c.toNat && c.toNat ≠ 0x7F

/-- What may stand behind a quoted value: spaces, then the end or the next parameter. -/
def afterQuoted? (s : List Char) : Option (List Char) :=
  match s.dropWhile (· = ' ') with
  | [] => some []
  | ';' :: rest => some rest
  | _ => none

/-- What stands behind a parameter's value and the semicolon that ends it. The first character of a
quoted value may be a quote, so the value is never empty. -/
def afterValue? (s : List Char) : Option (List Char) :=
  match s with
  | '"' :: c :: rest =>
    if isQuotable c then
      match rest.dropWhile fun c => isQuotable c && c ≠ '"' with
      | '"' :: behind => afterQuoted? behind
      | _ => none
    else none
  | _ =>
    match s.takeWhile isToken, s.dropWhile isToken with
    | _, [] => some []
    | _ :: _, ';' :: rest => some rest
    | _, _ => none

/-- Whether parameters can be read to the end; spaces before a name are skipped. -/
def validParameters : Nat → List Char → Bool
  | 0, _ => false
  | fuel + 1, s =>
    let s := s.dropWhile (· = ' ')
    if s.isEmpty then true
    else
      match s.takeWhile isToken, s.dropWhile isToken with
      | _ :: _, '=' :: value =>
        match afterValue? value with
        | some rest => validParameters fuel rest
        | none => false
      | _, _ => false

/-- The last plus sign that is not first splits off the suffix. -/
def splitSuffix (s : List Char) : List Char × Option (List Char) :=
  let behind := s.reverse.takeWhile (· ≠ '+')
  let before := s.take (s.length - behind.length - 1)
  if behind.length = s.length ∨ before.isEmpty then (s, none)
  else (before, some behind.reverse)

def parse? (text : String) : Option MediaType :=
  let s := text.toList
  let type := s.takeWhile isToken
  match type, s.dropWhile isToken with
  | _ :: _, '/' :: rest =>
    let sub := rest.takeWhile isToken
    let (subtype, suffix) := splitSuffix sub
    match sub, rest.dropWhile isToken with
    | _, [] => some ⟨type, subtype, suffix⟩
    | _ :: _, ';' :: parameters =>
      if validParameters (parameters.length + 1) parameters then some ⟨type, subtype, suffix⟩
      else none
    | _, _ => none
  | _, _ => none

def isJsonName (s : List Char) : Bool :=
  s.map Char.toLower = "json".toList

def isJson (m : MediaType) : Bool :=
  isJsonName m.subtype || m.suffix.any isJsonName

end MediaType

end Parley
