import Parley.Url.Basic

/-! Reading URLs, alone or against a base. -/
namespace Parley.Url

/-- Controls and spaces at the ends do not count, nor do tabs and line breaks anywhere. -/
def cleaned (s : List Char) : List Char :=
  let trimmed := ((s.dropWhile (·.toNat ≤ 0x20)).reverse.dropWhile (·.toNat ≤ 0x20)).reverse
  trimmed.filter fun c => c ≠ '\t' ∧ c ≠ '\n' ∧ c ≠ '\r'

/-- The text before the first `sep`, and the text behind it if there is one. -/
def cut (sep : Char) (s : List Char) : List Char × Option (List Char) :=
  match s.dropWhile (· ≠ sep) with
  | [] => (s, none)
  | _ :: rest => (s.takeWhile (· ≠ sep), some rest)

/-- The scheme in small letters, and what stands behind its colon. -/
def splitScheme? (s : List Char) : Option (List Char × List Char) :=
  match s with
  | c :: _ =>
    if c.isAlpha then
      let name := s.takeWhile fun c => c.isAlphanum || "+-.".toList.contains c
      match s.drop name.length with
      | ':' :: rest => some (name.map Char.toLower, rest)
      | _ => none
    else none
  | [] => none

def isSlash (special : Bool) (c : Char) : Bool :=
  c = '/' || (special && c = '\\')

/-! Paths. -/

def lowered (s : List Char) : String :=
  String.ofList (s.map Char.toLower)

def isSingleDot (s : List Char) : Bool :=
  [".", "%2e"].contains (lowered s)

def isDoubleDot (s : List Char) : Bool :=
  ["..", ".%2e", "%2e.", "%2e%2e"].contains (lowered s)

/-- A letter and a colon, or a bar in its place. -/
def isDriveLetter (s : List Char) : Bool :=
  match s with
  | [c, d] => c.isAlpha && (d = ':' || d = '|')
  | _ => false

/-- Drops the last segment, but not the drive of a file. -/
def shorten (file : Bool) (ps : List (List Char)) : List (List Char) :=
  match ps with
  | [p] => if file && isDriveLetter p then ps else []
  | _ => ps.dropLast

def slashParts (special : Bool) : List Char → List (List Char)
  | [] => [[]]
  | c :: cs =>
    if isSlash special c then [] :: slashParts special cs
    else
      match slashParts special cs with
      | [] => [[c]]
      | p :: ps => (c :: p) :: ps

/-- Adds segments to a path. Dots are resolved; at the end of a path they leave an empty segment. -/
def walk (file : Bool) : List (List Char) → List (List Char) → List (List Char)
  | path, [] => path
  | path, s :: rest =>
    let path :=
      if isDoubleDot s then
        let shorter := shorten file path
        if rest.isEmpty then shorter ++ [[]] else shorter
      else if isSingleDot s then
        if rest.isEmpty then path ++ [[]] else path
      else
        match file && path.isEmpty && isDriveLetter s, s with
        | true, c :: _ => path ++ [[c, ':']]
        | _, _ => path ++ [percentEncode pathSet s]
    walk file path rest

/-- The path that a text spells, from its first slash on. -/
def pathFrom (scheme : List Char) (start : List (List Char)) (s : List Char) : List (List Char) :=
  let special := isSpecialScheme scheme
  match s with
  | [] => if special then walk (isFileScheme scheme) start [[]] else start
  | c :: rest =>
    walk (isFileScheme scheme) start
      (slashParts special (if isSlash special c then rest else c :: rest))

def queryFrom (special : Bool) (s : List Char) : List Char :=
  percentEncode (if special then specialQuerySet else querySet) s

/-- Puts path and query, which stand behind the authority, into a URL. -/
def withTail (u : Url) (s : List Char) : Url :=
  let (path, query) := cut '?' s
  { u with
    path := .segments (pathFrom u.scheme [] path)
    query := query.map (queryFrom u.isSpecial) }

/-! Authorities. -/

/-- The port number behind a host; the default one is dropped. -/
def port? (scheme : List Char) (s : List Char) : Option (Option Nat) :=
  if s.isEmpty then some none
  else if s.all Char.isDigit then do
    let n ← digitsIn 10 s
    if n < 65536 then some (if defaultPort? scheme = some n then none else some n) else none
  else none

/-- The text of a host and, behind a colon outside brackets, that of its port number. -/
def splitPort : Bool → List Char → List Char × Option (List Char)
  | _, [] => ([], none)
  | inBrackets, c :: rest =>
    if c = ':' && !inBrackets then ([], some rest)
    else
      let (h, p) := splitPort (if c = '[' then true else if c = ']' then false else inBrackets) rest
      (c :: h, p)

/-- The text before the last `@`, if there is one, and the text behind it. -/
def splitUserinfo (s : List Char) : Option (List Char) × List Char :=
  let behind := (s.reverse.takeWhile (· ≠ '@')).reverse
  if behind.length = s.length then (none, s)
  else (some (s.take (s.length - behind.length - 1)), behind)

def authority? (scheme : List Char) (s : List Char) : Option Url := do
  let special := isSpecialScheme scheme
  let (userinfo, hostPort) := splitUserinfo s
  let (hostText, portText) := splitPort false hostPort
  if hostText.isEmpty && (special || userinfo.isSome || portText.isSome) then none
  else
    let host ← if hostText.isEmpty then some (.plain []) else Host.parse? special hostText
    let port ← port? scheme (portText.getD [])
    let (name, password) := cut ':' (userinfo.getD [])
    pure
      { scheme, host := some host, port
        username := percentEncode userinfoSet name
        password := percentEncode userinfoSet (password.getD []) }

/-- An authority and what stands behind it. -/
def afterSlashes? (scheme : List Char) (s : List Char) : Option Url := do
  let stop := fun c => isSlash (isSpecialScheme scheme) c || c = '?'
  let u ← authority? scheme (s.takeWhile fun c => !stop c)
  pure (u.withTail (s.dropWhile fun c => !stop c))

/-- A file's host may be missing, and the local one is dropped. -/
def file? (s : List Char) : Option Url :=
  let scheme := "file".toList
  let here : Url := { scheme, host := some (.plain []) }
  match s with
  | a :: b :: rest =>
    if isSlash true a && isSlash true b then
      let stop := fun c => isSlash true c || c = '?'
      let hostText := rest.takeWhile fun c => !stop c
      if hostText.isEmpty || isDriveLetter hostText then some (here.withTail rest)
      else do
        let host ← Host.parse? true hostText
        let host := if host = .domain "localhost".toList then .plain [] else host
        pure ({ here with host := some host }.withTail (rest.dropWhile fun c => !stop c))
    else some (here.withTail s)
  | _ => some (here.withTail s)

/-- A URL behind its scheme. -/
def absolute? (scheme : List Char) (s : List Char) : Option Url :=
  if isFileScheme scheme then file? s
  else if isSpecialScheme scheme then afterSlashes? scheme (s.dropWhile (isSlash true))
  else
    match s with
    | '/' :: '/' :: rest => afterSlashes? scheme rest
    | '/' :: _ => some (({ scheme } : Url).withTail s)
    | _ =>
      let (path, query) := cut '?' s
      some
        { scheme
          path := .solid (percentEncode controlSet path)
          query := query.map (queryFrom false) }

def withFragment (u : Url) (f : Option (List Char)) : Url :=
  { u with fragment := f.map (percentEncode fragmentSet) }

/-- Only absolute URLs can be read on their own. -/
def parse? (text : String) : Option Url := do
  let (s, fragment) := cut '#' (cleaned text.toList)
  let (scheme, rest) ← splitScheme? s
  pure ((← absolute? scheme rest).withFragment fragment)

/-- A reference without a scheme, against a base with a structured path. -/
def relative? (base : Url) (s : List Char) : Option Url :=
  let special := base.isSpecial
  let (path, query) := cut '?' s
  let query := query.map (queryFrom special)
  match path with
  | [] => some { base with query := if s.isEmpty then base.query else query, fragment := none }
  | c :: rest =>
    if isSlash special c then
      match rest with
      | d :: _ =>
        if isSlash special d then absolute? base.scheme s
        else some ({ base with fragment := none }.withTail s)
      | [] => some ({ base with fragment := none }.withTail s)
    else
      let start := match base.path with
        | .segments ps => shorten (isFileScheme base.scheme) ps
        | .solid _ => []
      some
        { base with
          path := .segments (pathFrom base.scheme start path)
          query
          fragment := none }

/-- The URL that a reference names where the base is in force. -/
def resolve? (base : Url) (reference : String) : Option Url := do
  let (s, fragment) := cut '#' (cleaned reference.toList)
  match splitScheme? s with
  | some (scheme, rest) =>
    if scheme = base.scheme && base.isSpecial && !(rest.take 2).all (isSlash true) then
      pure ((← relative? base rest).withFragment fragment)
    else pure ((← absolute? scheme rest).withFragment fragment)
  | none =>
    match base.path with
    | .solid _ => if s.isEmpty then some (base.withFragment fragment) else none
    | .segments _ => pure ((← relative? base s).withFragment fragment)

end Parley.Url
