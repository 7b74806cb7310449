import Parley.Decimal.Layout

/-! Paths as text. A path is cut at its slashes; empty parts and `.` are no components, except that a
leading `.` is one and a leading slash makes the path absolute. -/
namespace Parley.Path

inductive Component where
  | root
  | current
  | parent
  | name (s : List Char)
  deriving DecidableEq

def parts (path : List Char) : List (List Char) :=
  path.splitOn '/'

/-- Whether a part behind a slash is a component. -/
def isComponent (part : List Char) : Bool :=
  part ≠ [] && part ≠ ['.']

def component (part : List Char) : Component :=
  if part = ['.', '.'] then .parent else .name part

/-- What the part before the first slash stands for. -/
def leading (hasSlash : Bool) (part : List Char) : List Component :=
  if part = [] then if hasSlash then [.root] else []
  else if part = ['.'] then [.current]
  else [component part]

/-- The components that parts behind a slash stand for. -/
def behind (ps : List (List Char)) : List Component :=
  (ps.filter isComponent).map component

def components (path : List Char) : List Component :=
  match parts path with
  | [] => []
  | first :: rest => leading (!rest.isEmpty) first ++ behind rest

/-- Parts, latest first, without the ones at the end that are no components. -/
def trimLatest (latestFirst : List (List Char)) : List (List Char) :=
  latestFirst.dropWhile fun p => !isComponent p

def join (ps : List (List Char)) : List Char :=
  ['/'].intercalate ps

/-- The last component, if it is a name. -/
def fileName? (path : List Char) : Option (List Char) :=
  match (components path).getLast? with
  | some (.name s) => some s
  | _ => none

/-- The path without its last component, as it is written. A path without components has none, nor
has the root; that of a single relative component is empty. -/
def parent? (path : List Char) : Option (List Char) :=
  match parts path with
  | [] => none
  | first :: rest =>
    match trimLatest rest.reverse with
    | [] => if first = [] then none else some []
    | _ :: before =>
      let kept := trimLatest before
      some (if first = [] ∧ kept = [] then ['/'] else join (first :: kept.reverse))

/-- The directory that holds the last component, if the path tells it. -/
def directory? (path : List Char) : Option (List Char) :=
  (parent? path).filter fun dir => dir ≠ []

/-- The path `name` as seen from `dir`. -/
def append (dir name : List Char) : List Char :=
  if name.head? = some '/' then name
  else if dir = [] ∨ dir.getLast? = some '/' then dir ++ name
  else dir ++ '/' :: name

def outputName (n : Nat) : List Char :=
  "output_".toList ++ Decimal.natText n ++ ".jpg".toList

/-- The path written next to `src` at this time, which is zero for a clock that is behind. The name
shows its last five digits. -/
def output? (src : String) (milliseconds : Nat) : Option String :=
  (directory? src.toList).map fun dir =>
    String.ofList (append dir (outputName (milliseconds % 100000)))

end Parley.Path
