import Parley.Url.Host

/-! URLs and their text. -/
namespace Parley

namespace Url

inductive Path where
  | segments (ps : List (List Char))
  /-- A path without structure. -/
  | solid (text : List Char)
  deriving DecidableEq

end Url

structure Url where
  scheme : List Char
  username : List Char := []
  password : List Char := []
  host : Option Url.Host := none
  port : Option Nat := none
  path : Url.Path := .segments []
  query : Option (List Char) := none
  fragment : Option (List Char) := none
  deriving DecidableEq

namespace Url

/-- The port number that need not be written. -/
def defaultPort? (scheme : List Char) : Option Nat :=
  match String.ofList scheme with
  | "http" | "ws" => some 80
  | "https" | "wss" => some 443
  | "ftp" => some 21
  | _ => none

def isFileScheme (scheme : List Char) : Bool :=
  String.ofList scheme = "file"

/-- Special schemes have hosts, and take backslashes for slashes. -/
def isSpecialScheme (scheme : List Char) : Bool :=
  (defaultPort? scheme).isSome || isFileScheme scheme

def isSpecial (u : Url) : Bool :=
  isSpecialScheme u.scheme

def userinfoChars (u : Url) : List Char :=
  if u.username.isEmpty && u.password.isEmpty then []
  else u.username ++ (if u.password.isEmpty then [] else ':' :: u.password) ++ ['@']

def authorityChars (u : Url) : List Char :=
  match u.host with
  | some h =>
    ['/', '/'] ++ u.userinfoChars ++ h.text
      ++ (match u.port with | some n => ':' :: Decimal.natText n | none => [])
  | none =>
    match u.path with
    | .segments ([] :: _ :: _) => ['/', '.']
    | _ => []

def pathChars (u : Url) : List Char :=
  match u.path with
  | .segments ps => ps.flatMap ('/' :: ·)
  | .solid text => text

def chars (u : Url) : List Char :=
  u.scheme ++ ':' :: u.authorityChars ++ u.pathChars
    ++ (match u.query with | some q => '?' :: q | none => [])
    ++ (match u.fragment with | some f => '#' :: f | none => [])

def text (u : Url) : String :=
  String.ofList u.chars

def hasHost (u : Url) : Bool :=
  match u.host with
  | none | some (.plain []) => false
  | some _ => true

/-- The same without name and password. -/
def withoutUserinfo (u : Url) : Url :=
  { u with username := [], password := [] }

end Url

end Parley
