import Parley.Utf8

/-! What passes between the engine and the transport that reaches the model. -/
namespace Parley.Transport

structure Request where
  endpoint : String
  headers : List (String × String)
  body : Bytes

structure Reply where
  status : Nat
  contentType : Option String
  body : Bytes

def isSuccessStatus (status : Nat) : Bool :=
  200 ≤ status && status < 300

def Reply.isSuccess (r : Reply) : Bool :=
  isSuccessStatus r.status

inductive FailureKind where
  /-- No connection, or one that was dropped. -/
  | connect
  | timeout
  | other
  deriving DecidableEq, Repr

def FailureKind.text : FailureKind → String
  | .connect => "Connection failed"
  | .timeout => "Timed out"
  | .other => "Transport error"

/-- A request that got no reply. -/
structure Failure where
  kind : FailureKind
  message : String
  deriving DecidableEq, Repr

def Failure.text (f : Failure) : String :=
  f.kind.text ++ ": " ++ f.message

abbrev Outcome := Except Failure Reply

def jsonContentType : String :=
  "application/json"

end Parley.Transport
