import Parley.Decimal.Layout

/-! Errors of the engine: a kind, and the reason where there is more to say. -/
namespace Parley

inductive ErrorKind where
  /-- No response came. -/
  | transport
  | httpStatus (status : Nat)
  /-- The body could not be decoded. -/
  | decode
  | emptyResponse
  | unknownTool
  | argumentParse
  | toolExecution
  | alreadyStarted
  | notRunning
  /-- The loop runs but did not answer in time. -/
  | busy
  | runtime
  deriving DecidableEq, Repr

def ErrorKind.text : ErrorKind → String
  | .transport => "Transport error"
  | .httpStatus status => "HTTP status " ++ String.ofList (Decimal.natText status)
  | .decode => "Decode error"
  | .emptyResponse => "Empty response"
  | .unknownTool => "Unknown tool"
  | .argumentParse => "Invalid tool arguments"
  | .toolExecution => "Tool execution error"
  | .alreadyStarted => "Already started"
  | .notRunning => "Not running"
  | .busy => "Event loop busy"
  | .runtime => "Runtime error"

structure Error where
  kind : ErrorKind
  detail : Option String := none
  deriving DecidableEq, Repr

namespace Error

def withReason (e : Error) (reason : String) : Error :=
  { e with detail := some reason }

/-- The kind speaks for an error without a reason. -/
def reason (e : Error) : String :=
  e.detail.getD e.kind.text

def message (e : Error) : String :=
  match e.detail with
  | some d => e.kind.text ++ ": " ++ d
  | none => e.kind.text

/-- The code reported for a failed round trip; success is zero. -/
def statusCode (e : Error) : Int :=
  match e.kind with
  | .transport => -1
  | .decode => -2
  | .emptyResponse => -3
  | .httpStatus status => -status
  | _ => -100

def unknownTool (name : String) : Error :=
  ⟨.unknownTool, some ("no tool named `" ++ name ++ "`")⟩

def argumentParse (reason : String) : Error :=
  ⟨.argumentParse, some reason⟩

def alreadyStarted : Error :=
  ⟨.alreadyStarted, none⟩

def notRunning : Error :=
  ⟨.notRunning, none⟩

def busy : Error :=
  ⟨.busy, some "no reply within 1s"⟩

end Error

end Parley
