import Parley.Transport.Basic
import Parley.Transport.Preset

/-! A transport that follows a script. A request takes its step when it is sent; when it is resolved
makes no difference. -/
namespace Parley.Transport

inductive ScriptStep where
  | reply (p : Preset)
  | status (code : Nat) (body : String)
  | raw (body : String)
  | failure (kind : FailureKind)

def ScriptStep.outcome : ScriptStep → Outcome
  | .reply p => .ok ⟨200, some jsonContentType, p.body⟩
  | .status code body => .ok ⟨code, some jsonContentType, Utf8.ofString body⟩
  | .raw body => .ok ⟨200, some jsonContentType, Utf8.ofString body⟩
  | .failure kind => .error ⟨kind, "scripted failure"⟩

/-- What becomes of a request that no step is left for. -/
def outOfSteps : Outcome :=
  .error ⟨.other, "no enough steps"⟩

/-- A request sent: its step, and whether its outcome has been taken. -/
structure Pending where
  step : Option ScriptStep
  resolved : Bool := false

def Pending.outcome (p : Pending) : Outcome :=
  match p.step with
  | some s => s.outcome
  | none => outOfSteps

structure Scripted where
  script : List ScriptStep := []
  /-- In the order of sending. -/
  requests : List Request := []
  sent : List Pending := []

namespace Scripted

def push (t : Scripted) (step : ScriptStep) : Scripted :=
  { t with script := t.script ++ [step] }

def remaining (t : Scripted) : Nat :=
  t.script.length

def send (t : Scripted) (r : Request) : Scripted :=
  { script := t.script.tail
    requests := t.requests ++ [r]
    sent := t.sent ++ [{ step := t.script.head? }] }

/-- The outcome of the request number `n`, which can be taken once. -/
def resolve (t : Scripted) (n : Nat) : Option Outcome × Scripted :=
  match t.sent[n]? with
  | some p =>
    if p.resolved then (none, t)
    else (some p.outcome, { t with sent := t.sent.set n { p with resolved := true } })
  | none => (none, t)

/-- What is done to a transport through any of its handles: they share one script and one list of
requests. -/
inductive Move where
  | push (step : ScriptStep)
  | send (r : Request)
  | resolve (n : Nat)
  /-- Gives one more handle to the same transport. -/
  | clone

def move (t : Scripted) : Move → Scripted
  | .push step => t.push step
  | .send r => t.send r
  | .resolve n => (t.resolve n).2
  | .clone => t

def play (t : Scripted) (moves : List Move) : Scripted :=
  moves.foldl move t

end Scripted

end Parley.Transport
