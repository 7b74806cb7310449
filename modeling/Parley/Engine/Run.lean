import Parley.Engine.Lifecycle

/-! Runs of the engine: the callers' actions and the turns of the loop, in any order. -/
namespace Parley.Engine

inductive Event where
  | start
  | submit (id text : String)
  /-- The loop takes a stored wake. -/
  | turn
  | deliver (n : Nat) (outcome : Transport.Outcome)
  | sweep
  | poll
  | register (name : String) (definition : ToolDefinition) (tool : Tool)
  | shutdown

def takeWake? (e : Engine) : Option Engine :=
  let (woken, bridge) := e.bridge.poll
  if woken then some { e with bridge } else none

/-- One turn of a running loop: it takes the wake, if there is one, and drains a prompt. -/
def turn (e : Engine) : Engine :=
  if e.isRunning then
    match e.takeWake? with
    | some woken => woken.drain
    | none => e
  else e

def step (e : Engine) : Event → Engine
  | .start => e.start.2
  | .submit id text => e.submit id text
  | .turn => e.turn
  | .deliver n outcome => (e.deliver n outcome).2
  | .sweep => if e.isRunning then e.sweep else e
  | .poll => e.poll.2
  | .register name definition tool => (e.register name definition tool).2
  | .shutdown => e.shutdown

def run (e : Engine) (events : List Event) : Engine :=
  events.foldl step e

/-- Turns until no prompt is left: each takes one, and the last finds the inbox empty. -/
def settle (e : Engine) : Engine :=
  (List.range (e.inbox.size + 1)).foldl (fun e _ => e.turn) e

end Parley.Engine
