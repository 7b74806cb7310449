import Parley.Engine.Threads

/-! The interface of the engine among threads. A call is made from a thread other than the loop's, on
any handle, and is its steps with nothing between them; the loop goes on between calls. -/
namespace Parley

inductive Call where
  | start
  | submit (id text : String)
  | poll
  | register (name : String) (definition : ToolDefinition) (tool : Tool)
  | pending
  | isRunning
  | history
  /-- Gives one more handle to the same engine. -/
  | clone
  | shutdown

@[reducible] def Call.Result : Call → Type
  | .start => Except Error Unit
  | .poll => Option Answer
  | .register _ _ _ => Bool
  | .pending => Except Error (List String)
  | .isRunning => Bool
  | .history => List Message
  | .submit _ _ | .clone | .shutdown => Unit

/-- How many steps at most the loop is from being idle. -/
def Work.left : Work → Nat
  | .idle => 0
  | .woken => 4
  | .taken _ => 3
  | .rewaking _ => 2
  | .receiving _ => 1
  | .resolving _ calls => 2 * calls.length + 1
  | .answering _ _ calls => 2 * calls.length + 2

namespace Threads

/-- What a call gives back. A loop that is in the middle of something does not get to a query. -/
def reply (s : Threads) : (c : Call) → c.Result
  | .start => s.engine.start.1
  | .poll => s.engine.poll.1
  | .register name definition tool => (s.engine.register name definition tool).1
  | .pending =>
    match s.work with
    | .idle => s.engine.pending
    | _ => .error .busy
  | .isRunning => s.engine.isRunning
  | .history => s.engine.history.messages
  | .submit _ _ | .clone | .shutdown => ()

/-- The answer that an action gives to its caller, if it is a poll and there is one. -/
def answersAt (s : Threads) : Action → List Answer
  | .poll => (s.reply .poll).toList
  | _ => []

/-- The answers that callers are given in the course of the actions, in order. -/
def given : Threads → List Action → List Answer
  | _, [] => []
  | s, a :: actions => s.answersAt a ++ (s.step a).given actions

/-- The steps of a call. A shutdown waits until the loop is idle. -/
def callSteps (s : Threads) : Call → List Action
  | .start =>
    match s.engine.phase with
    | .fresh => [.launch, .firstWake]
    | .running | .stopped => []
  | .submit id text => [.push id text, .wake]
  | .poll => [.poll]
  | .register name definition tool => [.register name definition tool]
  | .shutdown => List.replicate s.work.left .advance ++ [.shutdown]
  | .pending | .isRunning | .history | .clone => []

/-- A call, or a step of the loop. -/
inductive Move where
  | call (c : Call)
  | takeWake
  | deliver (n : Nat) (outcome : Transport.Outcome)
  | sweep
  | advance

def moveSteps (s : Threads) : Move → List Action
  | .call c => s.callSteps c
  | .takeWake => [.takeWake]
  | .deliver n outcome => [.deliver n outcome]
  | .sweep => [.sweep]
  | .advance => [.advance]

def move (s : Threads) (m : Move) : Threads :=
  s.run (s.moveSteps m)

def play (s : Threads) (moves : List Move) : Threads :=
  moves.foldl move s

/-- The answers that callers are given, in order. -/
def handedOut : Threads → List Move → List Answer
  | _, [] => []
  | s, .call .poll :: moves => (s.reply .poll).toList ++ (s.move (.call .poll)).handedOut moves
  | s, m :: moves => (s.move m).handedOut moves

end Threads

end Parley
