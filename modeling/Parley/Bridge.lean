/-! The wake primitive of the loop. At most one wake is stored; while futures wait, a wake goes to
the one that has waited longest instead. -/
namespace Parley

/-- A future kept by its owner. -/
inductive Waiter where
  | waiting
  /-- Woken, and not polled since. -/
  | notified
  | finished
  deriving DecidableEq, Repr

structure Bridge where
  permit : Bool := false
  /-- Oldest first. -/
  waiters : List Waiter := []
  deriving DecidableEq, Repr

namespace Bridge

/-- Notifies the first that waits. -/
def notifyFirst : List Waiter → List Waiter
  | [] => []
  | .waiting :: ws => .notified :: ws
  | w :: ws => w :: notifyFirst ws

def wake (b : Bridge) : Bridge :=
  if b.waiters.contains .waiting then { b with waiters := notifyFirst b.waiters }
  else { b with permit := true }

/-- Polls a fresh future once and drops it; whether it was ready. -/
def poll (b : Bridge) : Bool × Bridge :=
  (b.permit, { b with permit := false })

/-- Polls a fresh future once and keeps it. -/
def wait (b : Bridge) : Bool × Bridge :=
  (b.permit,
    { permit := false
      waiters := b.waiters ++ [if b.permit then .finished else .waiting] })

def polled : Waiter → Waiter
  | .waiting => .waiting
  | .notified | .finished => .finished

/-- Polls the kept futures, oldest first; whether each is ready. -/
def repoll (b : Bridge) : List Bool × Bridge :=
  let ws := b.waiters.map polled
  (ws.map (· = .finished), { b with waiters := ws })

/-- What is done with a bridge through any of its handles, which share it. -/
inductive Move where
  | wake
  | poll
  | wait
  | repoll
  /-- Gives one more handle to the same bridge. -/
  | clone
  deriving DecidableEq, Repr

def move (b : Bridge) : Move → Bridge
  | .wake => b.wake
  | .poll => b.poll.2
  | .wait => b.wait.2
  | .repoll => b.repoll.2
  | .clone => b

def play (b : Bridge) (moves : List Move) : Bridge :=
  moves.foldl move b

end Bridge

end Parley
