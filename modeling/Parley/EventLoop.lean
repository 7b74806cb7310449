import Parley.Queue

/-! An event loop with a name of its own that takes items off a queue, until it has handled as many
as it is meant to or is killed. -/
namespace Parley

structure EventLoop (α β : Type) where
  label : String
  handle : String → α → β
  stopAfter : Option Nat
  queue : Queue α := .empty
  produced : List β := []
  killed : Bool := false

namespace EventLoop

variable {α β : Type}

def isFinished (l : EventLoop α β) : Bool :=
  l.killed || match l.stopAfter with
    | some n => n ≤ l.produced.length
    | none => false

def push (l : EventLoop α β) (a : α) : EventLoop α β :=
  { l with queue := l.queue.push a }

/-- Handles the next item. -/
def step (l : EventLoop α β) : EventLoop α β :=
  if l.isFinished then l
  else
    match l.queue.pop? with
    | some (a, rest) => { l with queue := rest, produced := l.produced ++ [l.handle l.label a] }
    | none => l

/-- Handles all it can. -/
def run (l : EventLoop α β) : EventLoop α β :=
  (List.range l.queue.size).foldl (fun l _ => l.step) l

def kill (l : EventLoop α β) : EventLoop α β :=
  { l with killed := true }

end EventLoop

end Parley
