import Parley.Engine.Loop

/-! What callers do with the engine, from any thread and at any time. -/
namespace Parley.Engine

def wake (e : Engine) : Engine :=
  { e with bridge := e.bridge.wake }

/-- The name of the loop's thread. -/
def loopLabel : String :=
  "aiagent-event-loop"

/-- Brings up the loop. -/
def launch (e : Engine) : Engine :=
  { (e.detail [.opened (.eventLoop loopLabel), .loopEntered]).notice .loopStarted with
    phase := .running }

/-- An engine can be started once. Prompts may be waiting, so the loop is woken. -/
def start (e : Engine) : Except Error Unit × Engine :=
  match e.phase with
  | .fresh => (.ok (), e.launch.wake)
  | .running | .stopped => (.error .alreadyStarted, e)

/-- The text of a prompt carries the configured suffix. -/
def prompt (e : Engine) (id text : String) : Prompt :=
  ⟨id, text ++ e.config.promptSuffix.getD ""⟩

def push (e : Engine) (p : Prompt) : Engine :=
  ({ e with inbox := e.inbox.push p }.record (.submitted p)).detail [.queued p.id]

def submit (e : Engine) (id text : String) : Engine :=
  (e.push (e.prompt id text)).wake

/-- Hands out the oldest answer, which may have been published before the loop stopped. -/
def poll (e : Engine) : Option Answer × Engine :=
  match e.outbox.pop? with
  | some (a, rest) => (some a, { e with outbox := rest }.record (.polled a))
  | none => (none, e)

def register (e : Engine) (name : String) (definition : ToolDefinition) (tool : Tool) :
    Bool × Engine :=
  let registered := e.registry.register name definition tool
  (registered.1, { e with registry := registered.2.2 }.report registered.2.1)

def pending (e : Engine) : Except Error (List String) :=
  if e.isRunning then .ok (e.sessions.map (·.1)) else .error .notRunning

/-- Ends the loop. -/
def stop (e : Engine) : Engine :=
  { (e.notice .loopStopping).detail [.loopKilled, .loopLeft] with phase := .stopped }

/-- Abandons the round trips under way. -/
def shutdown (e : Engine) : Engine :=
  if e.isRunning then e.stop else e

/-- What became of a response handed to the engine. -/
inductive Delivery where
  | handled (id : String)
  | abandoned
  | noSuchRequest
  deriving DecidableEq, Repr

/-- The round trip number `n` is not in flight any more. -/
def landed (e : Engine) (n : Nat) : Engine :=
  { e with inFlight := e.inFlight.filter fun t => t.number ≠ n }

def land? (e : Engine) (n : Nat) : Option (RoundTrip × Engine) :=
  (e.inFlight.find? fun t => t.number = n).map fun t => (t, e.landed n)

/-- Delivers the outcome of the round trip number `n`. Each has one outcome; a loop that is gone
takes no notice of it. -/
def deliver (e : Engine) (n : Nat) (outcome : Transport.Outcome) : Delivery × Engine :=
  match e.land? n with
  | none => (.noSuchRequest, e)
  | some (t, landed) =>
    if e.isRunning then (.handled t.id, landed.complete t (Transport.classify outcome))
    else (.abandoned, landed)

end Parley.Engine
