import Parley.Engine.Run

/-! The engine among threads. Callers act on it at any time, and the loop goes on one atomic step at
a time. -/
namespace Parley

/-- What the loop is in the middle of. -/
inductive Work where
  | idle
  /-- The wake is taken. -/
  | woken
  /-- A prompt is off the inbox; what is left of the inbox has not been looked at. -/
  | taken (p : Prompt)
  /-- More prompts were seen, and the loop has to be woken again. -/
  | rewaking (p : Prompt)
  | receiving (p : Prompt)
  /-- Some calls of a response are left. -/
  | resolving (t : RoundTrip) (calls : List ToolCall)
  /-- A tool has answered the call before those that are left. -/
  | answering (t : RoundTrip) (m : Message) (calls : List ToolCall)

instance (w : Work) : Decidable (w = .idle) :=
  match w with
  | .idle => isTrue rfl
  | .woken | .taken _ | .rewaking _ | .receiving _ | .resolving _ _ | .answering _ _ _ =>
    isFalse nofun

/-- From taking the wake to the end of the look at what is left of the inbox. -/
def Work.isDraining : Work → Bool
  | .woken | .taken _ | .rewaking _ => true
  | _ => false

/-- An engine, and where the threads that use it stand. -/
structure Threads where
  engine : Engine
  /-- The number of submissions between their push and their wake. -/
  submitting : Nat := 0
  /-- The loop is launched, and its first wake is still to come. -/
  starting : Bool := false
  work : Work := .idle

namespace Threads

def new (config : Config) : Threads :=
  { engine := .new config }

/-- An atomic step of some thread. -/
inductive Action where
  | launch
  | firstWake
  | push (id text : String)
  | wake
  /-- A caller takes the next answer, at once or after a wait for it. -/
  | poll
  | register (name : String) (definition : ToolDefinition) (tool : Tool)
  | shutdown
  /-- The idle loop takes a stored wake. One that reached a future it waits on counts as stored. -/
  | takeWake
  /-- The idle loop begins to handle the outcome of a round trip. -/
  | deliver (n : Nat) (outcome : Transport.Outcome)
  /-- The idle loop retires sessions. -/
  | sweep
  /-- The loop goes on with what it is in the middle of. -/
  | advance

/-- The next step of what the loop is in the middle of. -/
def advance (s : Threads) : Threads :=
  match s.work with
  | .idle => s
  | .woken =>
    match s.engine.takePrompt? with
    | some (p, engine) => { s with engine, work := .taken p }
    | none => { s with engine := s.engine.detail [.spuriousWake], work := .idle }
  | .taken p => { s with work := if s.engine.inbox.isEmpty then .receiving p else .rewaking p }
  | .rewaking p => { s with engine := s.engine.wake, work := .receiving p }
  | .receiving p => { s with engine := s.engine.receive p, work := .idle }
  | .resolving t [] => { s with engine := s.engine.finish t, work := .idle }
  | .resolving t (c :: calls) =>
    match s.engine.execute c with
    | (some m, engine) => { s with engine, work := .answering t m calls }
    | (none, engine) => { s with engine, work := .resolving t calls }
  | .answering t m calls =>
    { s with engine := s.engine.feedBack t.promptId m, work := .resolving t calls }

def deliver (s : Threads) (n : Nat) (outcome : Transport.Outcome) : Threads :=
  match s.engine.land? n with
  | none => s
  | some (t, landed) =>
    if s.engine.isRunning then
      let (engine, calls) := landed.accept t (Transport.classify outcome)
      { s with engine, work := .resolving t calls }
    else { s with engine := landed }

/-- What only an idle loop does. -/
def whenIdle (s : Threads) (next : Threads) : Threads :=
  match s.work with
  | .idle => next
  | _ => s

theorem whenIdle_of_idle {s : Threads} (idle : s.work = .idle) (next : Threads) :
    s.whenIdle next = next := by
  simp only [whenIdle, idle]

theorem whenIdle_of_busy {s : Threads} (busy : s.work ≠ .idle) (next : Threads) :
    s.whenIdle next = s := by
  unfold whenIdle
  split
  · contradiction
  · rfl

/-- An action that is not possible changes nothing. -/
def step (s : Threads) : Action → Threads
  | .launch =>
    match s.engine.phase with
    | .fresh => { s with engine := s.engine.launch, starting := true }
    | .running | .stopped => s
  | .firstWake =>
    if s.starting then { s with engine := s.engine.wake, starting := false } else s
  | .push id text =>
    { s with
      engine := s.engine.push (s.engine.prompt id text)
      submitting := s.submitting + 1 }
  | .wake =>
    if 0 < s.submitting then
      { s with engine := s.engine.wake, submitting := s.submitting - 1 }
    else s
  | .poll => { s with engine := s.engine.poll.2 }
  | .register name definition tool =>
    { s with engine := (s.engine.register name definition tool).2 }
  | .shutdown => s.whenIdle { s with engine := s.engine.shutdown }
  | .takeWake =>
    s.whenIdle <|
      if s.engine.isRunning then
        match s.engine.takeWake? with
        | some engine => { s with engine, work := .woken }
        | none => s
      else s
  | .deliver n outcome => s.whenIdle (s.deliver n outcome)
  | .sweep => s.whenIdle (if s.engine.isRunning then { s with engine := s.engine.sweep } else s)
  | .advance => s.advance

def run (s : Threads) (actions : List Action) : Threads :=
  actions.foldl step s

end Threads

end Parley
