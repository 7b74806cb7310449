import Parley.Engine.Journal
import Parley.Tool.Execution
import Parley.Transport.Outcome

/-! What the loop does with a wake, a response and a sweep. Sessions are erased by the sweep alone,
never while their response is handled. -/
namespace Parley.Engine

def append (e : Engine) (m : Message) : Engine :=
  let evicted := e.detail (e.history.evicted.map fun old => .evicted old.role)
  { evicted with history := e.history.append m }.record (.appended m)

/-- The system prompt comes first and stands outside the history. -/
def nextRequest (e : Engine) : Request :=
  { model := e.config.model
    messages := (e.config.systemPrompt.map Message.system).toList ++ e.history.messages
    tools := e.registry.definitions }

def nextTrip (e : Engine) (id promptId : String) : RoundTrip :=
  ⟨e.opened, id, promptId, e.nextRequest⟩

/-- Sends the conversation as it stands. Ids are only keys: a session under the same id is
replaced. -/
def openSession (e : Engine) (id promptId : String) : Engine :=
  let trip := e.nextTrip id promptId
  let sent : Engine :=
    { e with
      opened := e.opened + 1
      inFlight := e.inFlight ++ [trip]
      sessions := e.sessions.insert id promptId }
  let logged := (sent.record (.sent trip)).detail
    [.sending trip.request.messages.length trip.request.tools.length,
      .handingOver e.config.endpoint, .opened (.roundTrip id)]
  logged.report (if (e.sessions.find? id).isSome then [.sessionReplaced] else [])

def receive (e : Engine) (p : Prompt) : Engine :=
  if p.text.isEmpty then e.notice (.emptyPrompt p.id)
  else ((e.detail [.draining p.id]).append (.user p.text)).openSession p.id p.id

/-- Takes one prompt off the inbox. -/
def takePrompt? (e : Engine) : Option (Prompt × Engine) :=
  e.inbox.pop?.map fun (p, rest) => (p, { e with inbox := rest }.record (.taken p))

/-- Wakes the loop again if more prompts wait. -/
def rewake (e : Engine) : Engine :=
  if e.inbox.isEmpty then e else { e with bridge := e.bridge.wake }

/-- Takes one prompt and sends it; the rest of the inbox is left to further wakes. -/
def drain (e : Engine) : Engine :=
  match e.takePrompt? with
  | none => e.detail [.spuriousWake]
  | some (p, e) => e.rewake.receive p

def correlationId (promptId : String) (n : Nat) : String :=
  promptId ++ "#" ++ String.ofList (Decimal.natText n)

def resubmit (e : Engine) (promptId : String) : Engine :=
  let id := correlationId promptId (e.sequence + 1)
  ({ e with sequence := e.sequence + 1 }.detail [.resubmitting id]).openSession id promptId

/-- Runs the tool that is called. There is no message for a call to an unknown tool. -/
def execute (e : Engine) (c : ToolCall) : Option Message × Engine :=
  let run := e.registry.execute c
  let skipped := match run.message with
    | .ok _ => []
    | .error err => [.callSkipped c.id err]
  let called := { e with registry := run.registry }.record (.called c)
  (run.message.toOption, called.report (.opened (.tool c.name c.id) :: run.notices ++ skipped))

/-- Sends the result of a call as soon as it is there. -/
def feedBack (e : Engine) (promptId : String) (m : Message) : Engine :=
  (e.append m).resubmit promptId

/-- A call to an unknown tool is skipped. -/
def resolveCall (promptId : String) (e : Engine) (c : ToolCall) : Engine :=
  match e.execute c with
  | (some m, called) => called.feedBack promptId m
  | (none, called) => called

def publish (e : Engine) (t : RoundTrip) (r : Response) : Engine :=
  let a : Answer := ⟨0, "OK", t.id, t.promptId, r⟩
  { e.notice .publishing with outbox := e.outbox.push a }.record (.published a)

/-- The choices that are passed over. -/
def passedOver (r : Response) : List Notice :=
  if 1 < r.choices.length then [.otherChoices (r.choices.length - 1)] else []

/-- A response is an answer unless its assistant message calls tools. The calls are left to be
resolved. -/
def handleResponse (e : Engine) (t : RoundTrip) (r : Response) : Engine × List ToolCall :=
  if r.choices.isEmpty then (e.notice .noChoices, [])
  else
    match r.assistantMessage? with
    | none => (e.notice (.noAssistant r.choices.length), [])
    | some m =>
      let appended := (e.detail (passedOver r)).append m
      if m.hasToolCalls then (appended.detail [.resolving m.toolCalls.length], m.toolCalls)
      else (appended.publish t r, [])

/-- What is logged of a result before it is looked into. -/
def arrival (t : RoundTrip) : Except Error Response → List Notice
  | .ok r =>
    [.decoded r.choices.length, .opened (.remoteResponse t.id t.promptId)] ++
      (r.usage.map .usage).toList
  | .error _ => [.opened (.remoteResponse t.id t.promptId)]

def arrive (e : Engine) (t : RoundTrip) (result : Except Error Response) : Engine :=
  (e.record (.received t result)).detail (arrival t result)

/-- Takes in the result of a round trip, but for the calls it asks for. -/
def accept (e : Engine) (t : RoundTrip) (result : Except Error Response) :
    Engine × List ToolCall :=
  let received := e.arrive t result
  match result with
  | .ok r => received.handleResponse t r
  | .error err => (received.notice (.roundTripFailed err), [])

/-- Leaves the session of a round trip to the next sweep. -/
def finish (e : Engine) (t : RoundTrip) : Engine :=
  { e with removals := e.removals.push t.id }.record (.handled t)

/-- Handles the result of a round trip from beginning to end. -/
def complete (e : Engine) (t : RoundTrip) (result : Except Error Response) : Engine :=
  let (accepted, calls) := e.accept t result
  (calls.foldl (resolveCall t.promptId) accepted).finish t

/-- Whether the round trip last sent under the id has come back. -/
def isFinished (e : Engine) (id : String) : Bool :=
  match e.sent.reverse.find? fun t => t.id = id with
  | some t => !e.inFlight.any fun u => u.number = t.number
  | none => true

/-- What is logged of the sessions that a sweep retires. An id is given to it once for each response
that was handled, but has one session at most. -/
def retirements (e : Engine) : List Notice :=
  e.removals.toList.eraseDups.filterMap fun id =>
    (e.sessions.find? id).map fun promptId => .retired (e.isFinished id) id promptId

/-- Retires the sessions whose responses were handled. -/
def sweep (e : Engine) : Engine :=
  let (ids, rest) := e.removals.drain
  let kept := e.sessions.filter fun s => !ids.contains s.1
  ({ e with sessions := kept, removals := rest }.record (.swept ids)).detail e.retirements

end Parley.Engine
