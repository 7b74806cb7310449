import Parley.Chat.Response
import Parley.Error

/-! What the engine writes to its log while it runs. -/
namespace Parley

inductive Level where
  | trace
  | debug
  | info
  | warn
  | error
  deriving DecidableEq, Repr

def Level.name : Level → String
  | .trace => "TRACE"
  | .debug => "DEBUG"
  | .info => "INFO"
  | .warn => "WARN"
  | .error => "ERROR"

def Level.isDetail : Level → Bool
  | .trace | .debug => true
  | .info | .warn | .error => false

/-- Work that takes a while. What is logged in the course of it is logged with its name and fields. -/
inductive Span where
  | eventLoop (label : String)
  | roundTrip (id : String)
  | remoteResponse (id promptId : String)
  | tool (name callId : String)
  deriving DecidableEq, Repr

namespace Span

def level : Span → Level
  | .eventLoop _ => .trace
  | .roundTrip _ | .remoteResponse _ _ | .tool _ _ => .debug

def name : Span → String
  | .eventLoop _ => "event loop"
  | .roundTrip _ => "round trip"
  | .remoteResponse _ _ => "remote response"
  | .tool _ _ => "tool"

def fields : Span → List (String × String)
  | .eventLoop label => [("label", label)]
  | .roundTrip id => [("id", id)]
  | .remoteResponse id promptId => [("id", id), ("prompt", promptId)]
  | .tool name callId => [("name", name), ("id", callId)]

end Span

/-- All that the engine logs, at every level, from the time it is built. Left out is what comes of
events that are not modelled: a loop that cannot be spawned or panics, and the last handle being
dropped. A response never finds the loop gone, since the round trips end with it. What the transport
logs is its own affair. -/
inductive Notice where
  | building (config : String)
  /-- A span is told where it begins. -/
  | opened (span : Span)
  | loopStarted
  | loopEntered
  | loopStopping
  | loopKilled
  | loopLeft
  | queued (id : String)
  | spuriousWake
  | draining (id : String)
  | emptyPrompt (id : String)
  | evicted (role : Role)
  | sending (messages tools : Nat)
  | handingOver (endpoint : String)
  | sessionReplaced
  | decoded (choices : Nat)
  | usage (u : Usage)
  | roundTripFailed (e : Error)
  | noChoices
  | noAssistant (choices : Nat)
  | otherChoices (count : Nat)
  | publishing
  | resolving (calls : Nat)
  | badArguments (e : Error)
  | invoking (arguments : String)
  | toolFailed (e : Error)
  | callSkipped (callId : String) (e : Error)
  | resubmitting (id : String)
  | retired (finished : Bool) (id promptId : String)
  | unnamedTool
  | toolRenamed (given used : String)
  | toolReplaced (name : String)
  | toolAdded (name : String)
  /-- Reported by a tool itself. -/
  | byTool (level : Level) (message : String)
  deriving DecidableEq, Repr

namespace Notice

def level : Notice → Level
  | .opened span => span.level
  | .queued _ | .spuriousWake | .evicted _ | .handingOver _ | .decoded _ | .invoking _
  | .retired _ _ _ => .trace
  | .building _ | .loopEntered | .loopKilled | .loopLeft | .draining _ | .sending _ _ | .usage _
  | .otherChoices _ | .resolving _ | .resubmitting _ | .toolReplaced _ | .toolAdded _ => .debug
  | .loopStarted | .loopStopping | .publishing => .info
  | .emptyPrompt _ | .sessionReplaced | .noAssistant _ | .badArguments _ | .toolFailed _
  | .toolRenamed _ _ => .warn
  | .roundTripFailed _ | .noChoices | .callSkipped _ _ | .unnamedTool => .error
  | .byTool level _ => level

/-- Logged below the level of information. -/
def isDetail (n : Notice) : Bool :=
  n.level.isDetail

@[simp] theorem isDetail_opened (span : Span) : (opened span).isDetail = true := by
  cases span <;> rfl

@[simp] theorem isDetail_invoking (arguments : String) : (invoking arguments).isDetail = true :=
  rfl

@[simp] theorem isDetail_toolReplaced (name : String) : (toolReplaced name).isDetail = true :=
  rfl

@[simp] theorem isDetail_toolAdded (name : String) : (toolAdded name).isDetail = true :=
  rfl

@[simp] theorem isDetail_sessionReplaced : sessionReplaced.isDetail = false :=
  rfl

@[simp] theorem isDetail_badArguments (e : Error) : (badArguments e).isDetail = false :=
  rfl

@[simp] theorem isDetail_toolFailed (e : Error) : (toolFailed e).isDetail = false :=
  rfl

@[simp] theorem isDetail_callSkipped (callId : String) (e : Error) :
    (callSkipped callId e).isDetail = false :=
  rfl

def message : Notice → String
  | .building config => "building orchestrator with " ++ config
  | .opened span => span.name
  | .loopStarted => "event loop started"
  | .loopEntered => "started"
  | .loopStopping => "shutting down the event loop"
  | .loopKilled => "killed"
  | .loopLeft => "will terminate"
  | .queued id => "queued prompt " ++ id
  | .spuriousWake => "spurious wake, the inbox is empty"
  | .draining id => "draining prompt " ++ id
  | .emptyPrompt id => "dropping empty prompt " ++ id
  | .evicted role => "evicted a " ++ role.name ++ " message from history"
  | .sending messages tools =>
    "sending " ++ count messages ++ " messages with " ++ count tools ++ " tools"
  | .handingOver endpoint => "sending a request to " ++ endpoint
  | .sessionReplaced => "replaced a pending session with the same id"
  | .decoded choices => "decoded a response with " ++ count choices ++ " choices"
  | .usage _ => "usage"
  | .roundTripFailed e => "round trip failed: " ++ e.message
  | .noChoices => (⟨.emptyResponse, none⟩ : Error).message
  | .noAssistant choices => "no assistant message among " ++ count choices ++ " choices"
  | .otherChoices others => "ignoring " ++ count others ++ " other choices"
  | .publishing => "publishing answer"
  | .resolving calls => "resolving " ++ count calls ++ " tool calls"
  | .badArguments e => e.message ++ ", invoking with no arguments"
  | .invoking arguments => "invoking with args: " ++ arguments
  | .toolFailed e => e.message
  | .callSkipped callId e => "skipping tool call " ++ callId ++ ": " ++ e.message
  | .resubmitting id => "resubmitting as " ++ id
  | .retired _ id promptId => "retired session " ++ id ++ " of " ++ promptId
  | .unnamedTool => "refusing to register a tool with an empty name"
  | .toolRenamed given used =>
    "tool definition name `" ++ given ++ "` differs from `" ++ used ++ "`, using `" ++ used ++ "`"
  | .toolReplaced name => "replaced tool: " ++ name
  | .toolAdded name => "added tool: " ++ name
  | .byTool _ message => message
where
  count (n : Nat) : String := String.ofList (Decimal.natText n)

/-- The status code, for the failures of a round trip. -/
def status : Notice → Option Int
  | .roundTripFailed e => some e.statusCode
  | .noChoices => some (⟨.emptyResponse, none⟩ : Error).statusCode
  | _ => none

/-- What is logged with the message. -/
def fields : Notice → List (String × String)
  | .opened span => span.fields
  | .usage u =>
    [("prompt_tokens", toString u.promptTokens), ("completion_tokens", toString u.completionTokens),
      ("total_tokens", toString u.totalTokens)]
  | .retired finished _ _ => [("finished", toString finished)]
  | n => (n.status.map fun code => ("status", toString code)).toList

end Notice

end Parley
