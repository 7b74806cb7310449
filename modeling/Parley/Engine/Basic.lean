import Parley.Bridge
import Parley.Chat.Request
import Parley.Chat.Response
import Parley.Config
import Parley.History
import Parley.Queue
import Parley.Tool.Registry
import Parley.Transport.Basic

/-! The engine: prompts wait in an inbox, answers in an outbox, and between them one loop keeps the
conversation, the sessions and the tools. -/
namespace Parley

structure Prompt where
  id : String
  text : String
  deriving DecidableEq, Repr

/-- A response without tool calls, for the caller. -/
structure Answer where
  status : Int
  error : String
  /-- The round trip it came from. -/
  id : String
  promptId : String
  response : Response
  deriving DecidableEq, Repr

/-- A request under way. Round trips are numbered from zero in the order of sending. -/
structure RoundTrip where
  number : Nat
  id : String
  promptId : String
  request : Request

def RoundTrip.toTransport (t : RoundTrip) (c : Config) : Transport.Request :=
  { endpoint := c.endpoint
    headers :=
      [("Content-Type", Transport.jsonContentType), ("Authorization", "Bearer " ++ c.apiKey)]
    body := Utf8.ofString t.request.payload }

/-- Something that happened, as the journal keeps it. -/
inductive Entry where
  | submitted (p : Prompt)
  | taken (p : Prompt)
  | appended (m : Message)
  | sent (t : RoundTrip)
  /-- The handling of a response begins; it ends with `handled`. -/
  | received (t : RoundTrip) (result : Except Error Response)
  | called (c : ToolCall)
  | published (a : Answer)
  | handled (t : RoundTrip)
  | polled (a : Answer)
  /-- The sessions a sweep was given to retire. -/
  | swept (ids : List String)
  | noticed (n : Notice)

inductive Phase where
  | fresh
  | running
  | stopped
  deriving DecidableEq, Repr

structure Engine where
  config : Config
  registry : Registry
  phase : Phase
  inbox : Queue Prompt
  outbox : Queue Answer
  bridge : Bridge
  history : History
  /-- Prompt ids by the ids of the sessions that are not retired yet. -/
  sessions : Dict String
  /-- The sessions that the next sweep retires. -/
  removals : Queue String
  /-- The number of tool resubmissions so far. -/
  sequence : Nat
  /-- The number of requests sent so far. -/
  opened : Nat
  inFlight : List RoundTrip
  /-- Latest first. -/
  journal : List Entry
  /-- Everything that was logged, latest first. -/
  logged : List Notice

namespace Engine

def new (config : Config) : Engine :=
  { config
    registry := .empty
    phase := .fresh
    inbox := .empty
    outbox := .empty
    bridge := {}
    history := .withCapacity config.historyCapacity
    sessions := []
    removals := .empty
    sequence := 0
    opened := 0
    inFlight := []
    journal := []
    logged := [.building config.describe] }

@[simp] def record (e : Engine) (x : Entry) : Engine :=
  { e with journal := x :: e.journal }

/-- Logs what nothing but the log tells of. -/
@[simp] def detail (e : Engine) (details : List Notice) : Engine :=
  { e with logged := details.reverse ++ e.logged }

@[simp] def notice (e : Engine) (n : Notice) : Engine :=
  { e with journal := .noticed n :: e.journal, logged := n :: e.logged }

/-- Logs what there is to report. The journal takes no notice of details. -/
@[simp] def report (e : Engine) (notices : List Notice) : Engine :=
  { e with
    journal := ((notices.filter fun n => !n.isDetail).map .noticed).reverse ++ e.journal
    logged := notices.reverse ++ e.logged }

def isRunning (e : Engine) : Bool :=
  e.phase = .running

end Engine

end Parley
