import Parley.Console.Style
import Parley.Engine.Run
import Parley.Http.Exchange
import Parley.Tool.Builtin

/-! A session at the terminal: lines are prompts, answers are printed as they come, and the session
ends with the input, with a word of leave, or when the model says goodbye. -/
namespace Parley.Console

abbrev Environment := String → Option String

/-- Unset, the default is used; empty, there is none. -/
def suffix (value : Option String) : Option String :=
  match value with
  | none => some ", response without markdown and without Emoji"
  | some s => if s.isEmpty then none else some s

/-- A session needs a key. -/
def settings? (env : Environment) : Option Settings :=
  (env "LLM_API_KEY").map fun apiKey =>
    { apiKey
      endpoint := env "LLM_URL"
      model := env "LLM_MODEL"
      systemPrompt := env "LLM_SYSTEM_PROMPT"
      promptSuffix := suffix (env "LLM_PROMPT_SUFFIX") }

def missingKey : String :=
  "LLM_API_KEY environment variable is not set\n"

def httpConfig : Http.Config :=
  { timeout := some (Duration.ofMilliseconds 120000) }

inductive Command where
  | skip
  | leave
  | ask (text : String)

def Command.ofLine (line : String) : Command :=
  let text := Text.trim line
  if text.isEmpty then .skip
  else if text = "quit" ∨ text = "exit" then .leave
  else .ask text

/-- Whether one text occurs in another. -/
def occurs (part : List Char) : List Char → Bool
  | [] => part.isEmpty
  | c :: cs => part.isPrefixOf (c :: cs) || occurs part cs

def isFarewell (content : String) : Bool :=
  occurs "bye".toList content.toList || occurs "Bye".toList content.toList

structure Session where
  engine : Engine
  nextId : Nat := 0
  output : String
  ended : Bool := false
  received : List Http.Received := []

namespace Session

def start (settings : Settings) (w : Workshop) : Session :=
  let engine := (Engine.new settings.toConfig).withBuiltinTools w
  { engine := engine.start.2.settle
    output := String.join (engine.registry.definitions.map toolLine) ++ promptMark }

def print (s : Session) (text : String) : Session :=
  { s with output := s.output ++ text }

def finish (s : Session) : Session :=
  { s with engine := s.engine.shutdown, ended := true }

/-- Takes one line, or the end of the input. A line that is not text ends the input. -/
def read (s : Session) (line : Option Bytes) : Session :=
  if s.ended then s
  else
    match line.bind Utf8.decode? with
    | none => s.finish
    | some cs =>
      match Command.ofLine (String.ofList cs) with
      | .skip => s.print promptMark
      | .leave => s.finish
      | .ask text =>
        let id := "session_" ++ String.ofList (Decimal.natText s.nextId)
        { s with engine := (s.engine.submit id text).settle, nextId := s.nextId + 1 }.print
          promptMark

/-- Prints the answers that are ready, up to a farewell. -/
def collect (s : Session) : Nat → Session
  | 0 => s
  | fuel + 1 =>
    if s.ended then s
    else
      match s.engine.poll with
      | (none, _) => s
      | (some a, engine) =>
        let s := { s with engine }.print (answerText a.response.content)
        if isFarewell a.response.content then s.finish else s.collect fuel

/-- Carries out one round trip. -/
def carry (s : Session) (network : List Http.Connection) (t : RoundTrip) :
    Session × List Http.Connection :=
  if s.ended then (s, network)
  else
    let x := Http.exchange httpConfig (t.toTransport s.engine.config) network
    let engine := ((s.engine.deliver t.number x.outcome).2.settle).step .sweep
    let s := { s with engine, received := s.received ++ x.received }
    (s.collect (engine.outbox.size + 1), x.network)

/-- Carries out the round trips under way, and those that they lead to. Only a connection that is
answered leads to more, so as many rounds as connections are enough. -/
def serve (s : Session) (network : List Http.Connection) : Nat → Session
  | 0 => s
  | rounds + 1 =>
    let (s, rest) := s.engine.inFlight.foldl (fun (s, network) t => carry s network t) (s, network)
    if s.engine.inFlight.isEmpty then s else s.serve rest rounds

def turn (s : Session) (line : Option Bytes) (network : List Http.Connection) : Session :=
  (s.read line).serve network (network.length + 1)

end Session

/-- The lines of an input, each with its line feed if it has one. -/
def lines : Bytes → List Bytes
  | [] => []
  | b :: rest =>
    if b = 10 then [b] :: lines rest
    else
      match lines rest with
      | [] => [[b]]
      | l :: ls => (b :: l) :: ls

structure Transcript where
  exitCode : Nat
  stdout : String
  stderr : String := ""
  received : List Http.Received := []

/-- A whole session: its lines, each with the connections that its requests meet. -/
def run (env : Environment) (w : Workshop) (input : List (Bytes × List Http.Connection)) :
    Transcript :=
  match settings? env with
  | none => { exitCode := 1, stdout := "", stderr := missingKey }
  | some settings =>
    let s := input.foldl (fun s (line, network) => s.turn (some line) network)
      (Session.start settings w)
    let s := s.turn none []
    { exitCode := 0, stdout := s.output, received := s.received }

end Parley.Console
