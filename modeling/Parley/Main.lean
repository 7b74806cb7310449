import Parley.Console.Session

/-! The program. It has no network of its own, so every request is refused. -/

open Parley

/-- Prints what the session has added to its output. -/
def showNew (before after : Console.Session) : IO Unit := do
  let out ← IO.getStdout
  out.putStr (String.ofList (after.output.toList.drop before.output.length))
  out.flush

/-- The next line of the input; none at its end, or where it is not text. -/
def nextLine : IO (Option Bytes) := do
  try
    let line ← (← IO.getStdin).getLine
    pure (if line.isEmpty then none else some (Utf8.ofString line))
  catch _ => pure none

partial def converse (s : Console.Session) : IO Unit := do
  if !s.ended then
    let after := s.turn (← nextLine) Http.offline
    showNew s after
    converse after

def main : IO UInt32 := do
  let names := ["LLM_API_KEY", "LLM_URL", "LLM_MODEL", "LLM_SYSTEM_PROMPT", "LLM_PROMPT_SUFFIX"]
  let values ← names.mapM fun name => do pure (name, ← IO.getEnv name)
  match Console.settings? fun name => (values.lookup name).join with
  | none =>
    (← IO.getStderr).putStr Console.missingKey
    pure 1
  | some settings =>
    let s := Console.Session.start settings .bare
    showNew { s with output := "" } s
    converse s
    pure 0
