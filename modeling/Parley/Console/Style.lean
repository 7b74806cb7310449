import Parley.Chat.ToolDefinition

/-! What the console prints, with the colours of a terminal. -/
namespace Parley.Console

def colored (code : String) (s : String) : String :=
  "\x1b[" ++ code ++ "m" ++ s ++ "\x1b[39m"

def brightYellow : String → String :=
  colored "93"

def brightCyan : String → String :=
  colored "96"

def brightWhite : String → String :=
  colored "97"

def bold (s : String) : String :=
  "\x1b[1m" ++ s ++ "\x1b[0m"

def bar : String :=
  "▎"

def toolLine (d : ToolDefinition) : String :=
  brightYellow bar ++ "🔧 " ++ bold (brightWhite d.name) ++ ": " ++ d.description ++ "\n"

def promptMark : String :=
  "> "

def answerText (content : String) : String :=
  "\n" ++ brightCyan bar ++ "🤖 " ++ brightWhite content ++ "\n" ++ promptMark

end Parley.Console
