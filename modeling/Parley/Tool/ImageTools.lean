import Parley.Chat.ToolDefinition
import Parley.Path
import Parley.Tool.Basic

/-! Tools that filter an image file and write the result next to it. -/
namespace Parley

inductive ImageTool where
  | grayEdges
  | beauty
  | cartoon
  | cyberpunk
  deriving DecidableEq, Repr

/-- Where image tools work: the time, and what comes of filtering one file into another. -/
structure Workshop where
  milliseconds : Nat
  process : ImageTool → String → String → Except String Unit

/-- A workshop without image files. -/
def Workshop.bare : Workshop :=
  { milliseconds := 0
    process := fun _ src _ =>
      if src.toList.contains '\x00' then .error "file name contained an unexpected NUL byte"
      else .error "No such file or directory (os error 2)" }

namespace ImageTool

def all : List ImageTool :=
  [.grayEdges, .beauty, .cartoon, .cyberpunk]

def name : ImageTool → String
  | .grayEdges => "convert_color_img_to_gray_img"
  | .beauty => "apply_beauty_filter"
  | .cartoon => "apply_cartoon_filter"
  | .cyberpunk => "convert_image_to_cyberpunk_style"

def description : ImageTool → String
  | .grayEdges => "Convert a color image to a grayscale image and perform edge detection"
  | .beauty => "Apply a beauty filter to an image to make it more beautiful"
  | .cartoon => "Apply a cartoon filter to an image to make it look like a cartoon"
  | .cyberpunk => "Convert an image to cyberpunk style"

def parameter : String :=
  "src_img"

def definition (t : ImageTool) : ToolDefinition :=
  ({ name := t.name, description := t.description } : ToolDefinition).withParameter
    parameter "string" "The source image file path" true

/-- A failure, reported with more detail than the model is told. -/
def fail (t : ImageTool) (report reason : String) : ToolOutcome :=
  ⟨.failure reason, [(.error, t.name ++ ": " ++ report)]⟩

def answer (w : Workshop) (t : ImageTool) (arguments : Arguments) : ToolOutcome :=
  match arguments.find? parameter with
  | none => t.fail "missing 'src_img' parameter" "Missing 'src_img' parameter"
  | some v =>
    match v.asText? with
    | none => t.fail "invalid 'src_img' parameter type" "Invalid 'src_img' parameter type"
    | some src =>
      match Path.output? src w.milliseconds with
      | none =>
        t.fail ("no parent directory for " ++ src) "Failed to resolve the directory of 'src_img'"
      | some dst =>
        match w.process t src dst with
        | .ok () =>
          ⟨.success (.text dst), [(.info, t.name ++ ": saved " ++ dst)]⟩
        | .error reason =>
          t.fail ("failed to process " ++ src ++ ": " ++ reason) (t.name ++ " failed: " ++ reason)

def tool (w : Workshop) (t : ImageTool) : Tool :=
  fun _ call => t.answer w call.arguments

end ImageTool

end Parley
