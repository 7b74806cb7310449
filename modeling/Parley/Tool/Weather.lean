import Parley.Chat.ToolDefinition
import Parley.Tool.Basic

/-! A demonstration tool: the same temperature everywhere. -/
namespace Parley.Weather

def name : String :=
  "get_current_weather"

def definition : ToolDefinition :=
  ({ name, description := "Get the current weather in a given location" } : ToolDefinition)
    |>.withParameter "location" "string" "The city and state, e.g. San Francisco, CA" true
    |>.withParameter "unit" "string"
        "The unit of temperature, either 'celsius' or 'fahrenheit'" true

def answer (arguments : Arguments) : ToolOutcome :=
  match (arguments.find? "location").bind Value.asText? with
  | none => ⟨.failure "Invalid or missing 'location' parameter", []⟩
  | some location =>
    match (arguments.find? "unit").bind Value.asText? with
    | none => ⟨.failure "Invalid or missing 'unit' parameter", []⟩
    | some unit =>
      ⟨.success (.text (location ++ " weather is 25 degrees " ++ unit)),
        [(.info, "returning dummy weather data for " ++ location)]⟩

def tool : Tool :=
  fun _ call => answer call.arguments

end Parley.Weather
