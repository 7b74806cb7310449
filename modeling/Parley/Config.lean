import Parley.Text.Duration
import Parley.Text.Quoted

/-! The configuration of the engine. -/
namespace Parley

/-- What has been set; the rest takes its default. -/
structure Settings where
  apiKey : String
  model : Option String := none
  endpoint : Option String := none
  historyCapacity : Option Nat := none
  sweepInterval : Option Duration := none
  systemPrompt : Option String := none
  promptSuffix : Option String := none

structure Config where
  apiKey : String
  model : String
  endpoint : String
  historyCapacity : Nat
  sweepInterval : Duration
  systemPrompt : Option String
  promptSuffix : Option String

/-- Stands for the key wherever a configuration is shown. -/
def redacted : String :=
  Text.quote "<redacted>"

namespace Settings

def toConfig (s : Settings) : Config :=
  { apiKey := s.apiKey
    model := s.model.getD "qwen-plus"
    endpoint := s.endpoint.getD "https://dashscope.aliyuncs.com/compatible-mode/v1/chat/completions"
    historyCapacity := max (s.historyCapacity.getD 100) 1
    sweepInterval := s.sweepInterval.getD (Duration.ofMilliseconds 200)
    systemPrompt := s.systemPrompt
    promptSuffix := s.promptSuffix }

def describe (s : Settings) : String :=
  Text.record "ConfigBuilder"
    [("api_key", redacted),
      ("model", Text.optional (s.model.map Text.quote)),
      ("endpoint", Text.optional (s.endpoint.map Text.quote)),
      ("history_capacity", Text.optional (s.historyCapacity.map toString)),
      ("sweep_interval", Text.optional (s.sweepInterval.map Duration.text)),
      ("system_prompt", Text.optional (s.systemPrompt.map Text.quote)),
      ("prompt_suffix", Text.optional (s.promptSuffix.map Text.quote))]

end Settings

def Config.describe (c : Config) : String :=
  Text.record "Config"
    [("api_key", redacted),
      ("model", Text.quote c.model),
      ("endpoint", Text.quote c.endpoint),
      ("history_capacity", toString c.historyCapacity),
      ("sweep_interval", c.sweepInterval.text),
      ("system_prompt", Text.optional (c.systemPrompt.map Text.quote)),
      ("prompt_suffix", Text.optional (c.promptSuffix.map Text.quote))]

end Parley
