import Mathlib.Data.List.DropRight
import Parley.Proofs.Handlings
import Parley.Proofs.Payload

/-! Each request shows the conversation as it stands when it is sent: the system prompt, and the end
of all that was appended. The transport is handed its text. -/
namespace Parley

/-- A window that shows the end of a conversation still does so after the next message. -/
theorem History.append_messages (h : History) (conversation : List Message) (m : Message)
    (window : h.messages = conversation.rtake h.capacity) :
    (h.append m).messages = (conversation ++ [m]).rtake h.capacity := by
  have room := h.capacity_pos
  have length : h.messages.length = conversation.length - (conversation.length - h.capacity) := by
    rw [window, List.rtake, List.length_drop]
  simp only [append, List.rtake, List.length_append, List.length_singleton]
  rw [List.drop_append_of_le_length (by omega), length, window, List.rtake, List.drop_drop]
  congr 2
  omega

namespace RoundTrip

variable (t : RoundTrip)

theorem toTransport_wire {c config : Config} (same : c = config) :
    t.toTransport c =
      { endpoint := config.endpoint
        headers :=
          [("Content-Type", "application/json"), ("Authorization", "Bearer " ++ config.apiKey)]
        body := Utf8.ofString t.request.payload } := by
  rw [same]
  rfl

theorem toTransport_read (c : Config) :
    ∃ j, Json.read (t.toTransport c).body = .ok j ∧ t.request.Shape j := by
  have read := t.request.payload_read
  simpa only [toTransport] using read

end RoundTrip

namespace Threads
open Engine

/-- The history is the end of the conversation. -/
structure Windowed (s : Threads) : Prop where
  capacity : s.engine.history.capacity = max s.engine.config.historyCapacity 1
  window : s.engine.history.messages = s.engine.appended.rtake s.engine.history.capacity
  /-- The system prompt stands outside the conversation. -/
  roles : ∀ m ∈ s.engine.appended, m.role ≠ .system
  drained : ∀ p ∈ s.work.hand, s.engine.taken.getLast? = some p

theorem new_windowed (config : Config) : Windowed (.new config) where
  capacity := rfl
  window := (List.rtake_nil _).symm
  roles m member := by cases member
  drained p member := by cases member

theorem Step.capacity {s s' : Threads} {a : Action} (step : Step s a s') :
    s'.engine.history.capacity = s.engine.history.capacity := by
  cases step <;> simp [History.append]

theorem Step.window {s s' : Threads} {a : Action} (step : Step s a s')
    (h : s.engine.history.messages = s.engine.appended.rtake s.engine.history.capacity) :
    s'.engine.history.messages = s'.engine.appended.rtake s'.engine.history.capacity := by
  rw [step.capacity]
  have next := fun m => History.append_messages s.engine.history s.engine.appended m h
  cases step with
  | sendPrompt p => simpa using next (.user p.text)
  | feedBack t m | answer t outcome r m | batch t outcome r m => simpa using next m
  | _ => simpa using h

theorem Step.roles {s s' : Threads} {a : Action} (step : Step s a s') (handled : Handled s)
    (h : ∀ m ∈ s.engine.appended, m.role ≠ .system) :
    ∀ m ∈ s'.engine.appended, m.role ≠ .system := by
  cases step with
  | sendPrompt p => simpa [or_imp, forall_and, Message.user] using h
  | answer t outcome r m _ _ _ _ found | batch t outcome r m _ _ _ _ found =>
      simpa [or_imp, forall_and, Response.assistantMessage?_role found] using h
  | feedBack t m calls work =>
      have underway := handled.underway
      rw [work] at underway
      simpa [or_imp, forall_and, underway.1] using h
  | _ => simpa using h

theorem Step.drained {s s' : Threads} {a : Action} (step : Step s a s')
    (h : ∀ p ∈ s.work.hand, s.engine.taken.getLast? = some p) :
    ∀ p ∈ s'.work.hand, s'.engine.taken.getLast? = some p := by
  cases step with
  | takePrompt p rest => simp
  | lastPrompt p work | morePrompts p work | rewake p work =>
      rw [work] at h
      simpa using h
  | launch | firstWake | push | wake | poll | register | shutdown | abandon | sweep =>
      simpa using h
  | _ => simp

theorem run_windowed (config : Config) (actions : List Action) :
    Windowed ((new config).run actions) :=
  run_induction (new_windowed config) (fun before _ _ h step =>
    { capacity := by rw [step.capacity, step.config, h.capacity]
      window := step.window h.window
      roles := step.roles (run_handled config before) h.roles
      drained := step.drained h.drained }) actions

/-- What makes the loop send a round trip: a prompt it has taken, or the result of a call. -/
inductive Trigger (s : Threads) (t : RoundTrip) : Message → Prop
  | prompt (p : Prompt) : s.work = .receiving p → s.engine.taken.getLast? = some p →
      t.id = p.id → t.promptId = p.id →
      Trigger s t { role := .user, content := p.text, toolCallId := none, toolCalls := [] }
  | result (u : RoundTrip) (m : Message) (calls : List ToolCall) :
      s.work = .answering u m calls → m.role = .tool → t.promptId = u.promptId → Trigger s t m

/-- The system prompt as the model is told it. -/
def instruction (text : String) : Message :=
  { role := .system, content := text, toolCallId := none, toolCalls := [] }

/-- From `s` to `s'`, the round trip `t` is sent on account of the message `m`. -/
structure Sends (config : Config) (s s' : Threads) (t : RoundTrip) (m : Message) : Prop where
  sent : s'.engine.sent = s.engine.sent ++ [t]
  appended : s'.engine.appended = s.engine.appended ++ [m]
  trigger : Trigger s t m
  request : t.request =
    { model := config.model
      messages := (config.systemPrompt.map instruction).toList ++
        s'.engine.appended.rtake (max config.historyCapacity 1)
      tools := s.engine.registry.definitions }
  last : t.request.messages.getLast? = some m
  wire : t.toTransport s'.engine.config =
    { endpoint := config.endpoint
      headers :=
        [("Content-Type", "application/json"), ("Authorization", "Bearer " ++ config.apiKey)]
      body := Utf8.ofString t.request.payload }
  /-- The body reads as JSON that says just what the request says. -/
  body : ∃ j, Json.read (t.toTransport s'.engine.config).body = .ok j ∧ t.request.Shape j

theorem Windowed.nextRequest {s : Threads} (h : Windowed s) (m : Message) :
    (s.engine.append m).nextRequest =
      { model := s.engine.config.model
        messages := (s.engine.config.systemPrompt.map instruction).toList ++
          (s.engine.appended ++ [m]).rtake (max s.engine.config.historyCapacity 1)
        tools := s.engine.registry.definitions } := by
  rw [← h.capacity, ← History.append_messages _ _ m h.window]
  rfl

theorem nextRequest_last (e : Engine) (m : Message) :
    (e.append m).nextRequest.messages.getLast? = some m := by
  simp [Engine.nextRequest, History.append]

/-- A step sends nothing, or one request that is what it should be. -/
theorem Step.sends {s s' : Threads} {a : Action} (step : Step s a s') (handled : Handled s)
    (h : Windowed s) :
    s'.engine.sent = s.engine.sent ∨ ∃ t m, Sends s.engine.config s s' t m := by
  have config := step.config
  cases step with
  | sendPrompt p work text =>
      refine .inr ⟨(s.engine.append (.user p.text)).nextTrip p.id p.id, .user p.text, ?_⟩
      exact
        { sent := by simp [Engine.nextRequest]
          appended := by simp
          trigger := .prompt p work (h.drained p (by simp [work])) rfl rfl
          request := by simpa using h.nextRequest (.user p.text)
          last := nextRequest_last _ _
          wire := RoundTrip.toTransport_wire _ config
          body := RoundTrip.toTransport_read _ _ }
  | feedBack t m calls work =>
      have underway := handled.underway
      rw [work] at underway
      let id := correlationId t.promptId (s.engine.sequence + 1)
      refine .inr ⟨(s.engine.append m).nextTrip id t.promptId, m, ?_⟩
      exact
        { sent := by simp [id, Engine.nextRequest]
          appended := by simp
          trigger := .result t m calls work underway.1 rfl
          request := by simpa using h.nextRequest m
          last := nextRequest_last _ _
          wire := RoundTrip.toTransport_wire _ config
          body := RoundTrip.toTransport_read _ _ }
  | _ => simp

theorem step_sends (config : Config) (before : List Action) (a : Action) :
    ((new config).run (before ++ [a])).engine.sent = ((new config).run before).engine.sent ∨
      ∃ t m, Sends config ((new config).run before) ((new config).run (before ++ [a])) t m := by
  rw [run_append]
  rcases step_cases ((new config).run before) a with same | step
  · exact .inl (congrArg (fun s => s.engine.sent) same)
  · have sends := step.sends (run_handled config before) (run_windowed config before)
    rwa [run_config] at sends

/-- Each request of a run is sent by some step of it. -/
theorem run_sends (config : Config) {actions : List Action} {earlier later : List RoundTrip}
    {t : RoundTrip} (sent : ((new config).run actions).engine.sent = earlier ++ t :: later) :
    ∃ before a after m, actions = before ++ a :: after ∧
      ((new config).run before).engine.sent = earlier ∧
      Sends config ((new config).run before) ((new config).run (before ++ [a])) t m := by
  obtain ⟨s, a, ⟨before, after, split, rfl⟩, first, grown⟩ := run_sent sent
  refine ⟨before, a, after, ?_⟩
  rw [← run_concat] at grown
  rcases step_sends config before a with same | ⟨u, m, sends⟩
  · exact absurd (grown.symm.trans (same.trans first)) (by simp)
  · obtain rfl : u = t := by
      have last := sends.sent.symm.trans grown
      rw [first] at last
      simpa using last
    exact ⟨m, split, first, sends⟩

/-- Every request is what it should be when it is sent: the configured model and the tools that are
registered, the system prompt, and the last messages of the conversation, as many as the window
holds, up to the message that made the loop send it. The transport is handed just that, encoded,
for the configured endpoint. The window never shows anything else, and the system prompt never
enters it. -/
theorem requests_exact (config : Config) (actions : List Action) :
    let e := ((new config).run actions).engine
    (∀ earlier t later, e.sent = earlier ++ t :: later →
      ∃ before a after m, actions = before ++ a :: after ∧
        ((new config).run before).engine.sent = earlier ∧
        Sends config ((new config).run before) ((new config).run (before ++ [a])) t m) ∧
    e.history.messages = e.appended.rtake (max config.historyCapacity 1) ∧
    e.history.messages.length ≤ max config.historyCapacity 1 ∧
    ∀ m ∈ e.appended, m.role ≠ .system := by
  intro e
  have windowed : Windowed ((new config).run actions) := run_windowed config actions
  have capacity : e.history.capacity = max config.historyCapacity 1 := by
    rw [windowed.capacity, run_config]
    rfl
  refine ⟨fun earlier t later sent => run_sends config sent, ?_, ?_, windowed.roles⟩
  · rw [← capacity]
    exact windowed.window
  · rw [← capacity]
    exact e.history.length_le

end Threads

end Parley
