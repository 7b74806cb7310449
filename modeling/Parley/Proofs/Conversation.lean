import Parley.Proofs.Executions
import Parley.Proofs.Requests

/-! The conversation as a whole. Prompts, answers and batches of calls follow one another in it, and
nothing comes between the messages of a batch, though other prompts are on their way meanwhile. -/
namespace Parley

/-- What a call comes to: its result under the id of the call, or an error under none. -/
inductive ToolCall.Answered (c : ToolCall) (m : Message) : Prop
  | result : m.role = .tool → m.toolCallId = some c.id → m.toolCalls = [] → Answered c m
  | error (reason : String) : m.role = .tool → m.content = "Error: " ++ reason →
      m.toolCallId = none → m.toolCalls = [] → Answered c m

theorem ToolResult.toMessage_answered (r : ToolResult) (c : ToolCall) :
    c.Answered (r.toMessage c.id) := by
  unfold toMessage
  split
  · exact .result rfl rfl rfl
  · exact .error r.description rfl rfl rfl rfl

theorem Engine.execute_answered (e : Engine) (c : ToolCall) :
    (e.execute c).1.isSome = e.registry.contains c.name ∧
      ∀ m, (e.execute c).1 = some m → c.Answered m := by
  cases found : e.registry.find? c.name with
  | none =>
      simp [Registry.execute_unregistered found, Registry.contains_find?, found, Except.toOption]
  | some t =>
      simp [Registry.execute_registered found, Registry.contains_find?, found, Except.toOption,
        ToolResult.toMessage_answered]

namespace Threads
open Engine

section

variable (config : Config) (actions : List Action)

/-- At some point of the run, where the conversation stands at `log`, the loop takes in a response
to `t` with the assistant message `m`. -/
def Receives (t : RoundTrip) (log : List Message) (m : Message) : Prop :=
  ∃ s outcome r, Takes config actions s (.deliver t.number outcome) ∧ s.work = .idle ∧
    s.engine.phase = .running ∧ s.engine.appended = log ∧ t ∈ s.engine.inFlight ∧
    Transport.classify outcome = .ok r ∧ r.assistantMessage? = some m

/-- At some point of the run, where the conversation stands at `log`, the loop reaches the call `c`
of the response to `t`, and `left` are left after it. The call comes to a message if a tool of its
name is registered at that point, and to none otherwise. -/
def Reaches (t : RoundTrip) (log : List Message) (c : ToolCall) (left : List ToolCall)
    (m : Option Message) : Prop :=
  ∃ s, Takes config actions s .advance ∧ s.engine.appended = log ∧
    s.work = .resolving t (c :: left) ∧ (s.engine.execute c).1 = m ∧
    m.isSome = s.engine.registry.contains c.name

/-- The messages that a batch of calls has come to when `left` of them are left, one after the other
from the conversation `start` on. -/
inductive Results (t : RoundTrip) (start : List Message) (calls : List ToolCall) :
    List ToolCall → List Message → Prop
  | begun : Results t start calls calls []
  | answered {c left ms m} : Results t start calls (c :: left) ms →
      Reaches config actions t (start ++ ms) c left (some m) → c.Answered m →
      Results t start calls left (ms ++ [m])
  | skipped {c left ms} : Results t start calls (c :: left) ms →
      Reaches config actions t (start ++ ms) c left none →
      Results t start calls left ms

/-- The messages of a batch after the conversation `log`, as far as the calls that are not left. -/
inductive Batch (t : RoundTrip) (log : List Message) (left : List ToolCall) :
    List Message → Prop
  | mk {m results} : Receives config actions t log m → m.role = .assistant → m.toolCalls ≠ [] →
      Results config actions t (log ++ [m]) m.toolCalls left results →
      Batch t log left (m :: results)

/-- What comes at once after the conversation `log`. -/
inductive Block (log : List Message) : List Message → Prop
  | prompt {s p m} : Takes config actions s .advance → s.engine.appended = log →
      s.work = .receiving p → m.role = .user → m.content = p.text → m.content ≠ "" →
      m.toolCallId = none → m.toolCalls = [] → Block log [m]
  | answer {t m} : Receives config actions t log m → m.role = .assistant → m.toolCalls = [] →
      Block log [m]
  | batch {t ms} : Batch config actions t log [] ms → Block log ms

inductive Conversation : List Message → Prop
  | empty : Conversation []
  | block {log ms} : Conversation log → Block config actions log ms → Conversation (log ++ ms)

/-- A conversation that ends in a batch with calls left. -/
inductive Unfinished (t : RoundTrip) (left : List ToolCall) : List Message → Prop
  | mk {log ms} : Conversation config actions log → Batch config actions t log left ms →
      Unfinished t left (log ++ ms)

/-- The conversation of a state, by what the loop is in the middle of. -/
def Composed (s : Threads) : Prop :=
  match s.work with
  | .resolving t (c :: left) => Unfinished config actions t (c :: left) s.engine.appended
  | .answering t m left => ∃ c, Unfinished config actions t (c :: left) s.engine.appended ∧
      Reaches config actions t s.engine.appended c left (some m) ∧ c.Answered m
  | _ => Conversation config actions s.engine.appended

end

section

variable {config : Config} {actions : List Action} {t : RoundTrip} {log ms : List Message}
  {c : ToolCall} {left : List ToolCall}

/-! What was so at some point of a run stays so when the run goes on. -/

theorem Receives.later {m : Message} (received : Receives config actions t log m)
    (rest : List Action) : Receives config (actions ++ rest) t log m := by
  obtain ⟨s, outcome, r, taken, there⟩ := received
  exact ⟨s, outcome, r, taken.later rest, there⟩

theorem Reaches.later {m : Option Message} (reached : Reaches config actions t log c left m)
    (rest : List Action) : Reaches config (actions ++ rest) t log c left m := by
  obtain ⟨s, taken, there⟩ := reached
  exact ⟨s, taken.later rest, there⟩

theorem Results.later {calls : List ToolCall}
    (results : Results config actions t log calls left ms) (rest : List Action) :
    Results config (actions ++ rest) t log calls left ms := by
  induction results with
  | begun => exact .begun
  | answered _ reached answered ih => exact .answered ih (reached.later rest) answered
  | skipped _ reached ih => exact .skipped ih (reached.later rest)

theorem Batch.later (batch : Batch config actions t log left ms) (rest : List Action) :
    Batch config (actions ++ rest) t log left ms := by
  cases batch with
  | mk received role calls results =>
      exact .mk (received.later rest) role calls (results.later rest)

theorem Block.later (block : Block config actions log ms) (rest : List Action) :
    Block config (actions ++ rest) log ms := by
  cases block with
  | prompt taken there work role content text answers calls =>
      exact .prompt (taken.later rest) there work role content text answers calls
  | answer received role calls => exact .answer (received.later rest) role calls
  | batch batch => exact .batch (batch.later rest)

theorem Conversation.later (conversation : Conversation config actions log)
    (rest : List Action) : Conversation config (actions ++ rest) log := by
  induction conversation with
  | empty => exact .empty
  | block _ block ih => exact .block ih (block.later rest)

theorem Unfinished.later (unfinished : Unfinished config actions t left log)
    (rest : List Action) : Unfinished config (actions ++ rest) t left log := by
  cases unfinished with
  | mk conversation batch => exact .mk (conversation.later rest) (batch.later rest)

theorem Composed.later {s s' : Threads} (h : Composed config actions s) (rest : List Action)
    (work : s'.work = s.work) (appended : s'.engine.appended = s.engine.appended) :
    Composed config (actions ++ rest) s' := by
  unfold Composed at h ⊢
  rw [work, appended]
  split at h
  · exact h.later rest
  · obtain ⟨c, unfinished, reached, answered⟩ := h
    exact ⟨c, unfinished.later rest, reached.later rest, answered⟩
  · exact h.later rest

theorem Unfinished.answered {m : Message}
    (unfinished : Unfinished config actions t (c :: left) log)
    (reached : Reaches config actions t log c left (some m)) (answered : c.Answered m) :
    Unfinished config actions t left (log ++ [m]) := by
  cases unfinished with
  | mk conversation batch =>
      cases batch with
      | mk received role calls results =>
          rw [List.append_cons] at reached
          rw [List.append_assoc]
          exact .mk conversation (.mk received role calls (.answered results reached answered))

theorem Unfinished.skipped (unfinished : Unfinished config actions t (c :: left) log)
    (reached : Reaches config actions t log c left none) :
    Unfinished config actions t left log := by
  cases unfinished with
  | mk conversation batch =>
      cases batch with
      | mk received role calls results =>
          rw [List.append_cons] at reached
          exact .mk conversation (.mk received role calls (.skipped results reached))

theorem Unfinished.finished (unfinished : Unfinished config actions t [] log) :
    Conversation config actions log := by
  cases unfinished with
  | mk conversation batch => exact .block conversation (.batch batch)

theorem Unfinished.composed {s : Threads}
    (unfinished : Unfinished config actions t left s.engine.appended)
    (work : s.work = .resolving t left) : Composed config actions s := by
  unfold Composed
  rw [work]
  cases left with
  | nil => exact unfinished.finished
  | cons c left => exact unfinished

theorem Composed.cases {s : Threads} (h : Composed config actions s) :
    Conversation config actions s.engine.appended ∨
      ∃ t left, s.work.handling = [t] ∧ Unfinished config actions t left s.engine.appended := by
  unfold Composed at h
  split at h
  · next t c left work => exact .inr ⟨t, c :: left, by rw [work]; rfl, h⟩
  · next t m left work =>
      obtain ⟨c, unfinished, -⟩ := h
      exact .inr ⟨t, c :: left, by rw [work]; rfl, unfinished⟩
  · exact .inl h

end

theorem Step.composed {config : Config} {before : List Action} {a : Action} {s s' : Threads}
    (step : Step s a s') (taken : Takes config (before ++ [a]) s a)
    (h : Composed config before s) : Composed config (before ++ [a]) s' := by
  cases step with
  | launch | firstWake | push | wake | poll | register | shutdown | abandon | sweep =>
      exact h.later _ rfl (by simp)
  | takeWake work | noPrompt work | takePrompt p rest work | lastPrompt p work
  | morePrompts p work | rewake p work | dropPrompt p work | drop t outcome n work
  | finish t work =>
      simp only [Composed, work] at h
      simpa [Composed] using h.later _
  | sendPrompt p work text =>
      simp only [Composed, work] at h
      have block : Block config (before ++ [_]) s.engine.appended [.user p.text] :=
        .prompt taken rfl work rfl rfl text rfl rfl
      simpa [Composed] using (h.later _).block block
  | answer t outcome r m work running flying classified found calls =>
      simp only [Composed, work] at h
      have received : Receives config (before ++ [_]) t s.engine.appended m :=
        ⟨s, outcome, r, taken, work, running, rfl, flying, classified, found⟩
      have role := Response.assistantMessage?_role found
      simpa [Composed] using (h.later _).block (.answer received role calls)
  | batch t outcome r m work running flying classified found calls =>
      simp only [Composed, work] at h
      have received : Receives config (before ++ [_]) t s.engine.appended m :=
        ⟨s, outcome, r, taken, work, running, rfl, flying, classified, found⟩
      have role := Response.assistantMessage?_role found
      refine Unfinished.composed ?_ rfl
      simpa using Unfinished.mk (h.later _) (.mk received role calls .begun)
  | execute t c left m work executed =>
      simp only [Composed, work] at h
      obtain ⟨registered, answered⟩ := s.engine.execute_answered c
      rw [executed] at registered
      have reached : Reaches config (before ++ [_]) t s.engine.appended c left (some m) :=
        ⟨s, taken, rfl, work, executed, registered⟩
      exact ⟨c, by simpa using h.later _, by simpa using reached, answered m executed⟩
  | skip t c left work executed =>
      simp only [Composed, work] at h
      obtain ⟨registered, -⟩ := s.engine.execute_answered c
      rw [executed] at registered
      have reached : Reaches config (before ++ [_]) t s.engine.appended c left none :=
        ⟨s, taken, rfl, work, executed, registered⟩
      refine Unfinished.composed ?_ rfl
      simpa using (h.later _).skipped reached
  | feedBack t m left work =>
      -- Callers may have acted since the call was reached, but the conversation is where it was.
      simp only [Composed, work] at h
      obtain ⟨c, unfinished, reached, answered⟩ := h
      refine Unfinished.composed ?_ rfl
      simpa using (unfinished.later _).answered (reached.later _) answered

theorem run_composed (config : Config) (actions : List Action) :
    Composed config actions ((new config).run actions) := by
  have initial : Composed config [] (new config) := Conversation.empty
  exact run_record initial (fun _ a _ h => h.later [a] rfl rfl)
    (fun before a _ h step => step.composed (takes_last config before a) h) actions

/-- The conversation is well formed, however prompts, responses and batches interleave: it is a
sequence of prompts with a text, of answers without calls, and of batches, each with the messages of
its calls in their order, one for each call whose tool was registered when it was reached. Only the
batch that the loop is in the middle of may be incomplete. The history shows the end of it. -/
theorem conversation_well_formed (config : Config) (actions : List Action) :
    let s := (new config).run actions
    (s.work = .idle → Conversation config actions s.engine.appended) ∧
    (Conversation config actions s.engine.appended ∨
      ∃ t left, s.work.handling = [t] ∧
        Unfinished config actions t left s.engine.appended) ∧
    s.engine.history.messages <:+ s.engine.appended := by
  intro s
  have composed : Composed config actions s := run_composed config actions
  refine ⟨?_, composed.cases, ?_⟩
  · intro idle
    simpa only [Composed, idle] using composed
  · rw [(run_windowed config actions).window]
    exact List.drop_suffix _ _

end Threads

end Parley
