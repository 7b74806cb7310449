import Parley.Proofs.Steps

/-! Responses as they are handled, one at a time and each from beginning to end. -/
namespace Parley

theorem ToolResult.toMessage_role (r : ToolResult) (callId : String) :
    (r.toMessage callId).role = .tool := by
  unfold toMessage
  split <;> rfl

theorem Registry.execute_role {r : Registry} {c : ToolCall} {m : Message}
    (executed : (r.execute c).message = .ok m) : m.role = .tool := by
  unfold Registry.execute at executed
  cases invoked : r.invoke c.invocation.1 with
  | error err => simp [invoked] at executed
  | ok outcome =>
      simp only [invoked, Except.ok.injEq] at executed
      rw [← executed]
      exact ToolResult.toMessage_role _ _

theorem Engine.execute_role {e : Engine} {c : ToolCall} {m : Message}
    (executed : (e.execute c).1 = some m) : m.role = .tool := by
  cases message : (e.registry.execute c).message with
  | error err => simp [message, Except.toOption] at executed
  | ok m' =>
      have same : m' = m := by simpa [message, Except.toOption] using executed
      rw [← same]
      exact Registry.execute_role message

theorem Response.assistantMessage?_role {r : Response} {m : Message}
    (found : r.assistantMessage? = some m) : m.role = .assistant := by
  simpa using List.find?_some found

theorem Response.choices_ne_nil {r : Response} {m : Message}
    (found : r.assistantMessage? = some m) : r.choices ≠ [] := by
  intro empty
  rw [assistantMessage?, empty] at found
  cases found

/-- The answer that is published for a response, if any. -/
def Answer.of? : RoundTrip × Except Error Response → Option Answer
  | (_, .error _) => none
  | (t, .ok r) =>
    match r.assistantMessage? with
    | none => none
    | some m => if m.hasToolCalls then none else some ⟨0, "OK", t.id, t.promptId, r⟩

theorem Answer.of?_eq_some {t : RoundTrip} {result : Except Error Response} {a : Answer}
    (answered : Answer.of? (t, result) = some a) :
    ∃ r m, result = .ok r ∧ r.assistantMessage? = some m ∧ m.toolCalls = [] ∧
      a = ⟨0, "OK", t.id, t.promptId, r⟩ := by
  cases result with
  | error err => cases answered
  | ok r =>
      cases found : r.assistantMessage? with
      | none => simp [Answer.of?, found] at answered
      | some m =>
          cases calls : m.toolCalls with
          | nil =>
              simp only [Answer.of?, found, Message.hasToolCalls, calls] at answered
              exact ⟨r, m, rfl, found, calls, (Option.some.inj answered).symm⟩
          | cons c calls' => simp [Answer.of?, found, Message.hasToolCalls, calls] at answered

theorem Engine.Drops.answer {result : Except Error Response} {n : Notice}
    (drops : Engine.Drops result n) (t : RoundTrip) : Answer.of? (t, result) = none := by
  cases drops with
  | failed err => rfl
  | noChoices none => simp [Answer.of?, Response.assistantMessage?, none]
  | noAssistant _ none => simp [Answer.of?, none]

namespace Handling

/-- A response is answered, dropped, or a batch of calls. -/
theorem kinds (h : Handling) :
    (if (Answer.of? (h.trip, h.result)).isSome then 1 else 0) + (if h.isDropped then 1 else 0) +
      (if h.isBatch then 1 else 0) = 1 := by
  unfold isDropped isBatch
  cases h.result with
  | error err => rfl
  | ok r =>
      cases found : r.assistantMessage? with
      | none => simp [Answer.of?, found]
      | some m =>
          have chosen : r.choices ≠ [] := by
            intro none
            simp [Response.assistantMessage?, none] at found
          cases calls : m.hasToolCalls <;> simp [Answer.of?, found, chosen, calls]

@[simp] theorem ofJournal_noticed (notices : List Notice) (journal : List Entry) :
    ofJournal ((notices.map Entry.noticed).reverse ++ journal) = ofJournal journal := by
  induction notices generalizing journal with
  | nil => rfl
  | cons n notices ih =>
      simp only [List.map_cons, List.reverse_cons, List.append_assoc, List.singleton_append]
      exact ih _

theorem addMessage_of_role {m : Message} (other : m.role ≠ .tool) (hs : List Handling) :
    addMessage m hs = hs := by
  cases hs <;> simp [addMessage, other]

theorem addMessage_assistant {r : Response} {m : Message} (found : r.assistantMessage? = some m)
    (hs : List Handling) : addMessage m hs = hs := by
  apply addMessage_of_role
  rw [Response.assistantMessage?_role found]
  decide

@[simp] theorem addMessage_results (m : Message) (hs : List Handling) :
    (addMessage m hs).map (fun h => (h.trip, h.result)) =
      hs.map fun h => (h.trip, h.result) := by
  cases hs with
  | nil => rfl
  | cons h hs =>
      simp only [addMessage]
      split <;> rfl

@[simp] theorem finishLatest_results (hs : List Handling) :
    (finishLatest hs).map (fun h => (h.trip, h.result)) = hs.map fun h => (h.trip, h.result) := by
  cases hs <;> rfl

theorem ofJournal_feedBack {e : Engine} {m : Message} (role : m.role = .tool)
    {latest : Handling} {older : List Handling} (handlings : ofJournal e.journal = latest :: older)
    (unfinished : latest.finished = false) (promptId : String) :
    ofJournal (e.feedBack promptId m).journal =
      { latest with toolMessages := latest.toolMessages ++ [m] } :: older := by
  simp [ofJournal, handlings, addMessage, role, unfinished]

end Handling

/-- The latest handling is that of the response the loop is in the middle of. A tool is run only for
a batch. -/
def Work.Underway (work : Work) (handlings : List Handling) : Prop :=
  match work with
  | .resolving t calls => ∃ h older, handlings = h :: older ∧ h.trip = t ∧ h.finished = false ∧
      (calls ≠ [] → h.isBatch = true)
  | .answering t m _ => m.role = .tool ∧ ∃ h older, handlings = h :: older ∧ h.trip = t ∧
      h.finished = false ∧ h.isBatch = true
  | _ => True

namespace Threads
open Handling

theorem Step.results {s s' : Threads} {a : Action} (step : Step s a s')
    (h : (ofJournal s.engine.journal).reverse.map (fun h => (h.trip, h.result)) =
      s.engine.received) :
    (ofJournal s'.engine.journal).reverse.map (fun h => (h.trip, h.result)) =
      s'.engine.received := by
  rw [List.map_reverse] at h ⊢
  cases step <;> simpa [ofJournal] using h

theorem Step.published {s s' : Threads} {a : Action} (step : Step s a s')
    (h : s.engine.published = s.engine.received.filterMap Answer.of?) :
    s'.engine.published = s'.engine.received.filterMap Answer.of? := by
  cases step with
  | drop t outcome n _ _ _ drops =>
      simpa [drops.answer t] using h
  | answer t outcome r m _ _ _ _ found calls | batch t outcome r m _ _ _ _ found calls =>
      simpa [Answer.of?, found, Message.hasToolCalls, calls] using h
  | _ => simpa using h

theorem Step.underway {s s' : Threads} {a : Action} (step : Step s a s')
    (h : s.work.Underway (ofJournal s.engine.journal)) :
    s'.work.Underway (ofJournal s'.engine.journal) := by
  cases step with
  | drop t outcome n _ _ _ _ =>
      refine ⟨⟨t, Transport.classify outcome, [], false⟩, _, rfl, rfl, rfl, ?_⟩
      exact fun some => (some rfl).elim
  | answer t outcome r m _ _ _ _ found _ =>
      refine ⟨⟨t, .ok r, [], false⟩, ofJournal s.engine.journal, ?_, rfl, rfl, ?_⟩
      · simp [ofJournal, addMessage_assistant found]
      · exact fun some => (some rfl).elim
  | batch t outcome r m _ _ _ _ found calls =>
      refine ⟨⟨t, .ok r, [], false⟩, ofJournal s.engine.journal, ?_, rfl, rfl, fun _ => ?_⟩
      · simp [ofJournal, addMessage_assistant found]
      · simp [isBatch, found, Message.hasToolCalls, calls]
  | execute t c calls m work executed =>
      rw [work] at h
      obtain ⟨latest, older, handlings, trip, unfinished, batch⟩ := h
      refine ⟨Engine.execute_role executed, latest, older, ?_, trip, unfinished, batch (by simp)⟩
      simpa [ofJournal] using handlings
  | skip t c calls work _ =>
      rw [work] at h
      obtain ⟨latest, older, handlings, trip, unfinished, batch⟩ := h
      refine ⟨latest, older, ?_, trip, unfinished, fun _ => batch (by simp)⟩
      simpa [ofJournal] using handlings
  | feedBack t m calls work =>
      rw [work] at h
      obtain ⟨role, latest, older, handlings, trip, unfinished, batch⟩ := h
      exact ⟨{ latest with toolMessages := latest.toolMessages ++ [m] }, older,
        ofJournal_feedBack role handlings unfinished t.promptId, trip, unfinished, fun _ => batch⟩
  | takeWake | noPrompt | takePrompt | lastPrompt | morePrompts | rewake | dropPrompt | sendPrompt
  | finish => trivial
  | launch | firstWake | push | wake | poll | register | shutdown | abandon | sweep =>
      simpa [ofJournal] using h

/-- What the journal tells of the handlings in a run. -/
structure Handled (s : Threads) : Prop where
  results : (ofJournal s.engine.journal).reverse.map (fun h => (h.trip, h.result)) =
    s.engine.received
  published : s.engine.published = s.engine.received.filterMap Answer.of?
  underway : s.work.Underway (ofJournal s.engine.journal)
  /-- Only a batch comes with tool messages. -/
  plain : ∀ h ∈ ofJournal s.engine.journal, h.isBatch = false → h.toolMessages = []

theorem new_handled (config : Config) : Handled (.new config) where
  results := rfl
  published := rfl
  underway := trivial
  plain h member := by cases member

theorem Step.plain {s s' : Threads} {a : Action} (step : Step s a s') (h : Handled s) :
    ∀ h ∈ ofJournal s'.engine.journal, h.isBatch = false → h.toolMessages = [] := by
  have plain := h.plain
  have underway := h.underway
  cases step with
  | feedBack t m calls work =>
      rw [work] at underway
      obtain ⟨role, latest, older, handlings, -, unfinished, batch⟩ := underway
      rw [handlings] at plain
      rw [ofJournal_feedBack role handlings unfinished]
      intro h member unbatched
      rcases List.mem_cons.mp member with rfl | older
      · exact absurd (batch.symm.trans unbatched) (by simp)
      · exact plain h (List.mem_cons_of_mem _ older) unbatched
  | finish t work =>
      rw [work] at underway
      obtain ⟨latest, older, handlings, -, -, -⟩ := underway
      rw [handlings] at plain
      simpa [ofJournal, handlings, finishLatest, isBatch] using plain
  | answer t outcome r m _ _ _ _ found _ | batch t outcome r m _ _ _ _ found _ =>
      simpa [ofJournal, addMessage_assistant found, isBatch] using plain
  | _ => simpa [ofJournal, addMessage_of_role, Message.user] using plain

theorem Step.handled {s s' : Threads} {a : Action} (step : Step s a s') (h : Handled s) :
    Handled s' where
  results := step.results h.results
  published := step.published h.published
  underway := step.underway h.underway
  plain := step.plain h

theorem run_handled (config : Config) (actions : List Action) :
    Handled ((new config).run actions) :=
  run_preserves (new_handled config) (fun _ _ _ h step => step.handled h) actions

end Threads

end Parley
