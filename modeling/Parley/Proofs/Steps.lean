import Mathlib.Data.List.Basic
import Mathlib.Data.List.Induction
import Parley.Engine.Journal
import Parley.Engine.Threads

/-! What a step of the threads can do, said once: each action that is possible is one of the cases
of `Step`, and what `Step` preserves holds in every run. -/
namespace Parley

/-- The prompt that is off the inbox and on its way into the conversation. -/
@[simp] def Work.hand : Work → List Prompt
  | .taken p | .rewaking p | .receiving p => [p]
  | _ => []

/-- The round trip whose response is being handled. -/
@[simp] def Work.handling : Work → List RoundTrip
  | .resolving t _ | .answering t _ _ => [t]
  | _ => []

/-- A round trip in flight is landed, and its response received. -/
def Engine.receiving (e : Engine) (t : RoundTrip) (result : Except Error Response) : Engine :=
  (e.landed t.number).arrive t result

/-- A message is chosen from a response. -/
def Engine.choose (e : Engine) (r : Response) (m : Message) : Engine :=
  (e.detail (passedOver r)).append m

/-- The outcomes of a response that ask for nothing more. -/
inductive Engine.Drops : Except Error Response → Notice → Prop
  | failed (err : Error) : Drops (.error err) (.roundTripFailed err)
  | noChoices {r : Response} : r.choices = [] → Drops (.ok r) .noChoices
  | noAssistant {r : Response} : r.choices ≠ [] → r.assistantMessage? = none →
      Drops (.ok r) (.noAssistant r.choices.length)

/-! The operations are record updates, and proofs about steps see through them. -/
attribute [simp] Engine.launch Engine.wake Engine.push Engine.prompt Engine.register Engine.append
  Engine.nextTrip Engine.openSession Engine.landed Engine.arrive Engine.receiving Engine.choose
  Engine.publish Engine.execute Engine.resubmit Engine.feedBack Engine.finish Engine.sweep Engine.stop

namespace Threads
open Engine

/-- `Step s a s'` says that the action `a` is possible in `s` and leads to `s'`. -/
inductive Step (s : Threads) : Action → Threads → Prop
  | launch : s.engine.phase = .fresh →
      Step s .launch { s with engine := s.engine.launch, starting := true }
  | firstWake : s.starting = true →
      Step s .firstWake { s with engine := s.engine.wake, starting := false }
  | push (id text : String) :
      Step s (.push id text) { s with
        engine := s.engine.push (s.engine.prompt id text), submitting := s.submitting + 1 }
  | wake : 0 < s.submitting →
      Step s .wake { s with engine := s.engine.wake, submitting := s.submitting - 1 }
  | poll (a : Answer) (rest : Queue Answer) : s.engine.outbox.toList = a :: rest.toList →
      Step s .poll { s with engine := { s.engine with outbox := rest }.record (.polled a) }
  | register (name : String) (definition : ToolDefinition) (tool : Tool) :
      Step s (.register name definition tool)
        { s with engine := (s.engine.register name definition tool).2 }
  | shutdown : s.work = .idle → s.engine.phase = .running →
      Step s .shutdown
        { s with engine := s.engine.stop }
  | takeWake : s.work = .idle → s.engine.phase = .running → s.engine.bridge.permit = true →
      Step s .takeWake { s with
        engine := { s.engine with bridge := { s.engine.bridge with permit := false } }
        work := .woken }
  | noPrompt : s.work = .woken → s.engine.inbox.toList = [] →
      Step s .advance { s with engine := s.engine.detail [.spuriousWake], work := .idle }
  | takePrompt (p : Prompt) (rest : Queue Prompt) : s.work = .woken →
      s.engine.inbox.toList = p :: rest.toList →
      Step s .advance { s with
        engine := { s.engine with inbox := rest }.record (.taken p), work := .taken p }
  | lastPrompt (p : Prompt) : s.work = .taken p → s.engine.inbox.toList = [] →
      Step s .advance { s with work := .receiving p }
  | morePrompts (p : Prompt) : s.work = .taken p → s.engine.inbox.toList ≠ [] →
      Step s .advance { s with work := .rewaking p }
  | rewake (p : Prompt) : s.work = .rewaking p →
      Step s .advance { s with engine := s.engine.wake, work := .receiving p }
  | dropPrompt (p : Prompt) : s.work = .receiving p → p.text = "" →
      Step s .advance { s with engine := s.engine.notice (.emptyPrompt p.id), work := .idle }
  | sendPrompt (p : Prompt) : s.work = .receiving p → p.text ≠ "" →
      Step s .advance { s with
        engine := ((s.engine.detail [.draining p.id]).append (.user p.text)).openSession p.id p.id
        work := .idle }
  | abandon (t : RoundTrip) (outcome : Transport.Outcome) : s.work = .idle →
      s.engine.phase ≠ .running → t ∈ s.engine.inFlight →
      Step s (.deliver t.number outcome) { s with engine := s.engine.landed t.number }
  | drop (t : RoundTrip) (outcome : Transport.Outcome) (n : Notice) : s.work = .idle →
      s.engine.phase = .running → t ∈ s.engine.inFlight → Drops (Transport.classify outcome) n →
      Step s (.deliver t.number outcome) { s with
        engine := (s.engine.receiving t (Transport.classify outcome)).notice n
        work := .resolving t [] }
  | answer (t : RoundTrip) (outcome : Transport.Outcome) (r : Response) (m : Message) :
      s.work = .idle → s.engine.phase = .running → t ∈ s.engine.inFlight →
      Transport.classify outcome = .ok r → r.assistantMessage? = some m → m.toolCalls = [] →
      Step s (.deliver t.number outcome) { s with
        engine := ((s.engine.receiving t (.ok r)).choose r m).publish t r
        work := .resolving t [] }
  | batch (t : RoundTrip) (outcome : Transport.Outcome) (r : Response) (m : Message) :
      s.work = .idle → s.engine.phase = .running → t ∈ s.engine.inFlight →
      Transport.classify outcome = .ok r → r.assistantMessage? = some m → m.toolCalls ≠ [] →
      Step s (.deliver t.number outcome) { s with
        engine := ((s.engine.receiving t (.ok r)).choose r m).detail [.resolving m.toolCalls.length]
        work := .resolving t m.toolCalls }
  | execute (t : RoundTrip) (c : ToolCall) (calls : List ToolCall) (m : Message) :
      s.work = .resolving t (c :: calls) → (s.engine.execute c).1 = some m →
      Step s .advance { s with
        engine := (s.engine.execute c).2, work := .answering t m calls }
  | skip (t : RoundTrip) (c : ToolCall) (calls : List ToolCall) :
      s.work = .resolving t (c :: calls) → (s.engine.execute c).1 = none →
      Step s .advance { s with engine := (s.engine.execute c).2, work := .resolving t calls }
  | feedBack (t : RoundTrip) (m : Message) (calls : List ToolCall) :
      s.work = .answering t m calls →
      Step s .advance { s with
        engine := s.engine.feedBack t.promptId m, work := .resolving t calls }
  | finish (t : RoundTrip) : s.work = .resolving t [] →
      Step s .advance { s with engine := s.engine.finish t, work := .idle }
  | sweep : s.work = .idle → s.engine.phase = .running →
      Step s .sweep { s with engine := s.engine.sweep }

theorem advance_cases (s : Threads) : s.advance = s ∨ Step s .advance s.advance := by
  unfold advance
  cases work : s.work with
  | idle => exact .inl rfl
  | woken =>
      cases popped : s.engine.inbox.pop? with
      | none =>
          have empty := (Queue.pop?_eq_none_iff _).mp popped
          simp only [takePrompt?, popped, Option.map_none]
          exact .inr (.noPrompt work empty)
      | some front =>
          have head := (Queue.pop?_eq_some_iff _ front.2 front.1).mp popped
          simp only [takePrompt?, popped, Option.map_some]
          exact .inr (.takePrompt _ _ work head)
  | taken p =>
      by_cases empty : s.engine.inbox.toList = []
      · simpa [Queue.isEmpty, empty] using Or.inr (Step.lastPrompt p work empty)
      · simpa [Queue.isEmpty, empty] using Or.inr (Step.morePrompts p work empty)
  | rewaking p => exact .inr (.rewake p work)
  | receiving p =>
      unfold receive
      by_cases empty : p.text = ""
      · simpa [empty] using Or.inr (Step.dropPrompt p work empty)
      · simpa [empty] using Or.inr (Step.sendPrompt p work empty)
  | resolving t calls =>
      cases calls with
      | nil => exact .inr (.finish t work)
      | cons c calls =>
          rcases run : s.engine.execute c with ⟨_ | m, engine⟩
          · have step := Step.skip t c calls work (by rw [run])
            simpa only [run] using Or.inr step
          · have step := Step.execute t c calls m work (by rw [run])
            simpa only [run] using Or.inr step
  | answering t m calls => exact .inr (.feedBack t m calls work)

/-- How a response is taken in, by what it is. -/
theorem accept_cases (s : Threads) (t : RoundTrip) (outcome : Transport.Outcome)
    (idle : s.work = .idle) (running : s.engine.phase = .running) (member : t ∈ s.engine.inFlight) :
    Step s (.deliver t.number outcome) { s with
      engine := ((s.engine.landed t.number).accept t (Transport.classify outcome)).1
      work := .resolving t
        ((s.engine.landed t.number).accept t (Transport.classify outcome)).2 } := by
  cases result : Transport.classify outcome with
  | error err =>
      have drops : Drops (Transport.classify outcome) (.roundTripFailed err) := by
        rw [result]
        exact .failed err
      have step := Step.drop t outcome _ idle running member drops
      simpa only [accept, receiving, result] using step
  | ok r =>
      by_cases none : r.choices = []
      · have drops : Drops (Transport.classify outcome) .noChoices := by
          rw [result]
          exact .noChoices none
        have step := Step.drop t outcome _ idle running member drops
        simpa [accept, handleResponse, receiving, result, none] using step
      · cases found : r.assistantMessage? with
        | none =>
            have drops : Drops (Transport.classify outcome) (.noAssistant r.choices.length) := by
              rw [result]
              exact .noAssistant none found
            have step := Step.drop t outcome _ idle running member drops
            simpa [accept, handleResponse, receiving, result, none, found] using step
        | some m =>
            by_cases calls : m.toolCalls = []
            · have step := Step.answer t outcome r m idle running member result found calls
              simpa [accept, handleResponse, receiving, none, found, Message.hasToolCalls, calls]
                using step
            · have step := Step.batch t outcome r m idle running member result found calls
              simpa [accept, handleResponse, receiving, none, found, Message.hasToolCalls, calls]
                using step

theorem deliver_cases (s : Threads) (n : Nat) (outcome : Transport.Outcome)
    (idle : s.work = .idle) :
    s.deliver n outcome = s ∨ Step s (.deliver n outcome) (s.deliver n outcome) := by
  unfold deliver land?
  cases found : s.engine.inFlight.find? fun t => t.number = n with
  | none => exact .inl rfl
  | some t =>
      have member := List.mem_of_find?_eq_some found
      have number : t.number = n := by simpa using List.find?_some found
      subst number
      by_cases running : s.engine.phase = .running
      · have step := accept_cases s t outcome idle running member
        simpa [isRunning, running] using Or.inr step
      · simpa [isRunning, running] using Or.inr (Step.abandon t outcome idle running member)

theorem whenIdle_cases {s next : Threads} {a : Action}
    (cases : s.work = .idle → next = s ∨ Step s a next) :
    s.whenIdle next = s ∨ Step s a (s.whenIdle next) := by
  by_cases idle : s.work = .idle
  · rw [whenIdle_of_idle idle]
    exact cases idle
  · exact .inl (whenIdle_of_busy idle next)

/-- An action that changes anything is one of the steps. -/
theorem step_cases (s : Threads) (a : Action) : s.step a = s ∨ Step s a (s.step a) := by
  cases a with
  | launch =>
      cases phase : s.engine.phase with
      | fresh => simpa only [step, phase] using Or.inr (Step.launch phase)
      | running => simp only [step, phase, true_or]
      | stopped => simp only [step, phase, true_or]
  | firstWake =>
      by_cases starting : s.starting = true
      · simpa only [step, if_pos starting] using Or.inr (Step.firstWake starting)
      · simp only [step, if_neg starting, true_or]
  | push id text => exact .inr (.push id text)
  | wake =>
      by_cases some : 0 < s.submitting
      · simpa only [step, if_pos some] using Or.inr (Step.wake some)
      · simp only [step, if_neg some, true_or]
  | poll =>
      cases popped : s.engine.outbox.pop? with
      | none => simp [step, poll, popped]
      | some front =>
          have head := (Queue.pop?_eq_some_iff _ front.2 front.1).mp popped
          simpa only [step, poll, popped] using Or.inr (Step.poll _ _ head)
  | register name definition tool => exact .inr (.register name definition tool)
  | shutdown =>
      refine whenIdle_cases fun idle => ?_
      by_cases running : s.engine.phase = .running
      · simpa [shutdown, isRunning, running] using Or.inr (Step.shutdown idle running)
      · simp [shutdown, isRunning, running]
  | takeWake =>
      refine whenIdle_cases fun idle => ?_
      by_cases running : s.engine.phase = .running
      · cases permit : s.engine.bridge.permit with
        | false => simp [isRunning, takeWake?, Bridge.poll, running, permit]
        | true =>
            simpa [isRunning, takeWake?, Bridge.poll, running, permit]
              using Or.inr (Step.takeWake idle running permit)
      · simp [isRunning, running]
  | deliver n outcome => exact whenIdle_cases (deliver_cases s n outcome)
  | sweep =>
      refine whenIdle_cases fun idle => ?_
      by_cases running : s.engine.phase = .running
      · simpa [isRunning, running] using Or.inr (Step.sweep idle running)
      · simp [isRunning, running]
  | advance => exact advance_cases s

theorem Step.config {s s' : Threads} {a : Action} (step : Step s a s') :
    s'.engine.config = s.engine.config := by
  cases step <;> simp

/-- The journal only grows. -/
theorem Step.journal {s s' : Threads} {a : Action} (step : Step s a s') :
    s.engine.journal <:+ s'.engine.journal := by
  cases step <;> simp [List.suffix_cons_iff, List.suffix_append_of_suffix]

/-- What holds at first and is kept by every step holds throughout a run. -/
theorem run_preserves {P : Threads → Prop} {s : Threads} (initial : P s)
    (kept : ∀ s a s', P s → Step s a s' → P s') (actions : List Action) : P (s.run actions) := by
  induction actions generalizing s with
  | nil => exact initial
  | cons a actions ih =>
      apply ih
      rcases step_cases s a with same | step
      · rw [same]
        exact initial
      · exact kept _ _ _ initial step

/-- What no action of a run changes is the same after it. -/
theorem run_keeps {α : Type} (view : Threads → α) {actions : List Action}
    (kept : ∀ a ∈ actions, ∀ s s', Step s a s' → view s' = view s) (s : Threads) :
    view (s.run actions) = view s := by
  induction actions generalizing s with
  | nil => rfl
  | cons a actions ih =>
      have rest := ih (fun b later => kept b (List.mem_cons_of_mem _ later)) (s.step a)
      refine rest.trans ?_
      rcases step_cases s a with same | step
      · rw [same]
      · exact kept a List.mem_cons_self _ _ step

theorem run_append (s : Threads) (first rest : List Action) :
    s.run (first ++ rest) = (s.run first).run rest :=
  List.foldl_append

theorem run_concat (s : Threads) (before : List Action) (a : Action) :
    s.run (before ++ [a]) = (s.run before).step a :=
  run_append s before [a]

/-- The same, where what holds may speak of the actions so far. -/
theorem run_record {P : List Action → Threads → Prop} {s : Threads} (initial : P [] s)
    (still : ∀ before a s, P before s → P (before ++ [a]) s)
    (kept : ∀ before a s', P before (s.run before) → Step (s.run before) a s' →
      P (before ++ [a]) s')
    (actions : List Action) : P actions (s.run actions) := by
  induction actions using List.reverseRecOn with
  | nil => exact initial
  | append_singleton before a ih =>
      rw [run_concat]
      rcases step_cases (s.run before) a with same | step
      · rw [same]
        exact still before a _ ih
      · exact kept before a _ ih step

/-- The same, where what is known of every run may be used. -/
theorem run_induction {P : Threads → Prop} {s : Threads} (initial : P s)
    (kept : ∀ before a s', P (s.run before) → Step (s.run before) a s' → P s')
    (actions : List Action) : P (s.run actions) :=
  run_record (P := fun _ => P) initial (fun _ _ _ h => h) kept actions

theorem run_config (s : Threads) (actions : List Action) :
    (s.run actions).engine.config = s.engine.config :=
  run_preserves (P := fun s' => s'.engine.config = s.engine.config) rfl
    (fun _ _ _ h step => step.config.trans h) actions

/-- In the state `s` of the run, the action `a` is taken. -/
def Takes (config : Config) (actions : List Action) (s : Threads) (a : Action) : Prop :=
  ∃ before after, actions = before ++ a :: after ∧ (new config).run before = s

theorem takes_last (config : Config) (before : List Action) (a : Action) :
    Takes config (before ++ [a]) ((new config).run before) a :=
  ⟨before, [], rfl, rfl⟩

theorem Takes.later {config : Config} {actions : List Action} {s : Threads} {a : Action}
    (taken : Takes config actions s a) (rest : List Action) :
    Takes config (actions ++ rest) s a := by
  obtain ⟨before, after, split, reached⟩ := taken
  refine ⟨before, after ++ rest, ?_, reached⟩
  rw [split, List.append_assoc, List.cons_append]

/-- What a run adds to a list, one item at a time, is added by steps of the run. -/
theorem run_adds {α : Type} (view : Threads → List α) {config : Config}
    (initial : view (new config) = [])
    (grows : ∀ s a s', Step s a s' → view s' = view s ∨ ∃ x, view s' = view s ++ [x])
    {actions : List Action} {earlier later : List α} {x : α}
    (added : view ((new config).run actions) = earlier ++ x :: later) :
    ∃ s a, Takes config actions s a ∧ view s = earlier ∧ view (s.step a) = earlier ++ [x] := by
  -- From the end of the run: its last step added `x`, or some step before that did.
  induction actions using List.reverseRecOn generalizing later with
  | nil => exact absurd (initial.symm.trans added) (by simp)
  | append_singleton before a ih =>
      have older {later : List α}
          (added : view ((new config).run before) = earlier ++ x :: later) :
          ∃ s b, Takes config (before ++ [a]) s b ∧ view s = earlier ∧
            view (s.step b) = earlier ++ [x] := by
        obtain ⟨s, b, taken, rest⟩ := ih added
        exact ⟨s, b, taken.later [a], rest⟩
      rw [run_concat] at added
      rcases step_cases ((new config).run before) a with same | step
      · rw [same] at added
        exact older added
      rcases grows _ a _ step with same | ⟨y, grown⟩
      · rw [same] at added
        exact older added
      rcases List.eq_nil_or_concat later with rfl | ⟨later, z, rfl⟩
      · obtain ⟨first, -⟩ := List.append_inj' (grown.symm.trans added) rfl
        exact ⟨_, a, takes_last config before a, first, added⟩
      · have split : view ((new config).run before) ++ [y] = (earlier ++ x :: later) ++ [z] := by
          rw [← grown, added]
          simp
        exact older (List.append_inj' split rfl).1

theorem Step.sent_grows {s s' : Threads} {a : Action} (step : Step s a s') :
    s'.engine.sent = s.engine.sent ∨ ∃ t, s'.engine.sent = s.engine.sent ++ [t] := by
  cases step <;> simp

/-- Each round trip of a run is sent by some step of it. -/
theorem run_sent {config : Config} {actions : List Action} {earlier later : List RoundTrip}
    {t : RoundTrip} (sent : ((new config).run actions).engine.sent = earlier ++ t :: later) :
    ∃ s a, Takes config actions s a ∧ s.engine.sent = earlier ∧
      (s.step a).engine.sent = earlier ++ [t] :=
  run_adds (fun s => s.engine.sent) rfl (fun _ _ _ step => step.sent_grows) sent

end Threads

end Parley
