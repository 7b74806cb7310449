import Mathlib.Algebra.Ring.Int.Defs
import Mathlib.Algebra.Ring.Nat
import Parley.Proofs.Handlings
import Parley.Proofs.RoundTrips
import Parley.Proofs.Schedules

/-! Round trips are conserved: for each prompt id, the round trips opened, handled and answered
balance, whatever tree of tool calls they form. -/
namespace Parley

/-- An empty prompt never enters the conversation. -/
def Prompt.asks (id : String) (p : Prompt) : Bool :=
  p.id = id ∧ p.text ≠ ""

namespace Engine

variable (e : Engine) (id : String)

/-- The prompts with the id that were taken off the inbox and have a text. -/
def promptsFor : Nat :=
  e.taken.countP (Prompt.asks id)

def openedFor : Nat :=
  e.sent.countP fun t => t.promptId = id

def handledFor : Nat :=
  e.handled.countP fun t => t.promptId = id

def unhandledFor : Nat :=
  e.unhandled.countP fun t => t.promptId = id

def answersFor : Nat :=
  e.published.countP fun a => a.promptId = id

def handlingsFor : List Handling :=
  e.handlings.filter fun h => h.trip.promptId = id

def droppedFor : Nat :=
  (e.handlingsFor id).countP Handling.isDropped

def batchesFor : List Handling :=
  (e.handlingsFor id).filter Handling.isBatch

/-- Each call that is executed comes to one tool message. -/
def toolMessagesFor : Nat :=
  ((e.handlingsFor id).map fun h => h.toolMessages.length).sum

end Engine

namespace Handling

/-- The number of tool messages among the handlings for a prompt id. -/
def messagesFor (id : String) (hs : List Handling) : Nat :=
  ((hs.filter fun h => h.trip.promptId = id).map fun h => h.toolMessages.length).sum

theorem messagesFor_cons (id : String) (h : Handling) (hs : List Handling) :
    messagesFor id (h :: hs) =
      (if h.trip.promptId = id then h.toolMessages.length else 0) + messagesFor id hs := by
  by_cases same : h.trip.promptId = id <;> simp [messagesFor, same]

@[simp] theorem messagesFor_began (id : String) (trip : RoundTrip)
    (result : Except Error Response) (hs : List Handling) :
    messagesFor id ({ trip, result } :: hs) = messagesFor id hs := by
  simp [messagesFor_cons]

@[simp] theorem messagesFor_finishLatest (id : String) (hs : List Handling) :
    messagesFor id (finishLatest hs) = messagesFor id hs := by
  cases hs with
  | nil => rfl
  | cons h hs => simp only [finishLatest, messagesFor_cons]

/-- What is handled is answered, dropped or a batch. -/
theorem length_kinds (hs : List Handling) :
    hs.length = hs.countP (fun h => (Answer.of? (h.trip, h.result)).isSome) +
      hs.countP isDropped + (hs.filter isBatch).length := by
  induction hs with
  | nil => rfl
  | cons h hs ih =>
      have kinds := h.kinds
      rw [← List.countP_eq_length_filter] at ih ⊢
      simp only [List.length_cons, List.countP_cons]
      omega

theorem sum_batches {hs : List Handling}
    (plain : ∀ h ∈ hs, h.isBatch = false → h.toolMessages = []) :
    (hs.map fun h => h.toolMessages.length).sum =
      ((hs.filter isBatch).map fun h => h.toolMessages.length).sum := by
  induction hs with
  | nil => rfl
  | cons h hs ih =>
      have rest := ih fun h' later => plain h' (List.mem_cons_of_mem _ later)
      cases batch : h.isBatch with
      | true => simp [batch, rest]
      | false => simp [batch, rest, plain h List.mem_cons_self batch]

theorem sum_executed (hs : List Handling) :
    (hs.map fun h => (h.toolMessages.length : Int) - 1).sum =
      ((hs.map fun h => h.toolMessages.length).sum : Nat) - (hs.length : Int) := by
  induction hs with
  | nil => rfl
  | cons h hs ih =>
      simp only [List.map_cons, List.sum_cons, List.length_cons, ih]
      omega

end Handling

namespace Threads
open Handling

theorem toolMessagesFor_eq (e : Engine) (id : String) :
    e.toolMessagesFor id = messagesFor id (ofJournal e.journal) := by
  simp [Engine.toolMessagesFor, Engine.handlingsFor, Engine.handlings, messagesFor]

/-- Each prompt opens one round trip, and each tool message one more. -/
theorem Step.opened {s s' : Threads} {a : Action} (step : Step s a s') (handled : Handled s)
    (id : String)
    (h : s.engine.openedFor id + s.work.hand.countP (Prompt.asks id) =
      s.engine.promptsFor id + s.engine.toolMessagesFor id) :
    s'.engine.openedFor id + s'.work.hand.countP (Prompt.asks id) =
      s'.engine.promptsFor id + s'.engine.toolMessagesFor id := by
  have underway := handled.underway
  rw [toolMessagesFor_eq] at h ⊢
  unfold Engine.openedFor Engine.promptsFor at h ⊢
  cases step with
  | takePrompt p rest work _ =>
      rw [work] at h
      simp [ofJournal] at h ⊢
      omega
  | sendPrompt p work text =>
      rw [work] at h
      by_cases same : p.id = id
      · simpa [ofJournal, addMessage_of_role, Message.user, Prompt.asks, same, text] using h
      · simpa [ofJournal, addMessage_of_role, Message.user, Prompt.asks, same] using h
  | dropPrompt p work text =>
      rw [work] at h
      simpa [ofJournal, Prompt.asks, text] using h
  | feedBack t m calls work =>
      rw [work] at underway h
      obtain ⟨role, latest, older, handlings, trip, unfinished, -⟩ := underway
      rw [handlings] at h
      rw [ofJournal_feedBack role handlings unfinished]
      by_cases same : t.promptId = id
      · simp [messagesFor_cons, trip, same] at h ⊢
        omega
      · simpa [messagesFor_cons, trip, same] using h
  | answer t _ r m work _ _ _ found _ | batch t _ r m work _ _ _ found _ =>
      rw [work] at h
      simpa [ofJournal, addMessage_assistant found] using h
  | launch | firstWake | push | wake | poll | register | shutdown | abandon | sweep =>
      simpa [ofJournal] using h
  | takeWake work | noPrompt work | lastPrompt p work | morePrompts p work | rewake p work
  | drop t outcome n work | execute t c calls m work | skip t c calls work | finish t work =>
      rw [work] at h
      simpa [ofJournal] using h

theorem run_opened (config : Config) (actions : List Action) (id : String) :
    ((new config).run actions).engine.openedFor id +
        ((new config).run actions).work.hand.countP (Prompt.asks id) =
      ((new config).run actions).engine.promptsFor id +
        ((new config).run actions).engine.toolMessagesFor id :=
  run_induction
    (P := fun s => s.engine.openedFor id + s.work.hand.countP (Prompt.asks id) =
      s.engine.promptsFor id + s.engine.toolMessagesFor id) rfl
    (fun before _ _ h step => step.opened (run_handled config before) id h) actions

/-- The answers are those of the responses that were received. -/
theorem Handled.answersFor_eq {s : Threads} (h : Handled s) (id : String) :
    s.engine.answersFor id =
      (s.engine.handlingsFor id).countP fun h => (Answer.of? (h.trip, h.result)).isSome := by
  have results : s.engine.handlings.map (fun h => (h.trip, h.result)) = s.engine.received :=
    h.results
  unfold Engine.answersFor Engine.handlingsFor
  rw [h.published, ← results, List.filterMap_map, List.countP_filterMap, List.countP_filter]
  congr 1
  funext handling
  cases answered : Answer.of? (handling.trip, handling.result) with
  | none => simp [answered]
  | some a =>
      obtain ⟨r, m, -, -, -, rfl⟩ := Answer.of?_eq_some answered
      simp [answered]

theorem Handled.handledFor_eq {s : Threads} (h : Handled s)
    (settled : s.engine.received.map (·.1) = s.engine.handled) (id : String) :
    s.engine.handledFor id = (s.engine.handlingsFor id).length := by
  have results : s.engine.handlings.map (fun h => (h.trip, h.result)) = s.engine.received :=
    h.results
  unfold Engine.handledFor Engine.handlingsFor
  rw [← settled, ← results, List.map_map, List.countP_map, List.countP_eq_length_filter]
  rfl

/-- Only batches come with tool messages. -/
theorem Handled.toolMessagesFor_eq {s : Threads} (h : Handled s) (id : String) :
    s.engine.toolMessagesFor id =
      ((s.engine.batchesFor id).map fun h => h.toolMessages.length).sum := by
  refine sum_batches fun handling member => ?_
  exact h.plain handling (List.mem_reverse.mp (List.mem_filter.mp member).1)

/-- Round trips are conserved. Between two events of the loop, those opened for a prompt id are one
for each prompt with that id and one for each tool message of its responses; a response that was
handled was answered, was dropped or asked for a batch of calls; and what is opened and not handled
is in flight, unless the loop was shut down. So a prompt has one answer, and one more for each call
of a batch beyond the first, and one less for each response that was dropped. -/
theorem round_trips_conserved (config : Config) (actions : List Action) (id : String)
    (idle : ((new config).run actions).work = .idle) :
    let e := ((new config).run actions).engine
    e.openedFor id = e.promptsFor id + e.toolMessagesFor id ∧
    e.handledFor id = e.answersFor id + e.droppedFor id + (e.batchesFor id).length ∧
    e.openedFor id = e.handledFor id + e.unhandledFor id ∧
    (e.phase ≠ .stopped → e.unhandled.Perm e.inFlight) ∧
    (∀ a ∈ e.published, ∃ m, a.response.assistantMessage? = some m ∧ m.toolCalls = []) ∧
    (e.promptsFor id = 1 → e.unhandledFor id = 0 →
      (e.answersFor id : Int) =
        1 + ((e.batchesFor id).map fun h => (h.toolMessages.length : Int) - 1).sum -
          e.droppedFor id) ∧
    (e.promptsFor id = 1 → e.unhandledFor id = 0 → e.droppedFor id = 0 →
      (∀ h ∈ e.batchesFor id, h.toolMessages.length = 1) → e.answersFor id = 1) := by
  intro e
  have handled : Handled ((new config).run actions) := run_handled config actions
  have accounted := run_accounted config actions
  have opened : e.openedFor id = e.promptsFor id + e.toolMessagesFor id := by
    simpa only [idle, Work.hand, List.countP_nil, Nat.add_zero] using run_opened config actions id
  have kinds : e.handledFor id =
      e.answersFor id + e.droppedFor id + (e.batchesFor id).length := by
    rw [handled.handledFor_eq (accounted.settled idle), handled.answersFor_eq]
    exact Handling.length_kinds _
  have balance : e.openedFor id = e.handledFor id + e.unhandledFor id := by
    have parts := (accounted.sent_perm idle).countP_eq fun t => t.promptId = id
    rwa [List.countP_append] at parts
  have batches : e.toolMessagesFor id =
      ((e.batchesFor id).map fun h => h.toolMessages.length).sum := handled.toolMessagesFor_eq id
  refine ⟨opened, kinds, balance, accounted.unhandled_perm idle, ?_, ?_, ?_⟩
  · intro a member
    have answers : e.published = e.received.filterMap Answer.of? := handled.published
    rw [answers] at member
    obtain ⟨⟨t, result⟩, -, answered⟩ := List.mem_filterMap.mp member
    obtain ⟨r, m, -, found, calls, rfl⟩ := Answer.of?_eq_some answered
    exact ⟨m, found, calls⟩
  · intro asked settled
    have executed := Handling.sum_executed (e.batchesFor id)
    rw [executed, ← batches]
    omega
  · intro asked settled undropped single
    have ones : (e.batchesFor id).map (fun h => h.toolMessages.length) =
        (e.batchesFor id).map fun _ => 1 := List.map_congr_left single
    rw [ones, List.map_const', List.sum_replicate_nat, Nat.mul_one] at batches
    omega

theorem callsTwice_conserved :
    let s := (new defaultConfig).run callsTwice
    s.work = .idle ∧ s.engine.promptsFor "a" = 1 ∧ s.engine.unhandledFor "a" = 0 ∧
    s.engine.answersFor "a" = 2 ∧
    (s.engine.answersFor "a" : Int) =
      1 + ((s.engine.batchesFor "a").map fun h => (h.toolMessages.length : Int) - 1).sum -
        s.engine.droppedFor "a" := by
  intro s
  have counts : s.work = .idle ∧ s.engine.promptsFor "a" = 1 ∧ s.engine.unhandledFor "a" = 0 ∧
      s.engine.answersFor "a" = 2 := by decide +kernel
  obtain ⟨idle, asked, settled, answered⟩ := counts
  obtain ⟨-, -, -, -, -, answers, -⟩ := round_trips_conserved _ callsTwice "a" idle
  exact ⟨idle, asked, settled, answered, answers asked settled⟩

end Threads

end Parley
