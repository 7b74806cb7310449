import Parley.Proofs.Steps
import Parley.Transport.Preset

/-! Events are schedules: what an event does at once, the threads can do step by step without being
disturbed. So a law of all interleavings is a law of `Engine.run`. -/
namespace Parley.Threads
open Engine

/-- The loop is idle and no caller is between two steps. -/
def still (engine : Engine) : Threads :=
  { engine }

/-- A drain pass that nothing comes between. -/
theorem run_drain (e : Engine) :
    ({ engine := e, work := .woken } : Threads).run (List.replicate 4 .advance) =
      still e.drain := by
  cases taken : e.takePrompt? with
  | none => simp [run, step, advance, still, drain, List.replicate, taken]
  | some front =>
      obtain ⟨p, rest⟩ := front
      cases empty : rest.inbox.isEmpty with
      | true =>
          simp [run, step, advance, still, drain, rewake, List.replicate, taken, empty]
      | false =>
          simp [run, step, advance, still, drain, rewake, List.replicate, taken, empty]

theorem run_turn (e : Engine) :
    ∃ actions, (still e).run actions = still e.turn := by
  by_cases running : e.phase = .running
  · cases permit : e.bridge.permit with
    | false =>
        exact ⟨[], by simp [run, turn, isRunning, running, takeWake?, Bridge.poll, permit]⟩
    | true =>
        refine ⟨.takeWake :: List.replicate 4 .advance, ?_⟩
        have drained := run_drain { e with bridge := { e.bridge with permit := false } }
        simpa [run, step, whenIdle, still, turn, isRunning, running, takeWake?, Bridge.poll, permit]
          using drained
  · exact ⟨[], by simp [run, turn, isRunning, running]⟩

/-- A batch that nothing comes between. -/
theorem run_batch (e : Engine) (t : RoundTrip) (calls : List ToolCall) :
    ∃ actions, ({ engine := e, work := .resolving t calls } : Threads).run actions =
      still ((calls.foldl (resolveCall t.promptId) e).finish t) := by
  induction calls generalizing e with
  | nil => exact ⟨[.advance], rfl⟩
  | cons c calls ih =>
      obtain ⟨actions, rest⟩ := ih (resolveCall t.promptId e c)
      rcases ran : e.execute c with ⟨_ | m, called⟩
      · refine ⟨.advance :: actions, ?_⟩
        simpa only [run, List.foldl_cons, step, advance, resolveCall, ran] using rest
      · refine ⟨.advance :: .advance :: actions, ?_⟩
        simpa only [run, List.foldl_cons, step, advance, resolveCall, ran] using rest

theorem run_deliver (e : Engine) (n : Nat) (outcome : Transport.Outcome) :
    ∃ actions, (still e).run actions = still (e.deliver n outcome).2 := by
  cases landed : e.land? n with
  | none => exact ⟨[], by simp [run, Engine.deliver, landed]⟩
  | some found =>
      obtain ⟨t, rest⟩ := found
      by_cases running : e.phase = .running
      · obtain ⟨actions, batch⟩ := run_batch (rest.accept t (Transport.classify outcome)).1 t
          (rest.accept t (Transport.classify outcome)).2
        refine ⟨.deliver n outcome :: actions, ?_⟩
        simpa [run, step, whenIdle, Threads.deliver, still, Engine.deliver, isRunning, running,
          landed, complete] using batch
      · refine ⟨[.deliver n outcome], ?_⟩
        simp [run, step, whenIdle, Threads.deliver, still, Engine.deliver, isRunning, running,
          landed]

theorem run_event (e : Engine) (x : Event) :
    ∃ actions, (still e).run actions = still (e.step x) := by
  cases x with
  | start =>
      cases phase : e.phase with
      | fresh =>
          exact ⟨[.launch, .firstWake], by simp [run, step, still, Engine.step, start, phase]⟩
      | running => exact ⟨[], by simp [run, Engine.step, start, phase]⟩
      | stopped => exact ⟨[], by simp [run, Engine.step, start, phase]⟩
  | submit id text => exact ⟨[.push id text, .wake], rfl⟩
  | turn => exact run_turn e
  | deliver n outcome => exact run_deliver e n outcome
  | sweep => exact ⟨[.sweep], by by_cases running : e.isRunning = true <;>
      simp [run, step, whenIdle, still, Engine.step, running]⟩
  | poll => exact ⟨[.poll], rfl⟩
  | register name definition tool => exact ⟨[.register name definition tool], rfl⟩
  | shutdown => exact ⟨[.shutdown], rfl⟩

/-- Every run of the engine is an interleaving of the threads. -/
theorem run_events (e : Engine) (events : List Event) :
    ∃ actions, (still e).run actions = still (e.run events) := by
  induction events generalizing e with
  | nil => exact ⟨[], rfl⟩
  | cons x events ih =>
      obtain ⟨first, one⟩ := run_event e x
      obtain ⟨rest, others⟩ := ih (e.step x)
      refine ⟨first ++ rest, ?_⟩
      rw [run_append, one, others]
      rfl

def defaultConfig : Config :=
  Settings.toConfig { apiKey := "key" }

/-- A prompt whose response calls a tool twice; the second result is answered before the first. -/
def callsTwice : List Action :=
  let call (id : String) : ToolCall := ⟨id, ToolCall.functionKind, "clock", ""⟩
  let reply (p : Preset) : Transport.Outcome := .ok ⟨200, none, p.body⟩
  let clock : ToolDefinition := { name := "clock", description := "Tells the time." }
  [.register "clock" clock (.pure fun _ => .failure "No time."), .launch, .push "a" "Hello.", .wake,
    .takeWake, .advance, .advance, .advance,
    .deliver 0 (reply (.toolCalls [call "first", call "second"])),
    .advance, .advance, .advance, .advance, .advance,
    .deliver 2 (reply (.assistant "Second.")), .advance,
    .deliver 1 (reply (.assistant "First.")), .advance]

/-- Two prompts, the second under the id that is made for the result of a call of the first. Its own
response comes after that id is made. -/
def borrowedId : List Action :=
  let reply (p : Preset) : Transport.Outcome := .ok ⟨200, none, p.body⟩
  let clock : ToolDefinition := { name := "clock", description := "Tells the time." }
  [.register "clock" clock (.pure fun _ => .failure "No time."), .launch, .push "a" "Hello.", .wake,
    .push "a#1" "Hello again.", .wake,
    .takeWake, .advance, .advance, .advance, .advance, .takeWake, .advance, .advance, .advance,
    .deliver 0 (reply (.toolCalls [⟨"first", ToolCall.functionKind, "clock", ""⟩])),
    .advance, .advance, .advance,
    .deliver 1 (reply (.assistant "Second.")), .advance]

end Parley.Threads
