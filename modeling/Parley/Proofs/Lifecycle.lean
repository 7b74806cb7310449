import Parley.Proofs.Answers

/-! The life of an engine, as its callers see it. Their calls alone tell in which phase it is,
however the loop goes on between them; and after a shutdown only the outbox is left to them. -/
namespace Parley

/-- What a move makes of the phase. -/
def Phase.after : Phase → Threads.Move → Phase
  | .fresh, .call .start => .running
  | .running, .call .shutdown => .stopped
  | phase, _ => phase

theorem Phase.after_of_ne (phase : Phase) {m : Threads.Move} (unlike : m ≠ .call .start)
    (unlike' : m ≠ .call .shutdown) : phase.after m = phase := by
  unfold Phase.after
  split
  · contradiction
  · contradiction
  · rfl

theorem Phase.after_eq_fresh_iff (phase : Phase) (m : Threads.Move) :
    phase.after m = .fresh ↔ phase = .fresh ∧ m ≠ .call .start := by
  unfold Phase.after
  split <;> simp_all

theorem Phase.after_eq_running_iff (phase : Phase) (m : Threads.Move) :
    phase.after m = .running ↔
      m ≠ .call .shutdown ∧ (phase = .running ∨ m = .call .start ∧ phase = .fresh) := by
  by_cases start : m = .call .start
  · subst start
    cases phase <;> simp [Phase.after]
  by_cases shutdown : m = .call .shutdown
  · subst shutdown
    cases phase <;> simp [Phase.after]
  · simp [after_of_ne, start, shutdown]

namespace Threads
open Engine

theorem play_concat (s : Threads) (moves : List Move) (m : Move) :
    s.play (moves ++ [m]) = (s.play moves).move m :=
  List.foldl_append

/-- The laws of all interleavings are laws of calls. -/
theorem play_run (s : Threads) (moves : List Move) : ∃ actions, s.run actions = s.play moves := by
  induction moves generalizing s with
  | nil => exact ⟨[], rfl⟩
  | cons m moves ih =>
      obtain ⟨rest, later⟩ := ih (s.move m)
      refine ⟨s.moveSteps m ++ rest, ?_⟩
      rw [run_append]
      exact later

theorem moveSteps_cases {s : Threads} {m : Move} {a : Action} (member : a ∈ s.moveSteps m) :
    (a = .launch → m = .call .start) ∧ (a = .shutdown → m = .call .shutdown) ∧
      (a = .poll → m = .call .poll) := by
  cases m with
  | call c =>
      cases c with
      | start =>
          cases phase : s.engine.phase with
          | fresh =>
              have steps : a = .launch ∨ a = .firstWake := by
                simpa [moveSteps, callSteps, phase] using member
              rcases steps with rfl | rfl <;> simp
          | running | stopped => simp [moveSteps, callSteps, phase] at member
      | submit id text =>
          have steps : a = .push id text ∨ a = .wake := by
            simpa [moveSteps, callSteps] using member
          rcases steps with rfl | rfl <;> simp
      | shutdown =>
          rcases List.mem_append.mp member with waits | last
          · simp [List.eq_of_mem_replicate waits]
          · simp_all
      | _ => simp_all [moveSteps, callSteps]
  | _ => simp_all [moveSteps]

theorem advance_left (s : Threads) : s.advance.work.left ≤ s.work.left - 1 := by
  unfold advance
  cases work : s.work with
  | idle => simp only [work, Work.left, Nat.zero_sub, Nat.le_refl]
  | woken => cases s.engine.takePrompt? <;> simp [Work.left]
  | taken p => cases s.engine.inbox.isEmpty <;> simp [Work.left]
  | rewaking p | receiving p | answering t m calls => simp [Work.left]
  | resolving t calls =>
      cases calls with
      | nil => simp [Work.left]
      | cons c calls =>
          rcases ran : s.engine.execute c with ⟨_ | m, engine⟩
          · simp only [ran, Work.left, List.length_cons]
            omega
          · simp only [ran, Work.left, List.length_cons]
            omega

theorem eq_idle_of_left {w : Work} (none : w.left = 0) : w = .idle := by
  cases w with
  | idle => rfl
  | _ => cases none

/-- Left to itself, the loop is idle after the steps that were left. -/
theorem run_advances_idle {s : Threads} {n : Nat} (enough : s.work.left ≤ n) :
    (s.run (List.replicate n .advance)).work = .idle := by
  induction n generalizing s with
  | zero => exact eq_idle_of_left (Nat.le_zero.mp enough)
  | succ n ih =>
      apply ih
      have less := s.advance_left
      change s.advance.work.left ≤ n
      omega

theorem Step.phase {s s' : Threads} {a : Action} (step : Step s a s') (unlike : a ≠ .launch)
    (unlike' : a ≠ .shutdown) : s'.engine.phase = s.engine.phase := by
  cases step <;> simp_all

theorem run_phase (s : Threads) {actions : List Action} (launches : .launch ∉ actions)
    (shutdowns : .shutdown ∉ actions) : (s.run actions).engine.phase = s.engine.phase := by
  refine run_keeps (fun s => s.engine.phase) ?_ s
  intro a member _ _ step
  exact step.phase (fun launch => launches (launch ▸ member))
    (fun shutdown => shutdowns (shutdown ▸ member))

/-- The state of a loop that was waited for. -/
def settled (s : Threads) : Threads :=
  s.run (List.replicate s.work.left .advance)

theorem settled_work (s : Threads) : s.settled.work = .idle :=
  run_advances_idle (Nat.le_refl _)

theorem settled_phase (s : Threads) : s.settled.engine.phase = s.engine.phase :=
  s.run_phase (by simp) (by simp)

theorem move_shutdown (s : Threads) :
    s.move (.call .shutdown) = { s.settled with engine := s.settled.engine.shutdown } := by
  have steps : s.move (.call .shutdown) = s.settled.step .shutdown := run_concat s _ _
  rw [steps]
  exact whenIdle_of_idle s.settled_work _

theorem move_phase (s : Threads) (m : Move) :
    (s.move m).engine.phase = s.engine.phase.after m := by
  by_cases start : m = .call .start
  · subst start
    cases phase : s.engine.phase <;>
      simp [move, moveSteps, callSteps, run, step, Phase.after, phase]
  by_cases shutdown : m = .call .shutdown
  · subst shutdown
    have settled := s.settled_phase
    rw [move_shutdown]
    cases phase : s.engine.phase <;> simp_all [Engine.shutdown, isRunning, Phase.after]
  rw [Phase.after_of_ne _ start shutdown]
  apply run_phase
  · exact fun launches => start ((moveSteps_cases launches).1 rfl)
  · exact fun shutdowns => shutdown ((moveSteps_cases shutdowns).2.1 rfl)

/-- The engine was started, and was not shut down since the first start. -/
def Up (moves : List Move) : Prop :=
  ∃ before during, moves = before ++ .call .start :: during ∧ .call .start ∉ before ∧
    .call .shutdown ∉ during

theorem up_concat (moves : List Move) (m : Move) :
    Up (moves ++ [m]) ↔
      m ≠ .call .shutdown ∧ (Up moves ∨ m = .call .start ∧ .call .start ∉ moves) := by
  constructor
  · rintro ⟨before, during, split, first, on⟩
    rcases List.eq_nil_or_concat during with rfl | ⟨during, last, rfl⟩
    · obtain ⟨rfl, same⟩ := List.append_inj' split rfl
      obtain rfl : m = .call .start := by simpa using same
      exact ⟨by simp, .inr ⟨rfl, first⟩⟩
    · have longer : moves ++ [m] = (before ++ .call .start :: during) ++ [last] := by
        simpa using split
      obtain ⟨rfl, same⟩ := List.append_inj' longer rfl
      obtain rfl : m = last := by simpa using same
      rw [List.concat_eq_append, List.mem_append, not_or] at on
      exact ⟨by simpa [eq_comm] using on.2, .inl ⟨before, during, rfl, first, on.1⟩⟩
  · rintro ⟨unlike, ⟨before, during, rfl, first, on⟩ | ⟨rfl, first⟩⟩
    · refine ⟨before, during ++ [m], by simp, first, ?_⟩
      simpa [on, eq_comm] using unlike
    · exact ⟨moves, [], rfl, first, by simp⟩

theorem play_fresh_iff (config : Config) (moves : List Move) :
    ((new config).play moves).engine.phase = .fresh ↔ .call .start ∉ moves := by
  induction moves using List.reverseRecOn with
  | nil => simp [play, new, Engine.new]
  | append_singleton moves m ih =>
      rw [play_concat, move_phase, Phase.after_eq_fresh_iff, ih]
      simp [eq_comm]

theorem play_running_iff (config : Config) (moves : List Move) :
    ((new config).play moves).engine.phase = .running ↔ Up moves := by
  induction moves using List.reverseRecOn with
  | nil => simp [play, new, Engine.new, Up]
  | append_singleton moves m ih =>
      rw [play_concat, move_phase, Phase.after_eq_running_iff, ih, play_fresh_iff, up_concat]

/-- The loop is gone, and nothing is left of what it was in the middle of. -/
structure Halted (s : Threads) : Prop where
  idle : s.work = .idle
  stopped : s.engine.phase = .stopped

/-- What only the loop changes is the same. -/
structure AtRest (e e' : Engine) : Prop where
  sent : e'.sent = e.sent
  taken : e'.taken = e.taken
  published : e'.published = e.published
  appended : e'.appended = e.appended
  history : e'.history = e.history

theorem Step.halted {s s' : Threads} {a : Action} (step : Step s a s') (h : Halted s) :
    Halted s' ∧ AtRest s.engine s'.engine := by
  have idle := h.idle
  have stopped := h.stopped
  cases step with
  | launch fresh =>
      rw [stopped] at fresh
      cases fresh
  | firstWake | push | wake | poll | register | abandon =>
      refine ⟨⟨idle, ?_⟩, ?_⟩
      · simpa using stopped
      · constructor <;> simp
  | _ => simp_all

theorem run_halted {s : Threads} (h : Halted s) (actions : List Action) :
    Halted (s.run actions) ∧ AtRest s.engine (s.run actions).engine := by
  refine run_preserves (P := fun s' => Halted s' ∧ AtRest s.engine s'.engine) ?_ ?_ actions
  · exact ⟨h, ⟨rfl, rfl, rfl, rfl, rfl⟩⟩
  · intro s' a s'' ⟨halted, rest⟩ step
    obtain ⟨still, more⟩ := step.halted halted
    refine ⟨still, ?_⟩
    constructor
    · exact more.sent.trans rest.sent
    · exact more.taken.trans rest.taken
    · exact more.published.trans rest.published
    · exact more.appended.trans rest.appended
    · exact more.history.trans rest.history

theorem move_shutdown_halted {s : Threads} (started : s.engine.phase ≠ .fresh) :
    Halted (s.move (.call .shutdown)) := by
  have phase := s.move_phase (.call .shutdown)
  constructor
  · rw [move_shutdown]
    exact s.settled_work
  · rw [phase]
    cases before : s.engine.phase with
    | fresh => contradiction
    | running | stopped => rfl

/-- A query fails for want of a loop only where there is none. -/
theorem reply_pending_iff {s : Threads} (busy : s.work ≠ .idle → s.engine.phase = .running) :
    s.reply .pending ≠ .error .notRunning ↔ s.engine.phase = .running := by
  by_cases idle : s.work = .idle
  · by_cases running : s.engine.phase = .running
    · simp [reply, idle, Engine.pending, isRunning, running]
    · simp [reply, idle, Engine.pending, isRunning, running]
  · have waits : s.reply .pending = .error .busy := by
      cases work : s.work <;> simp_all [reply]
    rw [waits]
    exact ⟨fun _ => busy idle, fun _ => by simp [Error.busy, Error.notRunning]⟩

theorem given_of_unpolled (s : Threads) {actions : List Action} (polls : .poll ∉ actions) :
    s.given actions = [] := by
  induction actions generalizing s with
  | nil => rfl
  | cons a actions ih =>
      rw [List.mem_cons, not_or] at polls
      obtain ⟨first, rest⟩ := polls
      rw [given, ih (s.step a) rest, List.append_nil]
      exact s.answersAt_of_ne (Ne.symm first)

theorem play_polled (s : Threads) (moves : List Move) :
    (s.play moves).engine.polled = s.engine.polled ++ s.handedOut moves := by
  induction moves generalizing s with
  | nil => exact (List.append_nil _).symm
  | cons m moves ih =>
      change ((s.move m).play moves).engine.polled = _
      rw [ih]
      rw [move, run_polled_given, List.append_assoc]
      congr 1
      by_cases poll : m = .call .poll
      · subst poll
        change ((s.reply .poll).toList ++ []) ++ (s.move (.call .poll)).handedOut moves = _
        rw [List.append_nil]
        rfl
      · rw [s.given_of_unpolled fun polls => poll ((moveSteps_cases polls).2.2 rfl), handedOut]
        · rfl
        · exact poll

/-- No answer is lost, handed out twice or overtaken. -/
theorem play_handedOut (config : Config) (moves : List Move) :
    (new config).handedOut moves ++ ((new config).play moves).engine.outbox.toList =
      ((new config).play moves).engine.published := by
  have polled := play_polled (new config) moves
  obtain ⟨actions, run⟩ := play_run (new config) moves
  rw [← run] at polled ⊢
  rw [← run_polled, polled]
  rfl

/-- An engine lives once. Whatever is called from whatever handle, and wherever the loop is
meanwhile: the first start brings it up and no other does anything, it is up until it is shut down
after that start, and from then on nothing is sent, taken, appended or published. The answers
published so far are handed out all the same, each once and in order. -/
theorem lifecycle_safe (config : Config) (moves : List Move) :
    let s := (new config).play moves
    (.call .start ∉ moves → s.reply .start = .ok ()) ∧
    (.call .start ∈ moves →
      s.reply .start = .error .alreadyStarted ∧ s.move (.call .start) = s) ∧
    (s.reply .isRunning = true ↔ Up moves) ∧
    (s.reply .pending ≠ .error .notRunning ↔ Up moves) ∧
    (new config).handedOut moves ++ s.engine.outbox.toList = s.engine.published ∧
    s.reply .poll = s.engine.published[((new config).handedOut moves).length]? ∧
    (.call .start ∈ moves → ∀ rest,
      AtRest (s.move (.call .shutdown)).engine ((s.move (.call .shutdown)).play rest).engine) := by
  intro s
  have fresh : s.engine.phase = .fresh ↔ .call .start ∉ moves := play_fresh_iff config moves
  have running : s.engine.phase = .running ↔ Up moves := play_running_iff config moves
  have answers : (new config).handedOut moves ++ s.engine.outbox.toList = s.engine.published :=
    play_handedOut config moves
  refine ⟨?_, ?_, ?_, ?_, answers, reply_next answers, ?_⟩
  · intro first
    have unstarted := fresh.mpr first
    simp [reply, Engine.start, unstarted]
  · intro again
    have started : s.engine.phase ≠ .fresh := fun unstarted => fresh.mp unstarted again
    cases phase : s.engine.phase with
    | fresh => contradiction
    | running | stopped =>
        simp [reply, Engine.start, move, moveSteps, callSteps, run, phase]
  · rw [← running]
    exact decide_eq_true_iff
  · rw [← running]
    obtain ⟨actions, run⟩ := play_run (new config) moves
    have accounted := run_accounted config actions
    rw [run] at accounted
    exact reply_pending_iff accounted.busy
  · intro started rest
    have halted : Halted (s.move (.call .shutdown)) :=
      move_shutdown_halted fun unstarted => fresh.mp unstarted started
    obtain ⟨actions, run⟩ := play_run (s.move (.call .shutdown)) rest
    rw [← run]
    exact (run_halted halted actions).2

end Threads

end Parley
