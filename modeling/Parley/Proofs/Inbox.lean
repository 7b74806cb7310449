import Parley.Proofs.Steps

/-! Prompts on their way through the inbox. One wake may stand for any number of pushes, so that no
prompt is missed hangs on where each thread stands between its steps. -/
namespace Parley.Threads

/-- The prompt that an action puts into the inbox. -/
def Action.pushed? (config : Config) : Action → Option Prompt
  | .push id text => some ⟨id, text ++ config.promptSuffix.getD ""⟩
  | _ => none

/-- While prompts wait, a pass of the loop is still to look at them. -/
structure Watched (s : Threads) : Prop where
  /-- The loop never keeps a future, so that each wake is stored. -/
  waiters : s.engine.bridge.waiters = []
  watched : s.engine.inbox.toList ≠ [] →
    s.engine.bridge.permit = true ∨ 0 < s.submitting ∨ s.work.isDraining = true

theorem wake_bridge {e : Engine} (waiters : e.bridge.waiters = []) :
    e.wake.bridge = { permit := true, waiters := [] } := by
  simp [Engine.wake, Bridge.wake, waiters]

theorem new_watched (config : Config) : Watched (.new config) :=
  ⟨rfl, fun waiting => (waiting rfl).elim⟩

/-- Outside a drain pass the loop is not what the waiting prompts count on. -/
theorem Watched.kept {s s' : Threads} (h : Watched s) (undrained : s.work.isDraining = false)
    (inbox : s'.engine.inbox = s.engine.inbox) (bridge : s'.engine.bridge = s.engine.bridge)
    (submitting : s'.submitting = s.submitting) : Watched s' := by
  refine ⟨by rw [bridge, h.waiters], fun waiting => ?_⟩
  rw [inbox] at waiting
  rw [bridge, submitting]
  rcases h.watched waiting with permit | between | draining
  · exact .inl permit
  · exact .inr (.inl between)
  · rw [undrained] at draining
    cases draining

theorem Step.watched {s s' : Threads} {a : Action} (step : Step s a s') (h : Watched s) :
    Watched s' := by
  have woken := wake_bridge h.waiters
  cases step with
  | launch _ | poll a rest _ | register name definition tool => exact ⟨h.waiters, h.watched⟩
  | firstWake _ | wake _ | rewake p _ =>
      exact ⟨by rw [woken], fun _ => .inl (by rw [woken])⟩
  | push id text => exact ⟨h.waiters, fun _ => .inr (.inl (Nat.succ_pos _))⟩
  | takeWake _ _ _ | takePrompt p rest _ _ | morePrompts p _ _ =>
      exact ⟨h.waiters, fun _ => .inr (.inr rfl)⟩
  | noPrompt _ empty | lastPrompt p _ empty =>
      exact ⟨h.waiters, fun waiting => (waiting empty).elim⟩
  | shutdown work _ | sweep work _ | finish t work | dropPrompt p work _ | sendPrompt p work _
  | abandon t outcome work _ _ | drop t outcome n work _ _ _ | answer t outcome r m work _ _ _ _ _
  | batch t outcome r m work _ _ _ _ _ | execute t c calls m work _ | skip t c calls work _
  | feedBack t m calls work =>
      refine h.kept (congrArg Work.isDraining work) ?_ ?_ rfl <;> simp

theorem run_watched (config : Config) (actions : List Action) :
    Watched ((new config).run actions) :=
  run_preserves (new_watched config) (fun _ _ _ h step => step.watched h) actions

theorem Step.submitted {s s' : Threads} {a : Action} (step : Step s a s') :
    s'.engine.submitted = s.engine.submitted ++ (a.pushed? s.engine.config).toList := by
  cases step <;> simp [Action.pushed?]

theorem Step.order {s s' : Threads} {a : Action} (step : Step s a s')
    (h : s.engine.taken ++ s.engine.inbox.toList = s.engine.submitted) :
    s'.engine.taken ++ s'.engine.inbox.toList = s'.engine.submitted := by
  rw [step.submitted, ← h]
  cases step with
  | takePrompt p rest _ head => simp [Action.pushed?, head]
  | _ => simp [Action.pushed?]

theorem run_order (config : Config) (actions : List Action) :
    ((new config).run actions).engine.taken ++ ((new config).run actions).engine.inbox.toList =
      ((new config).run actions).engine.submitted :=
  run_preserves (P := fun s => s.engine.taken ++ s.engine.inbox.toList = s.engine.submitted) rfl
    (fun _ _ _ h step => step.order h) actions

theorem step_submitted (s : Threads) (a : Action) :
    (s.step a).engine.submitted = s.engine.submitted ++ (a.pushed? s.engine.config).toList := by
  rcases step_cases s a with same | step
  · cases a with
    | push id text =>
        have pushed := congrArg Threads.submitting same
        exact absurd pushed (Nat.succ_ne_self _)
    | _ =>
        rw [same]
        exact (List.append_nil _).symm
  · exact step.submitted

theorem run_submitted (s : Threads) (actions : List Action) :
    (s.run actions).engine.submitted =
      s.engine.submitted ++ actions.filterMap (Action.pushed? s.engine.config) := by
  induction actions generalizing s with
  | nil => exact (List.append_nil _).symm
  | cons a actions ih =>
      have config : (s.step a).engine.config = s.engine.config := run_config s [a]
      change ((s.step a).run actions).engine.submitted = _
      rw [ih, config, step_submitted, List.append_assoc]
      cases pushed : a.pushed? s.engine.config <;> simp [pushed]

/-- No prompt is stranded, lost, doubled or overtaken, however the steps of the threads interleave.
The inbox is non-empty only while a wake is stored, a submission is on its way to its wake, or the
loop has yet to look at the inbox again; and the prompts taken and those that wait are the prompts
pushed, in their order. -/
theorem no_prompt_stranded (config : Config) (actions : List Action) :
    let s := (new config).run actions
    (s.engine.inbox.toList ≠ [] →
      s.engine.bridge.permit = true ∨ 0 < s.submitting ∨ s.work.isDraining = true) ∧
    (s.work = .idle → s.engine.bridge.permit = false → s.submitting = 0 →
      s.engine.inbox.toList = []) ∧
    s.engine.taken ++ s.engine.inbox.toList = actions.filterMap (Action.pushed? config) := by
  intro s
  have watched : Watched s := run_watched config actions
  refine ⟨watched.watched, ?_, ?_⟩
  · intro idle permit submitting
    by_contra waiting
    rcases watched.watched waiting with stored | between | draining
    · rw [permit] at stored
      cases stored
    · omega
    · rw [idle] at draining
      cases draining
  · rw [run_order config actions, run_submitted]
    rfl

end Parley.Threads
