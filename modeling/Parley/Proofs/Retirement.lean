import Parley.Proofs.Sessions

/-! Sessions retire, whatever their ids. Where ids clash, one entry of the table stands for several
round trips and any of their responses retires it; but none outlives them all. -/
namespace Parley

namespace Engine

/-- Each session has a response to come under its id, or waits for a sweep. -/
def Covered (e : Engine) : Prop :=
  ∀ id ∈ e.sessionIds, (∃ t ∈ e.unhandled, t.id = id) ∨ id ∈ e.removals.toList

theorem Covered.kept {e e' : Engine} (h : e.Covered) (sessions : e'.sessions = e.sessions)
    (sent : e'.sent = e.sent) (handled : e'.handled = e.handled)
    (removals : e'.removals = e.removals) : e'.Covered := by
  unfold Covered sessionIds unhandled
  rw [sessions, sent, handled, removals]
  exact h

theorem Covered.openSession {e : Engine} (h : e.Covered)
    (fresh : ∀ t ∈ e.handled, t.number < e.opened) (id promptId : String) :
    (e.openSession id promptId).Covered := by
  have unhandled : (e.openSession id promptId).unhandled =
      e.unhandled ++ [e.nextTrip id promptId] := by
    have unlike := fun t member => Nat.ne_of_lt (fresh t member)
    simp_all [Engine.unhandled]
  intro other member
  rw [unhandled]
  -- The new session, or the one it replaced, is covered by the round trip that is sent with it.
  rcases Dict.mem_keys_insert member with rfl | older
  · exact .inl ⟨_, List.mem_append_right _ List.mem_cons_self, rfl⟩
  · rcases h other older with ⟨t, waiting, same⟩ | retired
    · exact .inl ⟨t, List.mem_append_left _ waiting, same⟩
    · exact .inr retired

theorem Covered.finish {e : Engine} (h : e.Covered) {t : RoundTrip}
    (alone : ∀ u ∈ e.sent, u.number = t.number → u = t) : (e.finish t).Covered := by
  have sent : (e.finish t).sent = e.sent := by simp
  have handled : (e.finish t).handled = e.handled ++ [t] := by simp
  intro id member
  rcases h id member with ⟨u, waiting, rfl⟩ | retired
  · obtain ⟨inside, unfinished⟩ := (mem_unhandled _).mp waiting
    -- Where `t` was what covered the id, the id waits for a sweep from now on.
    by_cases same : u.number = t.number
    · rw [alone u inside same]
      exact .inr (List.mem_append_right _ List.mem_cons_self)
    · refine .inl ⟨u, (mem_unhandled _).mpr ⟨sent ▸ inside, ?_⟩, rfl⟩
      rw [handled, List.map_append, List.mem_append, not_or]
      exact ⟨unfinished, fun last => same (List.mem_singleton.mp last)⟩
  · exact .inr (List.mem_append_left _ retired)

/-- A sweep leaves no session but those that have a response to come. -/
theorem Covered.sweep_sessionIds {e : Engine} (h : e.Covered) {id : String}
    (kept : id ∈ e.sweep.sessionIds) : ∃ t ∈ e.unhandled, t.id = id := by
  obtain ⟨entry, remains, rfl⟩ := List.mem_map.mp kept
  obtain ⟨inside, unretired⟩ := List.mem_filter.mp remains
  refine (h entry.1 (List.mem_map.mpr ⟨entry, inside, rfl⟩)).resolve_right ?_
  simpa [Queue.drain] using unretired

end Engine

namespace Threads
open Engine

theorem Step.covered {s s' : Threads} {a : Action} (step : Step s a s') (accounted : Accounted s)
    (h : s.engine.Covered) : s'.engine.Covered := by
  have fresh : ∀ t ∈ s.engine.handled, t.number < s.engine.opened :=
    fun t member => accounted.number_lt (accounted.handled_sent member)
  cases step with
  | sendPrompt p _ _ =>
      have appended : ((s.engine.detail [.draining p.id]).append (.user p.text)).Covered :=
        h.kept (by simp) (by simp) (by simp) (by simp)
      exact appended.openSession (by simpa using fresh) p.id p.id
  | feedBack t m calls _ =>
      let id := correlationId t.promptId ((s.engine.append m).sequence + 1)
      have appended : Covered ({ s.engine.append m with
          sequence := (s.engine.append m).sequence + 1 }.detail [.resubmitting id]) :=
        h.kept (by simp) (by simp) (by simp) (by simp)
      exact appended.openSession (by simpa using fresh) id t.promptId
  | finish t work =>
      have sent : t ∈ s.engine.sent := accounted.handling_sent (by simp [work])
      exact h.finish fun u member same => accounted.eq_of_number member sent same
  | sweep _ _ =>
      intro id kept
      obtain ⟨t, waiting, same⟩ := h.sweep_sessionIds kept
      have unhandled : s.engine.sweep.unhandled = s.engine.unhandled := by simp [unhandled]
      exact .inl ⟨t, unhandled ▸ waiting, same⟩
  | _ => exact h.kept (by simp) (by simp) (by simp) (by simp)

theorem run_covered (config : Config) (actions : List Action) :
    ((new config).run actions).engine.Covered := by
  refine run_induction (P := fun s => s.engine.Covered) ?_ ?_ actions
  · intro id member
    cases member
  · intro before a s' covered step
    exact step.covered (run_accounted config before) covered

theorem step_sweep {s : Threads} (idle : s.work = .idle) (running : s.engine.phase = .running) :
    (s.step .sweep).engine = s.engine.sweep := by
  have on : s.engine.isRunning = true := decide_eq_true running
  rw [step, whenIdle_of_idle idle, if_pos on]

/-- No session leaks, whatever the ids of the prompts. Each session has a response to come under its
id or waits for a sweep; so once all responses are handled, one sweep leaves nothing behind. -/
theorem no_session_leaks (config : Config) (actions : List Action) :
    let s := (new config).run actions
    let e := s.engine
    (∀ id ∈ e.sessionIds, id ∈ e.unhandled.map (·.id) ∨ id ∈ e.removals.toList) ∧
    (s.work = .idle → e.phase ≠ .stopped → e.unhandled.Perm e.inFlight) ∧
    (s.work = .idle → e.phase = .running → e.unhandled = [] →
      let swept := ((new config).run (actions ++ [.sweep])).engine
      swept.sessions = [] ∧ swept.removals.toList = [] ∧ swept.pending = .ok []) := by
  intro s e
  have covered : e.Covered := run_covered config actions
  refine ⟨?_, (run_accounted config actions).unhandled_perm, ?_⟩
  · intro id member
    simpa using covered id member
  · intro idle running settled swept
    have now : swept = e.sweep := by
      change ((new config).run (actions ++ [.sweep])).engine = _
      rw [run_concat]
      exact step_sweep idle running
    have none : e.sweep.sessionIds = [] := by
      refine List.eq_nil_iff_forall_not_mem.mpr fun id kept => ?_
      obtain ⟨t, waiting, -⟩ := covered.sweep_sessionIds kept
      rw [settled] at waiting
      cases waiting
    have gone : e.sweep.sessions = [] := List.map_eq_nil_iff.mp none
    rw [now]
    refine ⟨gone, rfl, ?_⟩
    rw [pending, gone]
    exact if_pos (decide_eq_true running)

/-- The session of the resubmission is retired early, and its own response retires nothing. -/
theorem borrowedId_retired :
    let settled := borrowedId ++ [.sweep, .deliver 2 (.error ⟨.timeout, "No reply."⟩), .advance]
    let e := ((new defaultConfig).run settled).engine
    let swept := ((new defaultConfig).run (settled ++ [.sweep])).engine
    e.handled.map (·.id) = ["a", "a#1", "a#1"] ∧ e.swept = ["a", "a#1"] ∧ e.sessionIds = [] ∧
    swept.sessions = [] ∧ swept.removals.toList = [] ∧ swept.pending = .ok [] := by
  intro settled
  have run : ((new defaultConfig).run settled).work = .idle ∧
      ((new defaultConfig).run settled).engine.phase = .running ∧
      ((new defaultConfig).run settled).engine.unhandled = [] ∧
      ((new defaultConfig).run settled).engine.handled.map (·.id) = ["a", "a#1", "a#1"] ∧
      ((new defaultConfig).run settled).engine.swept = ["a", "a#1"] ∧
      ((new defaultConfig).run settled).engine.sessionIds = [] := by
    decide +kernel
  obtain ⟨idle, running, none, handled, swept, sessions⟩ := run
  obtain ⟨-, -, retired⟩ := no_session_leaks defaultConfig settled
  exact ⟨handled, swept, sessions, retired idle running none⟩

end Threads

end Parley
