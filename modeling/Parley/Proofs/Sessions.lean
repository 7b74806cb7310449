import Parley.Proofs.Lineage
import Parley.Proofs.Maps
import Parley.Proofs.RoundTrips
import Parley.Proofs.Schedules

/-! The session table beside the round trips. A session is opened with its round trip and stays
until a sweep after the response; ids alone tell sessions apart. -/
namespace Parley

theorem ToolCall.invocation_notices (c : ToolCall) : .sessionReplaced ∉ c.invocation.2 := by
  unfold invocation
  split <;> simp

theorem Registry.execute_notices (r : Registry) (c : ToolCall) :
    .sessionReplaced ∉ (r.execute c).notices := by
  have early := c.invocation_notices
  unfold execute
  cases invoked : r.invoke c.invocation.1 with
  | error err => simpa [invoked] using early
  | ok outcome => cases success : outcome.1.result.isSuccess <;> simp [invoked, success, early]

theorem Registry.register_notices (r : Registry) (name : String) (definition : ToolDefinition)
    (tool : Tool) : .sessionReplaced ∉ (r.register name definition tool).2.1 := by
  unfold register
  split
  · simp
  · cases r.contains name <;> split <;> simp

namespace Engine

theorem Drops.other {result : Except Error Response} {n : Notice} (drops : Drops result n) :
    .sessionReplaced ≠ n := by
  cases drops <;> simp

/-- The ids of the sessions that are not retired yet. -/
def sessionIds (e : Engine) : List String :=
  e.sessions.map (·.1)

theorem sweep_sessionIds {e : Engine} {rest : List String} (distinct : e.sessionIds.Nodup)
    (parts : e.sessionIds.Perm (e.removals.toList ++ rest)) : e.sweep.sessionIds.Perm rest := by
  have kept : e.sweep.sessionIds = e.sessionIds.filter fun id => id ∉ e.removals.toList := by
    simp [sessionIds, Queue.drain, List.filter_map, Function.comp_def]
  rw [kept]
  simpa using filter_keys_perm (by simpa using distinct : (e.sessionIds.map id).Nodup) parts

end Engine

namespace Threads
open Engine

theorem Step.retired {s s' : Threads} {a : Action} (step : Step s a s')
    (h : s.engine.swept ++ s.engine.removals.toList = s.engine.handled.map (·.id)) :
    s'.engine.swept ++ s'.engine.removals.toList = s'.engine.handled.map (·.id) := by
  cases step with
  | finish t work => simpa [← List.append_assoc] using h
  | sweep => simpa [Queue.drain] using h
  | _ => simpa using h

theorem run_retired (config : Config) (actions : List Action) :
    ((new config).run actions).engine.swept ++
        ((new config).run actions).engine.removals.toList =
      ((new config).run actions).engine.handled.map (·.id) :=
  run_preserves
    (P := fun s => s.engine.swept ++ s.engine.removals.toList = s.engine.handled.map (·.id)) rfl
    (fun _ _ _ h step => step.retired h) actions

/-- Each session that was opened is in the table or was retired, and none was replaced. -/
structure Tabled (s : Threads) : Prop where
  sessions : (s.engine.swept ++ s.engine.sessionIds).Perm (s.engine.sent.map (·.id))
  notices : .sessionReplaced ∉ s.engine.notices

theorem Tabled.fresh {s : Threads} (h : Tabled s) {id : String}
    (distinct : (s.engine.sent.map (·.id) ++ [id]).Nodup) : id ∉ s.engine.sessionIds := by
  intro member
  rw [List.nodup_append] at distinct
  have sent := h.sessions.subset (List.mem_append_right _ member)
  exact distinct.2.2 id sent id (List.mem_singleton.mpr rfl) rfl

theorem Tabled.insert {s : Threads} (h : Tabled s) {id : String}
    (fresh : id ∉ s.engine.sessionIds) (promptId : String) :
    (s.engine.swept ++ (s.engine.sessions.insert id promptId).map (·.1)).Perm
      (s.engine.sent.map (·.id) ++ [id]) := by
  have opened := (Dict.keys_insert fresh promptId).append_left s.engine.swept
  have front := opened.trans List.perm_middle
  exact front.trans ((h.sessions.cons id).trans (List.perm_append_singleton id _).symm)

theorem Tabled.sessionIds {s : Threads} (h : Tabled s)
    (settled : s.engine.sent.Perm (s.engine.handled ++ s.engine.unhandled))
    (retired : s.engine.swept ++ s.engine.removals.toList = s.engine.handled.map (·.id)) :
    s.engine.sessionIds.Perm (s.engine.removals.toList ++ s.engine.unhandled.map (·.id)) := by
  have parts := h.sessions.trans (settled.map (·.id))
  rw [List.map_append, ← retired, List.append_assoc] at parts
  exact (List.perm_append_left_iff _).mp parts

theorem Tabled.once {s : Threads} (h : Tabled s)
    (distinct : (s.engine.sent.map (·.id)).Nodup) : s.engine.sessionIds.Nodup :=
  (List.nodup_append.mp (h.sessions.nodup_iff.mpr distinct)).2.1

theorem Tabled.sweep {s : Threads} (h : Tabled s)
    (settled : s.engine.sent.Perm (s.engine.handled ++ s.engine.unhandled))
    (retired : s.engine.swept ++ s.engine.removals.toList = s.engine.handled.map (·.id))
    (distinct : (s.engine.sent.map (·.id)).Nodup) :
    (s.engine.sweep.swept ++ s.engine.sweep.sessionIds).Perm (s.engine.sent.map (·.id)) := by
  have swept : s.engine.sweep.swept = s.engine.swept ++ s.engine.removals.toList := by
    simp [Queue.drain]
  have kept := sweep_sessionIds (h.once distinct) (h.sessionIds settled retired)
  have sent := settled.map (·.id)
  rw [List.map_append, ← retired] at sent
  rw [swept]
  exact (kept.append_left _).trans sent.symm

theorem Step.tabled {s s' : Threads} {a : Action} (step : Step s a s') (accounted : Accounted s)
    (retired : s.engine.swept ++ s.engine.removals.toList = s.engine.handled.map (·.id))
    (distinct : (s'.engine.sent.map (·.id)).Nodup) (h : Tabled s) : Tabled s' := by
  cases step with
  | sendPrompt p work text =>
      have fresh : p.id ∉ s.engine.sessionIds := h.fresh (by simpa using distinct)
      refine ⟨by simpa [sessionIds] using h.insert fresh p.id, ?_⟩
      simpa [Dict.find?_of_fresh fresh] using h.notices
  | feedBack t m calls work =>
      let id := correlationId t.promptId (s.engine.sequence + 1)
      have fresh : id ∉ s.engine.sessionIds := h.fresh (by simpa using distinct)
      refine ⟨by simpa [sessionIds] using h.insert fresh t.promptId, ?_⟩
      simpa [Dict.find?_of_fresh fresh, id] using h.notices
  | sweep idle running =>
      have settled := accounted.sent_perm idle
      have sent : (s.engine.sent.map (·.id)).Nodup := by simpa using distinct
      exact ⟨h.sweep settled retired sent, by simpa using h.notices⟩
  | register name definition tool =>
      refine ⟨by simpa [sessionIds] using h.sessions, ?_⟩
      have registered := s.engine.registry.register_notices name definition tool
      simpa [registered] using h.notices
  | execute t c calls m | skip t c calls =>
      refine ⟨by simpa [sessionIds] using h.sessions, ?_⟩
      have executed := s.engine.registry.execute_notices c
      cases message : (s.engine.registry.execute c).message <;>
        simpa [message, executed] using h.notices
  | drop t outcome n _ _ _ drops =>
      exact ⟨by simpa [sessionIds] using h.sessions, by simpa [drops.other] using h.notices⟩
  | _ => exact ⟨by simpa [sessionIds] using h.sessions, by simpa using h.notices⟩

theorem run_tabled (config : Config) (actions : List Action) :
    (((new config).run actions).engine.sent.map (·.id)).Nodup →
      Tabled ((new config).run actions) := by
  refine run_induction (P := fun s => (s.engine.sent.map (·.id)).Nodup → Tabled s) ?_ ?_ actions
  · exact fun _ => ⟨.refl _, by simp [new, Engine.new]⟩
  · intro before a s' tabled step distinct
    have earlier := ((tell_sublist Entry.sent? step.journal).map (·.id)).nodup distinct
    exact step.tabled (run_accounted config before) (run_retired config before) distinct
      (tabled earlier)

/-- The session table is exact when no two prompts share an id and no prompt has an id that ends in
a number, like the ids that are made. Between two events of the loop, its sessions are those whose
response has not been handled and those that wait for a sweep, each once; a sweep leaves only the
former. Each response that is handled leaves its session to one sweep, and no session ever replaces
another. -/
theorem session_table_exact (config : Config) (actions : List Action)
    (idle : ((new config).run actions).work = .idle)
    (distinct : (((new config).run actions).engine.submitted.map (·.id)).Nodup)
    (plain : ∀ p ∈ ((new config).run actions).engine.submitted, ¬EndsInNumber p.id) :
    let e := ((new config).run actions).engine
    (e.phase ≠ .stopped → e.unhandled.Perm e.inFlight) ∧
    (e.unhandled.map (·.id) ++ e.removals.toList).Nodup ∧
    e.sessionIds.Perm (e.unhandled.map (·.id) ++ e.removals.toList) ∧
    (e.phase = .running → e.pending = .ok e.sessionIds) ∧
    e.sweep.sessionIds.Perm (e.unhandled.map (·.id)) ∧
    e.sweep.removals.toList = [] ∧
    e.swept ++ e.removals.toList = e.handled.map (·.id) ∧
    .sessionReplaced ∉ e.notices := by
  intro e
  have accounted := run_accounted config actions
  have ids : (e.sent.map (·.id)).Nodup :=
    (run_descended config actions).sent_nodup (run_order config actions) distinct plain
  have retired : e.swept ++ e.removals.toList = e.handled.map (·.id) := run_retired config actions
  have tabled : Tabled ((new config).run actions) := run_tabled config actions ids
  have settled := accounted.sent_perm idle
  have table : e.sessionIds.Perm (e.removals.toList ++ e.unhandled.map (·.id)) :=
    tabled.sessionIds settled retired
  have once : e.sessionIds.Nodup := tabled.once ids
  have parts := table.trans List.perm_append_comm
  refine ⟨accounted.unhandled_perm idle, parts.nodup_iff.mp once, parts, ?_,
    sweep_sessionIds once table, rfl, retired, tabled.notices⟩
  intro running
  simp [pending, isRunning, running, sessionIds]

theorem callsTwice_session_table :
    let e := ((new defaultConfig).run callsTwice).engine
    e.submitted.map (·.id) = ["a"] ∧ e.handled.map (·.id) = ["a", "a#2", "a#1"] ∧
    e.sessionIds.Perm (e.unhandled.map (·.id) ++ e.removals.toList) := by
  have run : ((new defaultConfig).run callsTwice).work = .idle ∧
      ((new defaultConfig).run callsTwice).engine.submitted.map (·.id) = ["a"] ∧
      ((new defaultConfig).run callsTwice).engine.handled.map (·.id) = ["a", "a#2", "a#1"] := by
    decide +kernel
  obtain ⟨idle, submitted, handled⟩ := run
  have plain : ∀ p ∈ ((new defaultConfig).run callsTwice).engine.submitted,
      ¬EndsInNumber p.id := by
    intro p member ends
    obtain ⟨stem, digits, -, -, text⟩ := ends
    have inside := List.mem_map_of_mem (f := fun p : Prompt => p.id) member
    rw [submitted] at inside
    have mark : '#' ∈ p.id.toList := text ▸ List.mem_append_right _ List.mem_cons_self
    rw [List.mem_singleton.mp inside] at mark
    exact absurd mark (by simp)
  have distinct : (((new defaultConfig).run callsTwice).engine.submitted.map (·.id)).Nodup := by
    rw [submitted]
    simp
  have table := session_table_exact defaultConfig callsTwice idle distinct plain
  exact ⟨submitted, handled, table.2.2.1⟩

end Threads

end Parley
