import Parley.Proofs.Steps

/-! The log and the journal. What an engine logs and what its journal notices are written by the same
operations, and differ by the details alone. -/
namespace Parley

namespace Engine

/-- The journal has noticed all that was logged, in order, but for the details. -/
def Noticed (e : Engine) : Prop :=
  e.notices = e.logged.reverse.filter fun n => !n.isDetail

theorem Drops.level {result : Except Error Response} {n : Notice} (drops : Drops result n) :
    n.level = .warn ∨ n.level = .error := by
  cases drops <;> simp [Notice.level]

theorem Drops.plain {result : Except Error Response} {n : Notice} (drops : Drops result n) :
    n.isDetail = false := by
  rw [Notice.isDetail]
  rcases drops.level with level | level <;> rw [level] <;> rfl

theorem arrival_details (t : RoundTrip) (result : Except Error Response) :
    ∀ d ∈ arrival t result, d.isDetail = true := by
  intro d member
  cases result with
  | error err =>
      obtain rfl := List.mem_singleton.mp member
      rfl
  | ok r =>
      rcases List.mem_append.mp member with first | usage
      · rcases List.mem_pair.mp first with rfl | rfl <;> rfl
      · obtain ⟨u, -, rfl⟩ := Option.map_eq_some_iff.mp (Option.mem_toList.mp usage)
        rfl

theorem passedOver_details (r : Response) : ∀ d ∈ passedOver r, d.isDetail = true := by
  intro d member
  unfold passedOver at member
  split at member
  · obtain rfl := List.mem_singleton.mp member
    rfl
  · cases member

theorem retirements_details (e : Engine) : ∀ d ∈ e.retirements, d.isDetail = true := by
  intro d member
  obtain ⟨id, -, retired⟩ := List.mem_filterMap.mp member
  obtain ⟨promptId, -, rfl⟩ := Option.map_eq_some_iff.mp retired
  rfl

namespace Noticed

variable {e e' : Engine}

theorem of_same (h : e.Noticed) (notices : e'.notices = e.notices) (logged : e'.logged = e.logged) :
    e'.Noticed := by
  rw [Noticed, notices, logged]
  exact h

theorem record (h : e.Noticed) {x : Entry} (silent : x.noticed? = none) : (e.record x).Noticed :=
  h.of_same (by simp only [notices, Engine.record, tell_cons, silent, Option.toList_none,
    List.append_nil]) rfl

theorem detail (h : e.Noticed) {details : List Notice} (all : ∀ d ∈ details, d.isDetail = true) :
    (e.detail details).Noticed := by
  have none : details.filter (fun n => !n.isDetail) = [] := by
    simpa [List.filter_eq_nil_iff] using all
  have same : tell Entry.noticed? e.journal = e.logged.reverse.filter fun n => !n.isDetail := h
  rw [Noticed]
  simp only [Engine.detail, Engine.notices, List.reverse_append, List.reverse_reverse,
    List.filter_append, none, List.append_nil]
  exact same

theorem report (h : e.Noticed) (reported : List Notice) : (e.report reported).Noticed := by
  have same : tell Entry.noticed? e.journal = e.logged.reverse.filter fun n => !n.isDetail := h
  rw [Noticed]
  simp only [Engine.report, Engine.notices, tell_append, tell_noticed, Entry.noticed?,
    List.filterMap_some, List.reverse_append, List.reverse_reverse, List.filter_append, same]

theorem notice (h : e.Noticed) {n : Notice} (plain : n.isDetail = false) : (e.notice n).Noticed := by
  have one := h.report [n]
  simpa [Engine.report, plain] using one

theorem append (h : e.Noticed) (m : Message) : (e.append m).Noticed := by
  have evicted : (e.detail (e.history.evicted.map fun old => .evicted old.role)).Noticed := by
    refine h.detail fun d member => ?_
    obtain ⟨old, -, rfl⟩ := List.mem_map.mp member
    rfl
  have kept : ({ e.detail (e.history.evicted.map fun old => .evicted old.role) with
      history := e.history.append m } : Engine).Noticed :=
    evicted.of_same rfl rfl
  exact kept.record rfl

theorem openSession (h : e.Noticed) (id promptId : String) :
    (e.openSession id promptId).Noticed := by
  have opened : ({ e with
      opened := e.opened + 1
      inFlight := e.inFlight ++ [e.nextTrip id promptId]
      sessions := e.sessions.insert id promptId } : Engine).Noticed :=
    h.of_same rfl rfl
  refine ((opened.record rfl).detail ?_).report _
  simp only [List.forall_mem_cons]
  exact ⟨rfl, rfl, rfl, List.forall_mem_nil _⟩

theorem receiving (h : e.Noticed) (t : RoundTrip) (result : Except Error Response) :
    (e.receiving t result).Noticed := by
  have landed : (e.landed t.number).Noticed := h.of_same rfl rfl
  exact (landed.record rfl).detail (arrival_details t result)

theorem choose (h : e.Noticed) (r : Response) (m : Message) : (e.choose r m).Noticed :=
  (h.detail (passedOver_details r)).append m

theorem publish (h : e.Noticed) (t : RoundTrip) (r : Response) : (e.publish t r).Noticed := by
  have out : ({ e.notice .publishing with
      outbox := e.outbox.push ⟨0, "OK", t.id, t.promptId, r⟩ } : Engine).Noticed :=
    (h.notice (n := .publishing) rfl).of_same rfl rfl
  exact out.record rfl

theorem feedBack (h : e.Noticed) (promptId : String) (m : Message) :
    (e.feedBack promptId m).Noticed := by
  have counted : ({ e.append m with sequence := (e.append m).sequence + 1 } : Engine).Noticed :=
    (h.append m).of_same rfl rfl
  refine (counted.detail ?_).openSession _ promptId
  exact List.forall_mem_singleton.mpr rfl

theorem execute (h : e.Noticed) (c : ToolCall) : (e.execute c).2.Noticed := by
  have run : ({ e with registry := (e.registry.execute c).registry } : Engine).Noticed :=
    h.of_same rfl rfl
  exact (run.record rfl).report _

theorem sweep (h : e.Noticed) : e.sweep.Noticed := by
  have kept : ({ e with
      sessions := e.sessions.filter fun s => !e.removals.drain.1.contains s.1
      removals := e.removals.drain.2 } : Engine).Noticed :=
    h.of_same rfl rfl
  exact (kept.record rfl).detail e.retirements_details

end Noticed

end Engine

namespace Threads
open Engine

theorem Step.noticed {s s' : Threads} {a : Action} (step : Step s a s') (h : s.engine.Noticed) :
    s'.engine.Noticed := by
  cases step with
  | launch =>
      have entered : (s.engine.detail [.opened (.eventLoop loopLabel), .loopEntered]).Noticed := by
        refine h.detail ?_
        simp only [List.forall_mem_cons]
        exact ⟨rfl, rfl, List.forall_mem_nil _⟩
      exact (entered.notice (n := .loopStarted) rfl).of_same rfl rfl
  | firstWake | wake | rewake | abandon | takeWake => exact h.of_same rfl rfl
  | lastPrompt | morePrompts => exact h
  | poll | takePrompt | finish => exact h.of_same (by simp) rfl
  | push id text =>
      have waiting : ({ s.engine with
          inbox := s.engine.inbox.push (s.engine.prompt id text) } : Engine).Noticed :=
        h.of_same rfl rfl
      exact (waiting.record rfl).detail (List.forall_mem_singleton.mpr rfl)
  | register name definition tool =>
      have registered : ({ s.engine with
          registry := (s.engine.registry.register name definition tool).2.2 } : Engine).Noticed :=
        h.of_same rfl rfl
      exact registered.report _
  | shutdown =>
      have killed : ((s.engine.notice .loopStopping).detail [.loopKilled, .loopLeft]).Noticed := by
        refine (h.notice rfl).detail ?_
        simp only [List.forall_mem_cons]
        exact ⟨rfl, rfl, List.forall_mem_nil _⟩
      exact killed.of_same rfl rfl
  | noPrompt => exact h.detail (List.forall_mem_singleton.mpr rfl)
  | dropPrompt p => exact h.notice rfl
  | sendPrompt p =>
      exact ((h.detail (List.forall_mem_singleton.mpr rfl)).append _).openSession p.id p.id
  | drop t outcome n idle running flying drops =>
      exact (h.receiving t _).notice drops.plain
  | answer t outcome r m =>
      exact ((h.receiving t _).choose r m).publish t r
  | batch t outcome r m =>
      exact ((h.receiving t _).choose r m).detail (List.forall_mem_singleton.mpr rfl)
  | execute t c | skip t c => exact h.execute c
  | feedBack t m => exact h.feedBack t.promptId m
  | sweep => exact h.sweep

/-- Throughout a run the warnings, errors and informations that the journal notices are those of the
log. -/
theorem run_noticed (config : Config) (actions : List Action) :
    ((new config).run actions).engine.Noticed := by
  have built : (new config).engine.Noticed := rfl
  exact run_preserves (P := fun s => s.engine.Noticed) built
    (fun _ _ _ h step => step.noticed h) actions

end Threads

end Parley
