import Parley.Proofs.Executions
import Parley.Proofs.Lifecycle
import Parley.Proofs.Schedules

/-! What goes wrong in a run is absorbed where it happens, and the log of the loop is its only
trace: it tells of each anomaly once and in order, of each answer, and of nothing else. -/
namespace Parley

/-- A tool that reports nothing on its own account. -/
def Tool.Quiet (tool : Tool) : Prop :=
  ∀ served call, (tool served call).reports = []

inductive Anomaly where
  | failed (e : Error)
  | noChoices
  | noAssistant (choices : Nat)
  | badArguments (e : Error)
  | unknownTool (c : ToolCall)
  | toolFailed (r : ToolResult)
  | emptyPrompt (id : String)
  /-- A session was opened under the id of a pending one. -/
  | replaced

namespace Anomaly

def level : Anomaly → Level
  | .failed _ | .noChoices | .unknownTool _ => .error
  | .noAssistant _ | .badArguments _ | .toolFailed _ | .emptyPrompt _ | .replaced => .warn

/-- The status of a round trip that came to nothing. -/
def status : Anomaly → Option Int
  | .failed e => some e.statusCode
  | .noChoices => some (-3)
  | _ => none

def notice : Anomaly → Notice
  | .failed e => .roundTripFailed e
  | .noChoices => .noChoices
  | .noAssistant choices => .noAssistant choices
  | .badArguments e => .badArguments e
  | .unknownTool c => .callSkipped c.id (.unknownTool c.name)
  | .toolFailed r => .toolFailed r.error
  | .emptyPrompt id => .emptyPrompt id
  | .replaced => .sessionReplaced

theorem notice_level (a : Anomaly) : a.notice.level = a.level := by
  cases a <;> rfl

theorem notice_status (a : Anomaly) : a.notice.status = a.status := by
  cases a <;> rfl

theorem level_ne_info (a : Anomaly) : a.level ≠ .info := by
  cases a <;> simp [level]

theorem filter_wrong (wrong : List Anomaly) (answers : List Answer) :
    (wrong.map notice ++ answers.map fun _ => Notice.publishing).filter
      (fun n => n.level ≠ .info) = wrong.map notice := by
  have kept : (wrong.map notice).filter (fun n => n.level ≠ .info) = wrong.map notice := by
    simp [List.filter_map, Function.comp_def, notice_level, level_ne_info]
  have left : (answers.map fun _ => Notice.publishing).filter (fun n => n.level ≠ .info) = [] := by
    simp [Notice.level]
  rw [List.filter_append, kept, left, List.append_nil]

theorem filter_answers (wrong : List Anomaly) (answers : List Answer) :
    (wrong.map notice ++ answers.map fun _ => Notice.publishing).filter
      (fun n => n.level = .info) = answers.map fun _ => .publishing := by
  have left : (wrong.map notice).filter (fun n => n.level = .info) = [] := by
    simp [notice_level, level_ne_info]
  have kept : (answers.map fun _ => Notice.publishing).filter (fun n => n.level = .info) =
      answers.map fun _ => .publishing := by
    simp [Notice.level]
  rw [List.filter_append, left, kept, List.nil_append]

def ofResult : Except Error Response → List Anomaly
  | .error e => [.failed e]
  | .ok r =>
    if r.choices = [] then [.noChoices]
    else if ∃ choice ∈ r.choices, choice.message.role = .assistant then []
    else [.noAssistant r.choices.length]

def ofArguments (raw : String) : List Anomaly :=
  match Arguments.parse raw with
  | .ok _ => []
  | .error e => [.badArguments e]

/-- A call is made even if its arguments cannot be read, so two things may go wrong with it. -/
def ofCall (registry : Registry) (c : ToolCall) : List Anomaly :=
  ofArguments c.arguments ++
    match registry.find? c.name with
    | none => [.unknownTool c]
    | some t =>
      let result := (t.tool t.served c.asked).result
      if result.code = 0 then [] else [.toolFailed result]

def ofSession (sessions : Dict String) (id : String) : List Anomaly :=
  if (sessions.find? id).isSome then [.replaced] else []

end Anomaly

namespace Registry

def Quiet (r : Registry) : Prop :=
  ∀ t ∈ r.tools, t.tool.Quiet

theorem Quiet.put {r : Registry} (quiet : r.Quiet) {t : RegisteredTool} (tool : t.tool.Quiet) :
    (r.put t).Quiet := by
  intro u member
  rcases mem_put member with rfl | older
  · exact tool
  · exact quiet u older

theorem Quiet.register {r : Registry} (quiet : r.Quiet) (name : String)
    (definition : ToolDefinition) {tool : Tool} (silent : tool.Quiet) :
    (r.register name definition tool).2.2.Quiet := by
  unfold Registry.register
  split
  · exact quiet
  · exact quiet.put silent

theorem Quiet.execute {r : Registry} (quiet : r.Quiet) (c : ToolCall) :
    (r.execute c).registry.Quiet := by
  cases found : r.find? c.name with
  | none =>
      rw [execute_unregistered found]
      exact quiet
  | some t =>
      rw [execute_registered found]
      exact quiet.put (quiet t (mem_of_find? found))

end Registry

theorem Anomaly.ofArguments_notices (c : ToolCall) :
    (ofArguments c.arguments).map notice = c.invocation.2 := by
  unfold ToolCall.invocation ofArguments
  cases Arguments.parse c.arguments <;> rfl

theorem Response.assistantMessage?_eq_none_iff (r : Response) :
    r.assistantMessage? = none ↔ ¬∃ choice ∈ r.choices, choice.message.role = .assistant := by
  simp [assistantMessage?]

theorem Anomaly.ofResult_answered {r : Response} {m : Message}
    (found : r.assistantMessage? = some m) : ofResult (.ok r) = [] := by
  have answered : ∃ choice ∈ r.choices, choice.message.role = .assistant := by
    by_contra none
    rw [← r.assistantMessage?_eq_none_iff, found] at none
    cases none
  rw [ofResult, if_neg (Response.choices_ne_nil found), if_pos answered]

theorem Engine.Drops.anomaly {result : Except Error Response} {n : Notice}
    (drops : Engine.Drops result n) : (Anomaly.ofResult result).map Anomaly.notice = [n] := by
  cases drops with
  | failed err => rfl
  | noChoices none => simp [Anomaly.ofResult, none, Anomaly.notice]
  | @noAssistant r some none =>
      rw [r.assistantMessage?_eq_none_iff] at none
      rw [Anomaly.ofResult, if_neg some, if_neg none]
      rfl

/-- What is reported of a call is what goes wrong with it. -/
theorem Engine.execute_notices (e : Engine) (quiet : e.registry.Quiet) (c : ToolCall) :
    (e.execute c).2.notices =
      e.notices ++ (Anomaly.ofCall e.registry c).map Anomaly.notice := by
  have plain := c.invocation_plain
  unfold Anomaly.ofCall
  rw [List.map_append, Anomaly.ofArguments_notices]
  cases found : e.registry.find? c.name with
  | none => simpa [Registry.execute_unregistered found, Anomaly.notice] using plain
  | some t =>
      have silent := quiet t (Registry.mem_of_find? found) t.served c.asked
      by_cases success : (t.tool t.served c.asked).result.code = 0
      · simpa [Registry.execute_registered found, silent, success, ToolResult.isSuccess] using plain
      · simpa [Registry.execute_registered found, silent, success, ToolResult.isSuccess,
          Anomaly.notice] using plain

namespace Threads
open Engine

/-- The actions of the loop's own thread. -/
def Action.byLoop : Action → Bool
  | .takeWake | .deliver _ _ | .sweep | .advance => true
  | _ => false

/-- What goes wrong when the action is taken. -/
def absorbed (s : Threads) : Action → List Anomaly
  | .deliver n outcome =>
    if s.work = .idle ∧ s.engine.phase = .running ∧ ∃ t ∈ s.engine.inFlight, t.number = n then
      Anomaly.ofResult (Transport.classify outcome)
    else []
  | .advance =>
    match s.work with
    | .receiving p =>
      if p.text = "" then [.emptyPrompt p.id] else Anomaly.ofSession s.engine.sessions p.id
    | .resolving _ (c :: _) => Anomaly.ofCall s.engine.registry c
    | .answering t _ _ =>
      Anomaly.ofSession s.engine.sessions (correlationId t.promptId (s.engine.sequence + 1))
    | _ => []
  | _ => []

/-- What goes wrong in a run, in order. -/
def anomalies : Threads → List Action → List Anomaly
  | _, [] => []
  | s, a :: actions => s.absorbed a ++ (s.step a).anomalies actions

/-- What the loop reports when the action is taken. -/
def reported (s : Threads) (a : Action) : List Notice :=
  if a.byLoop then (s.step a).engine.notices.drop s.engine.notices.length else []

/-- What the loop reports in a run, in order. -/
def log : Threads → List Action → List Notice
  | _, [] => []
  | s, a :: actions => s.reported a ++ (s.step a).log actions

/-- A response is taken in where it can be. -/
theorem absorbed_deliver {s : Threads} {t : RoundTrip} (idle : s.work = .idle)
    (running : s.engine.phase = .running) (flying : t ∈ s.engine.inFlight)
    (outcome : Transport.Outcome) :
    s.absorbed (.deliver t.number outcome) = Anomaly.ofResult (Transport.classify outcome) :=
  if_pos ⟨idle, running, t, flying, rfl⟩

theorem Step.reported {s s' : Threads} {a : Action} (step : Step s a s') (loop : a.byLoop = true)
    (quiet : s.engine.registry.Quiet) :
    ∃ answers, s'.engine.published = s.engine.published ++ answers ∧
      s'.engine.notices = s.engine.notices ++
        ((s.absorbed a).map Anomaly.notice ++ answers.map fun _ => .publishing) := by
  cases step with
  | launch | firstWake | push | wake | poll | register | shutdown => cases loop
  | takeWake | sweep => exact ⟨[], by simp, by simp [absorbed]⟩
  | abandon t outcome idle gone flying => exact ⟨[], by simp, by simp [absorbed, gone]⟩
  | noPrompt work | takePrompt p rest work | lastPrompt p work | morePrompts p work | rewake p work
  | finish t work => exact ⟨[], by simp, by simp [absorbed, work]⟩
  | dropPrompt p work text =>
      exact ⟨[], by simp, by simp [absorbed, work, text, Anomaly.notice]⟩
  | sendPrompt p work text =>
      refine ⟨[], by simp, ?_⟩
      cases held : s.engine.sessions.find? p.id <;>
        simp [absorbed, work, text, Anomaly.ofSession, held, Anomaly.notice]
  | feedBack t m calls work =>
      let id := correlationId t.promptId (s.engine.sequence + 1)
      refine ⟨[], by simp, ?_⟩
      cases held : s.engine.sessions.find? id <;>
        simp_all [absorbed, id, Anomaly.ofSession, Anomaly.notice]
  | drop t outcome n idle running flying drops =>
      refine ⟨[], by simp, ?_⟩
      rw [absorbed_deliver idle running flying, drops.anomaly]
      simp
  | answer t outcome r m idle running flying classified found calls =>
      refine ⟨[⟨0, "OK", t.id, t.promptId, r⟩], by simp, ?_⟩
      rw [absorbed_deliver idle running flying, classified, Anomaly.ofResult_answered found]
      simp
  | batch t outcome r m idle running flying classified found calls =>
      refine ⟨[], by simp, ?_⟩
      rw [absorbed_deliver idle running flying, classified, Anomaly.ofResult_answered found]
      simp
  | execute t c calls m work ran | skip t c calls work ran =>
      -- A call that comes to nothing is reported like any other: as one to an unknown tool.
      refine ⟨[], by simp, ?_⟩
      have reported := s.engine.execute_notices quiet c
      simpa [absorbed, work] using reported

theorem deliver_busy {s : Threads} {t : RoundTrip} (idle : s.work = .idle)
    (running : s.engine.phase = .running) (flying : t ∈ s.engine.inFlight)
    (outcome : Transport.Outcome) : (s.step (.deliver t.number outcome)).work ≠ .idle := by
  obtain ⟨u, -, -, found⟩ := find_number flying
  simp [step, whenIdle_of_idle idle, deliver, land?, found, isRunning, running]

/-- Nothing goes wrong with an action that is not possible. -/
theorem absorbed_of_same {s : Threads} {a : Action} (same : s.step a = s) :
    s.absorbed a = [] := by
  cases a with
  | deliver n outcome =>
      refine if_neg ?_
      rintro ⟨idle, running, t, flying, rfl⟩
      have busy := deliver_busy idle running flying outcome
      rw [same] at busy
      exact busy idle
  | advance =>
      have less := s.advance_left
      have stuck : s.advance = s := same
      rw [stuck] at less
      have idle : s.work = .idle := eq_idle_of_left (by omega)
      simp [absorbed, idle]
  | _ => rfl

theorem Step.unpublished {s s' : Threads} {a : Action} (step : Step s a s')
    (caller : a.byLoop = false) : s'.engine.published = s.engine.published := by
  cases step with
  | launch | firstWake | push | wake | poll | register | shutdown => simp
  | _ => cases caller

theorem step_reported (s : Threads) (a : Action) (quiet : s.engine.registry.Quiet) :
    ∃ answers, (s.step a).engine.published = s.engine.published ++ answers ∧
      s.reported a =
        (s.absorbed a).map Anomaly.notice ++ answers.map fun _ => .publishing := by
  unfold reported
  cases loop : a.byLoop with
  | true =>
      rcases step_cases s a with same | step
      · exact ⟨[], by simp [same], by simp [same, absorbed_of_same same]⟩
      · obtain ⟨answers, published, notices⟩ := step.reported loop quiet
        refine ⟨answers, published, ?_⟩
        rw [notices, if_pos rfl, List.drop_left]
  | false =>
      have nothing : s.absorbed a = [] := by
        cases a with
        | deliver | advance => cases loop
        | _ => rfl
      refine ⟨[], ?_, by simp [nothing]⟩
      rw [List.append_nil]
      rcases step_cases s a with same | step
      · rw [same]
      · exact step.unpublished loop

theorem Step.quiet {s s' : Threads} {a : Action} (step : Step s a s')
    (tools : ∀ name definition tool, a = .register name definition tool → tool.Quiet)
    (h : s.engine.registry.Quiet) : s'.engine.registry.Quiet := by
  cases step with
  | register name definition tool =>
      simpa using h.register name definition (tools name definition tool rfl)
  | execute t c | skip t c => simpa using h.execute c
  | _ => simpa using h

theorem run_log (s : Threads) {actions : List Action} (quiet : s.engine.registry.Quiet)
    (tools : ∀ name definition tool, .register name definition tool ∈ actions → tool.Quiet) :
    (s.log actions).filter (fun n => n.level ≠ .info) =
        (s.anomalies actions).map Anomaly.notice ∧
      s.engine.published.map (fun _ => .publishing) ++
          (s.log actions).filter (fun n => n.level = .info) =
        (s.run actions).engine.published.map fun _ => .publishing := by
  induction actions generalizing s with
  | nil => exact ⟨rfl, List.append_nil _⟩
  | cons a actions ih =>
      have still : (s.step a).engine.registry.Quiet := by
        rcases step_cases s a with same | step
        · rw [same]
          exact quiet
        · refine step.quiet ?_ quiet
          rintro name definition tool rfl
          exact tools name definition tool List.mem_cons_self
      obtain ⟨wrong, right⟩ := ih (s.step a) still fun name definition tool later =>
        tools name definition tool (List.mem_cons_of_mem _ later)
      obtain ⟨answers, published, reported⟩ := s.step_reported a quiet
      rw [published, List.map_append, List.append_assoc] at right
      rw [log, reported]
      constructor
      · rw [List.filter_append, Anomaly.filter_wrong, wrong, anomalies, List.map_append]
      · rw [List.filter_append, Anomaly.filter_answers]
        exact right

/-- Where the tools keep silent, the warnings and errors of the loop are what went wrong, each once
and in order, and everything else that it reports is one line for each answer. -/
theorem anomalies_logged (config : Config) (actions : List Action)
    (tools : ∀ name definition tool, .register name definition tool ∈ actions → tool.Quiet) :
    ((new config).log actions).filter (fun n => n.level ≠ .info) =
        ((new config).anomalies actions).map Anomaly.notice ∧
      ((new config).log actions).filter (fun n => n.level = .info) =
        ((new config).run actions).engine.published.map (fun _ => .publishing) ∧
      ∀ a : Anomaly, a.notice.level = a.level ∧ a.notice.status = a.status := by
  have quiet : (new config).engine.registry.Quiet := by
    intro t member
    cases member
  obtain ⟨wrong, right⟩ := (new config).run_log quiet tools
  refine ⟨wrong, right, ?_⟩
  intro a
  exact ⟨a.notice_level, a.notice_status⟩

/-- A prompt without a text, one whose batch has two calls that cannot be read, of a failing tool
and of an unknown one, a second prompt under its id, an error, and an answer. -/
def troubled : List Action :=
  let call (name arguments : String) : ToolCall := ⟨name, ToolCall.functionKind, name, arguments⟩
  let reply (p : Preset) : Transport.Outcome := .ok ⟨200, none, p.body⟩
  let clock : ToolDefinition := { name := "clock", description := "Tells the time." }
  [.register "clock" clock (.pure fun _ => .failure "No time."), .launch, .push "b" "", .wake,
    .takeWake, .advance, .advance, .advance, .push "a" "Hello.", .wake,
    .takeWake, .advance, .advance, .advance,
    .deliver 0 (reply (.toolCalls [call "clock" "here", call "calendar" "now"])),
    .advance, .advance, .advance, .advance, .push "a" "Hello again.", .wake,
    .takeWake, .advance, .advance, .advance,
    .deliver 1 (.error ⟨.timeout, "No reply."⟩), .advance,
    .deliver 2 (reply (.assistant "Hello.")), .advance]

theorem troubled_logged :
    (∀ name definition tool, .register name definition tool ∈ troubled → tool.Quiet) ∧
    ((new defaultConfig).log troubled).map (fun n => (n.level, n.status)) =
      [(.warn, none), (.warn, none), (.warn, none), (.warn, none), (.error, none), (.warn, none),
        (.error, some (-1)), (.info, none)] ∧
    ((new defaultConfig).log troubled).filter (fun n => n.level ≠ .info) =
        ((new defaultConfig).anomalies troubled).map Anomaly.notice ∧
      ((new defaultConfig).log troubled).filter (fun n => n.level = .info) =
        ((new defaultConfig).run troubled).engine.published.map (fun _ => .publishing) ∧
      ∀ a : Anomaly, a.notice.level = a.level ∧ a.notice.status = a.status := by
  have tools : ∀ name definition tool, .register name definition tool ∈ troubled → tool.Quiet := by
    intro name definition tool member
    obtain ⟨-, -, rfl⟩ : name = "clock" ∧ _ ∧ tool = .pure fun _ => .failure "No time." := by
      simpa [troubled] using member
    intro served call
    rfl
  refine ⟨tools, ?_, anomalies_logged defaultConfig troubled tools⟩
  decide +kernel

end Threads

end Parley
