import Parley.Proofs.Absence
import Parley.Proofs.Answers
import Parley.Proofs.Beside
import Parley.Proofs.Inbox
import Parley.Proofs.Schedules

/-! A prompt without a text. It is dropped when its turn comes, and all else goes on as in a run in
which it was not submitted. In that run each submission wakes the loop at once, and the loop takes a
wake no earlier than it finds a prompt by it. -/
namespace Parley

theorem Engine.Beside.push {extra : List Entry} {e e' : Engine} (h : Beside extra e e')
    (p : Prompt) : Beside extra (e.push p) (e'.push p) := by
  obtain ⟨inbox, bridge, logged, extended⟩ := h
  exact .intro (inbox.push p) bridge _ (extended.cons _)

theorem Engine.Beside.prompt {extra : List Entry} {e e' : Engine} (h : Beside extra e e')
    (id text : String) : e'.prompt id text = e.prompt id text := by
  cases h
  rfl

namespace Threads
open Engine

/-- Where the loops stand beside one another. -/
inductive Paced : Work → Work → Prop
  | idle : Paced .idle .idle
  | woken : Paced .woken .idle
  | taken (p : Prompt) : Paced (.taken p) (.receiving p)
  | rewaking (p : Prompt) : Paced (.rewaking p) (.receiving p)
  | receiving (p : Prompt) : Paced (.receiving p) (.receiving p)
  | resolving (t : RoundTrip) (calls : List ToolCall) :
    Paced (.resolving t calls) (.resolving t calls)
  | answering (t : RoundTrip) (m : Message) (calls : List ToolCall) :
    Paced (.answering t m calls) (.answering t m calls)

/-- How far the prompt has come, what that leaves in the journal, and what it means for the two
inboxes and loops. -/
inductive Place (p : Prompt) : List Entry → List Prompt → List Prompt → Work → Work → Prop
  | ahead {inbox : List Prompt} {w w' : Work} (paced : Paced w w') : Place p [] inbox inbox w w'
  | waiting (before after : List Prompt) {w w' : Work} (paced : Paced w w') :
    Place p [.submitted p] (before ++ p :: after) (before ++ after) w w'
  | held {inbox : List Prompt} {w : Work} (hand : w.hand = [p]) :
    Place p [.taken p, .submitted p] inbox inbox w .idle
  | dropped {inbox : List Prompt} {w w' : Work} (paced : Paced w w') :
    Place p [.noticed (.emptyPrompt p.id), .taken p, .submitted p] inbox inbox w w'

section place

variable {p q : Prompt} {extra : List Entry} {inbox inbox' rest : List Prompt} {w w' : Work}

theorem Place.idle (place : Place p extra inbox inbox' .idle w') : w' = .idle := by
  cases place with
  | held hand => cases hand
  | ahead paced | waiting _ _ paced | dropped paced => cases paced; rfl

theorem Place.push (place : Place p extra inbox inbox' w w') (q : Prompt) :
    Place p extra (inbox ++ [q]) (inbox' ++ [q]) w w' := by
  cases place with
  | ahead paced => exact .ahead paced
  | waiting before after paced =>
      rw [List.append_assoc, List.append_assoc, List.cons_append]
      exact .waiting before (after ++ [q]) paced
  | held hand => exact .held hand
  | dropped paced => exact .dropped paced

theorem Place.submit (place : Place p [] inbox inbox' w w') :
    Place p [.submitted p] (inbox ++ [p]) inbox' w w' := by
  cases place with
  | ahead paced => simpa using Place.waiting inbox [] paced

/-- Unless the prompt is in hand, the loops go on side by side. -/
theorem Place.cases (place : Place p extra inbox inbox' w w') :
    (w.hand = [p] ∧ w' = .idle ∧ extra = [.taken p, .submitted p] ∧ inbox = inbox') ∨
      Paced w w' ∧ ∀ v v', Paced v v' → Place p extra inbox inbox' v v' := by
  cases place with
  | ahead paced => exact .inr ⟨paced, fun _ _ next => .ahead next⟩
  | waiting before after paced => exact .inr ⟨paced, fun _ _ next => .waiting before after next⟩
  | held hand => exact .inl ⟨hand, rfl, rfl, rfl⟩
  | dropped paced => exact .inr ⟨paced, fun _ _ next => .dropped next⟩

/-- The loop takes the prompt into its hand, or one that is the next in both inboxes. -/
theorem Place.take (place : Place p extra (q :: rest) inbox' .woken w') :
    (q = p ∧ extra = [.submitted p] ∧ inbox' = rest) ∨
      ∃ rest', inbox' = q :: rest' ∧ ∀ v v', Paced v v' → Place p extra rest rest' v v' := by
  generalize waits : q :: rest = inbox at place
  cases place with
  | held hand => cases hand
  | ahead _ => exact .inr ⟨rest, waits.symm, fun _ _ next => .ahead next⟩
  | dropped _ => exact .inr ⟨rest, waits.symm, fun _ _ next => .dropped next⟩
  | waiting before after _ =>
      cases before with
      | nil =>
          obtain ⟨rfl, rfl⟩ := List.cons.inj waits
          exact .inl ⟨rfl, rfl, rfl⟩
      | cons b before =>
          obtain ⟨rfl, rfl⟩ := List.cons.inj waits
          exact .inr ⟨before ++ after, rfl, fun _ _ next => .waiting before after next⟩

end place

/-- What a caller does by a step of its own, the halves of a wake apart. -/
def Action.isCall : Action → Bool
  | .launch | .push _ _ | .poll | .register _ _ _ => true
  | _ => false

/-- The second threads run without the prompt. -/
structure Shadow (p : Prompt) (extra : List Entry) (s s' : Threads) : Prop where
  engine : Beside extra s.engine s'.engine
  place : Place p extra s.engine.inbox.toList s'.engine.inbox.toList s.work s'.work
  permit : s'.engine.inbox.toList ≠ [] → s'.engine.bridge.permit = true
  waiters : s'.engine.bridge.waiters = []
  submitting : s'.submitting = 0
  starting : s'.starting = false

/-- The threads with the prompt get to `t`, and the others follow by some steps, among them the
calls given. The prompt stays ahead, or it stays behind. -/
def Follows (p : Prompt) (extra : List Entry) (t s' : Threads) (calls : List Action) : Prop :=
  ∃ extra' actions, (extra = [] ↔ extra' = []) ∧ actions.filter Action.isCall = calls ∧
    Shadow p extra' t (s'.run actions)

theorem run_take {s : Threads} {q : Prompt} {rest : List Prompt} (idle : s.work = .idle)
    (running : s.engine.phase = .running) (permit : s.engine.bridge.permit = true)
    (waiters : s.engine.bridge.waiters = []) (head : s.engine.inbox.toList = q :: rest) :
    ∃ actions bridge, actions.filter Action.isCall = [] ∧
      (rest ≠ [] → bridge.permit = true) ∧ bridge.waiters = [] ∧
      s.run actions = { s with
        engine := { s.engine with inbox := ⟨rest⟩, bridge }.record (.taken q)
        work := .receiving q } := by
  have popped : s.engine.inbox.pop? = some (q, ⟨rest⟩) := (Queue.pop?_eq_some_iff _ _ _).mpr head
  cases rest with
  | nil =>
      refine ⟨[.takeWake, .advance, .advance], ⟨false, []⟩, rfl, fun more => (more rfl).elim, rfl, ?_⟩
      simp [run, step, whenIdle, advance, takePrompt?, takeWake?, Bridge.poll, isRunning, idle,
        running, permit, waiters, popped, Queue.isEmpty]
  | cons r rest =>
      refine ⟨[.takeWake, .advance, .advance, .advance], ⟨true, []⟩, rfl, fun _ => rfl, rfl, ?_⟩
      simp [run, step, whenIdle, advance, takePrompt?, takeWake?, Bridge.poll, Bridge.wake,
        isRunning, idle, running, permit, waiters, popped, Queue.isEmpty]

section untouched

variable (e : Engine)

theorem accept_untouched (t : RoundTrip) (result : Except Error Response) :
    (e.accept t result).1.inbox = e.inbox ∧ (e.accept t result).1.bridge = e.bridge := by
  cases result with
  | error err => simp [accept]
  | ok r =>
      unfold accept handleResponse
      dsimp only
      repeat' split
      all_goals simp

theorem shutdown_untouched : e.shutdown.inbox = e.inbox ∧ e.shutdown.bridge = e.bridge := by
  unfold shutdown
  split <;> simp

theorem poll_untouched : e.poll.2.inbox = e.inbox ∧ e.poll.2.bridge = e.bridge := by
  unfold poll
  split <;> exact ⟨rfl, rfl⟩

theorem receive_untouched (p : Prompt) :
    (e.receive p).inbox = e.inbox ∧ (e.receive p).bridge = e.bridge := by
  unfold receive
  split <;> simp

end untouched

namespace Shadow

variable {p : Prompt} {extra : List Entry} {s s' : Threads}

/-- The second threads do nothing. -/
theorem wait {extra' : List Entry} {t : Threads} (h : Shadow p extra' t s')
    (started : extra = [] ↔ extra' = []) : Follows p extra t s' [] :=
  ⟨extra', [], started, rfl, h⟩

/-- The second threads take one step. -/
theorem go {t : Threads} {a : Action} (h : Shadow p extra t (s'.step a)) :
    Follows p extra t s' ([a].filter Action.isCall) :=
  ⟨extra, [a], .rfl, rfl, h⟩

/-- Both go on, and leave their inboxes and the bridge of the second alone. -/
theorem both (h : Shadow p extra s s') {e e' : Engine} {w w' : Work} (engine : Beside extra e e')
    (inbox : e.inbox = s.engine.inbox) (inbox' : e'.inbox = s'.engine.inbox)
    (bridge : e'.bridge = s'.engine.bridge)
    (place : Place p extra s.engine.inbox.toList s'.engine.inbox.toList w w') :
    Shadow p extra { s with engine := e, work := w } { s' with engine := e', work := w' } where
  engine := engine
  place := by rwa [inbox, inbox']
  permit := by rw [inbox', bridge]; exact h.permit
  waiters := by rw [bridge, h.waiters]
  submitting := h.submitting
  starting := h.starting

/-- The loop goes on with a prompt that is in hand up to its end. -/
theorem advance_held (h : Shadow p extra s s') (empty : p.text = "") (hand : s.work.hand = [p])
    (idle : s'.work = .idle) (extras : extra = [.taken p, .submitted p])
    (inboxes : s.engine.inbox.toList = s'.engine.inbox.toList) :
    Follows p extra s.advance s' [] := by
  subst extras
  have held : ∀ w : Work, w.hand = [p] →
      Place p [.taken p, .submitted p] s.engine.inbox.toList s'.engine.inbox.toList w s'.work := by
    intro w hand
    rw [inboxes, idle]
    exact .held hand
  unfold Threads.advance
  cases work : s.work with
  | taken q =>
      rw [work] at hand
      refine wait { h with place := held _ ?_ } .rfl
      dsimp only
      split <;> exact hand
  | rewaking q =>
      rw [work] at hand
      exact wait { h with
        engine := h.engine.move s.engine.inbox s'.engine.inbox _ s'.engine.bridge
        place := held (.receiving q) hand } .rfl
  | receiving q =>
      rw [work] at hand
      obtain rfl := List.singleton_inj.mp hand
      have dropped : s.engine.receive q = s.engine.notice (.emptyPrompt q.id) := by
        simp [receive, empty]
      have noticed := (h.engine.more (.noticed (.emptyPrompt q.id))).detail_left [.emptyPrompt q.id]
      dsimp only
      rw [dropped]
      refine wait { h with engine := noticed, place := ?_ } (by simp)
      show Place q _ s.engine.inbox.toList s'.engine.inbox.toList .idle s'.work
      rw [inboxes, idle]
      exact .dropped .idle
  | idle | woken | resolving | answering =>
      rw [work] at hand
      cases hand

/-- The loop finds a prompt, or none. -/
theorem advance_woken (h : Shadow p extra s s') (work : s.work = .woken) (idle : s'.work = .idle)
    (running : s.engine.phase = .running)
    (paced : ∀ v v', Paced v v' →
      Place p extra s.engine.inbox.toList s'.engine.inbox.toList v v') :
    Follows p extra s.advance s' [] := by
  unfold Threads.advance takePrompt?
  rw [work]
  cases popped : s.engine.inbox.pop? with
  | none =>
      exact wait { h with
        engine := h.engine.detail_left _
        place := by rw [idle]; exact paced _ _ .idle } .rfl
  | some front =>
      obtain ⟨q, rest⟩ := front
      have head := (Queue.pop?_eq_some_iff _ _ _).mp popped
      have place := h.place
      rw [work, head] at place
      rcases place.take with ⟨rfl, rfl, inboxes⟩ | ⟨rest', head', next⟩
      · have taken := (h.engine.move rest s'.engine.inbox s.engine.bridge s'.engine.bridge).more
          (.taken q)
        refine wait { h with engine := taken, place := ?_ } (by simp)
        show Place q _ rest.toList s'.engine.inbox.toList (.taken q) s'.work
        rw [inboxes, idle]
        exact .held rfl
      · have stored := h.permit (by rw [head']; exact List.cons_ne_nil _ _)
        obtain ⟨actions, bridge, quiet, permit, waiters, followed⟩ :=
          run_take idle (h.engine.phase.trans running) stored h.waiters head'
        refine ⟨extra, actions, .rfl, quiet, ?_⟩
        rw [followed]
        exact
          { engine := (h.engine.move rest ⟨rest'⟩ s.engine.bridge bridge).record (.taken q)
            place := next _ _ (.taken q)
            permit := permit
            waiters := waiters
            submitting := h.submitting
            starting := h.starting }

theorem advance_executed (h : Shadow p extra s s') {t : RoundTrip} {c : ToolCall}
    {calls : List ToolCall} (work : s.work = .resolving t (c :: calls))
    (work' : s'.work = .resolving t (c :: calls))
    (next : ∀ v v', Paced v v' →
      Place p extra s.engine.inbox.toList s'.engine.inbox.toList v v') :
    Shadow p extra s.advance s'.advance := by
  obtain ⟨message, executed⟩ := h.engine.execute c
  unfold Threads.advance
  rw [work, work']
  dsimp only
  rw [← Prod.eta (s.engine.execute c), ← Prod.eta (s'.engine.execute c), message]
  cases (s.engine.execute c).1 with
  | none => exact h.both executed (by simp) (by simp) (by simp) (next _ _ (.resolving t calls))
  | some m => exact h.both executed (by simp) (by simp) (by simp) (next _ _ (.answering t m calls))

/-- The loops go on with the same thing. -/
theorem advance_paced (h : Shadow p extra s s') (paced : Paced s.work s'.work)
    (running : s.work ≠ .idle → s.engine.phase = .running)
    (next : ∀ v v', Paced v v' →
      Place p extra s.engine.inbox.toList s'.engine.inbox.toList v v') :
    Follows p extra s.advance s' [] := by
  generalize work : s.work = w at paced
  generalize work' : s'.work = w' at paced
  cases paced with
  | idle =>
      have still : s.advance = s := by simp only [Threads.advance, work]
      rw [still]
      exact wait h .rfl
  | woken => exact h.advance_woken work work' (running (by simp [work])) next
  | taken q =>
      simp only [Threads.advance, work]
      refine wait { h with place := next _ _ ?_ } .rfl
      rw [work']
      split
      · exact .receiving q
      · exact .rewaking q
  | rewaking q =>
      simp only [Threads.advance, work]
      refine wait { h with
        engine := h.engine.move s.engine.inbox s'.engine.inbox _ s'.engine.bridge
        place := next _ _ ?_ } .rfl
      rw [work']
      exact .receiving q
  | receiving q =>
      refine go (a := .advance) ?_
      simp only [step, Threads.advance, work, work']
      exact h.both (h.engine.receive q) (receive_untouched _ q).1 (receive_untouched _ q).1
        (receive_untouched _ q).2 (next _ _ .idle)
  | resolving t calls =>
      refine go (a := .advance) ?_
      cases calls with
      | nil =>
          simp only [step, Threads.advance, work, work']
          exact h.both (h.engine.finish t) rfl rfl rfl (next _ _ .idle)
      | cons c calls => exact h.advance_executed work work' next
  | answering t m calls =>
      refine go (a := .advance) ?_
      simp only [step, Threads.advance, work, work']
      exact h.both (h.engine.feedBack t.promptId m) (by simp) (by simp) (by simp)
        (next _ _ (.resolving t calls))

theorem advance (h : Shadow p extra s s') (empty : p.text = "")
    (running : s.work ≠ .idle → s.engine.phase = .running) : Follows p extra s.advance s' [] := by
  rcases h.place.cases with ⟨hand, idle, extras, inboxes⟩ | ⟨paced, next⟩
  · exact h.advance_held empty hand idle extras inboxes
  · exact h.advance_paced paced running next

theorem deliver (h : Shadow p extra s s') (n : Nat) (outcome : Transport.Outcome)
    (still : Place p extra s.engine.inbox.toList s'.engine.inbox.toList s.work s'.work)
    (next : ∀ v v', Paced v v' →
      Place p extra s.engine.inbox.toList s'.engine.inbox.toList v v') :
    Shadow p extra (s.deliver n outcome) (s'.deliver n outcome) := by
  have landed := h.engine.landed n
  unfold Threads.deliver land?
  rw [h.engine.inFlight, h.engine.isRunning]
  cases s.engine.inFlight.find? fun t => t.number = n with
  | none => exact h
  | some t =>
      cases s.engine.isRunning with
      | true =>
          obtain ⟨calls, accepted⟩ := landed.accept t (Transport.classify outcome)
          have place := next _ _ (.resolving t ((s.engine.landed n).accept t (Transport.classify outcome)).2)
          exact h.both accepted (accept_untouched _ t _).1 (accept_untouched _ t _).1
            (accept_untouched _ t _).2 (calls ▸ place)
      | false => exact h.both landed rfl rfl rfl still

/-- What a loop does that is idle, the other does as well, but for taking a wake. -/
theorem loop (h : Shadow p extra s s') {a : Action} (waits : a.waits = true) :
    Follows p extra (s.step a) s' [] := by
  by_cases work : s.work = .idle
  · have still := h.place
    rw [work] at still
    have work' : s'.work = .idle := still.idle
    obtain ⟨hand, -⟩ | ⟨-, next⟩ := still.cases
    · cases hand
    cases a with
    | shutdown =>
        refine go (a := .shutdown) ?_
        rw [step, step, whenIdle_of_idle work, whenIdle_of_idle work']
        exact h.both h.engine.shutdown (shutdown_untouched _).1 (shutdown_untouched _).1
          (shutdown_untouched _).2 h.place
    | takeWake =>
        rw [step, whenIdle_of_idle work]
        split
        · unfold takeWake?
          cases stored : s.engine.bridge.permit with
          | false =>
              simp only [Bridge.poll, stored, Bool.false_eq_true, if_false]
              exact wait h .rfl
          | true =>
              simp only [Bridge.poll, stored, if_true]
              refine wait { h with
                engine := h.engine.move s.engine.inbox s'.engine.inbox _ s'.engine.bridge
                place := ?_ } .rfl
              rw [work']
              exact next _ _ .woken
        · exact wait h .rfl
    | deliver n outcome =>
        refine go (a := .deliver n outcome) ?_
        rw [step, step, whenIdle_of_idle work, whenIdle_of_idle work']
        exact h.deliver n outcome h.place next
    | sweep =>
        refine go (a := .sweep) ?_
        rw [step, step, whenIdle_of_idle work, whenIdle_of_idle work', h.engine.isRunning]
        split
        · exact h.both h.engine.sweep rfl rfl rfl h.place
        · exact h
    | _ => cases waits
  · rw [step_of_waits work waits]
    exact wait h .rfl

/-- What callers do, they do on both sides. -/
theorem caller (h : Shadow p extra s s') {a : Action} (free : a.waits = false)
    (other : a ≠ .advance) : Follows p extra (s.step a) s' ([a].filter Action.isCall) := by
  cases a with
  | launch =>
      refine ⟨extra, [.launch, .firstWake], .rfl, rfl, ?_⟩
      have phase := h.engine.phase
      simp only [run, List.foldl_cons, List.foldl_nil, step, phase]
      cases s.engine.phase with
      | fresh =>
          exact
            { engine := h.engine.launch.move s.engine.inbox s'.engine.inbox s.engine.bridge _
              place := h.place
              permit := fun _ => congrArg Bridge.permit (wake_bridge (e := s'.engine.launch) h.waiters)
              waiters := congrArg Bridge.waiters (wake_bridge (e := s'.engine.launch) h.waiters)
              submitting := h.submitting
              starting := rfl }
      | running | stopped =>
          simp only [h.starting, Bool.false_eq_true, if_false]
          exact h
  | firstWake =>
      rw [step]
      split
      · exact wait { h with
          engine := h.engine.move s.engine.inbox s'.engine.inbox _ s'.engine.bridge } .rfl
      · exact wait h .rfl
  | push id text =>
      refine ⟨extra, [.push id text, .wake], .rfl, rfl, ?_⟩
      simp only [run, List.foldl_cons, List.foldl_nil, step, h.submitting, Nat.zero_add,
        Nat.one_pos, if_true, Nat.sub_self, h.engine.prompt]
      have pushed := h.engine.push (s.engine.prompt id text)
      have woken := wake_bridge (e := s'.engine.push (s.engine.prompt id text)) h.waiters
      exact
        { engine := pushed.move (s.engine.inbox.push _) (s'.engine.inbox.push _) s.engine.bridge _
          place := by simpa [Engine.wake] using h.place.push (s.engine.prompt id text)
          permit := fun _ => congrArg Bridge.permit woken
          waiters := congrArg Bridge.waiters woken
          submitting := rfl
          starting := h.starting }
  | wake =>
      rw [step]
      split
      · exact wait { h with
          engine := h.engine.move s.engine.inbox s'.engine.inbox _ s'.engine.bridge } .rfl
      · exact wait h .rfl
  | poll =>
      refine go (a := .poll) ?_
      exact h.both h.engine.poll (poll_untouched _).1 (poll_untouched _).1 (poll_untouched _).2
        h.place
  | register name definition tool =>
      refine go (a := .register name definition tool) ?_
      exact h.both (h.engine.register name definition tool) rfl rfl rfl h.place
  | shutdown | takeWake | deliver | sweep => cases free
  | advance => contradiction

theorem step (h : Shadow p extra s s') (empty : p.text = "")
    (running : s.work ≠ .idle → s.engine.phase = .running) (a : Action) :
    Follows p extra (s.step a) s' ([a].filter Action.isCall) := by
  by_cases advances : a = .advance
  · subst advances
    exact h.advance empty running
  cases waits : a.waits with
  | false => exact h.caller waits advances
  | true =>
      have quiet : [a].filter Action.isCall = [] := by
        cases a with
        | shutdown | takeWake | deliver | sweep => rfl
        | _ => cases waits
      rw [quiet]
      exact h.loop waits

theorem run (h : Shadow p extra s s') (empty : p.text = "")
    (running : s.work ≠ .idle → s.engine.phase = .running) (actions : List Action) :
    Follows p extra (s.run actions) s' (actions.filter Action.isCall) := by
  induction actions generalizing s s' extra with
  | nil => exact h.wait .rfl
  | cons a actions ih =>
      have busy : (s.step a).work ≠ .idle → (s.step a).engine.phase = .running := by
        rcases step_cases s a with same | step
        · rwa [same]
        · exact step.busy running
      obtain ⟨extra₁, first, started, calls, next⟩ := h.step empty running a
      obtain ⟨extra₂, rest, started', calls', last⟩ := ih next busy
      refine ⟨extra₂, first ++ rest, started.trans started', ?_, ?_⟩
      · rw [List.filter_append, calls, calls', ← List.filter_append, List.singleton_append]
      · rw [run_append]
        exact last

/-- Up to now it is one run. -/
theorem new (p : Prompt) (config : Config) : Shadow p [] (.new config) (.new config) where
  engine := .same _
  place := .ahead .idle
  permit waiting := (waiting rfl).elim
  waiters := rfl
  submitting := rfl
  starting := rfl

/-- The prompt is submitted, on the one side only. -/
theorem submit (h : Shadow p [] s s') {id text : String} (prompt : s.engine.prompt id text = p) :
    Shadow p [.submitted p] (s.step (.push id text)) s' := by
  have pushed := (h.engine.more (.submitted p)).move (s.engine.inbox.push p) s'.engine.inbox
    s.engine.bridge s'.engine.bridge
  rw [Threads.step, prompt]
  exact { h with engine := pushed.detail_left [.queued p.id], place := h.place.submit }

end Shadow

/-- The prompt waits, is in hand or was dropped, and nothing but the journal tells of it. All else
is as in the threads that were not given it. -/
structure Ignored (p : Prompt) (s s' : Threads) : Prop where
  place : ∃ extra, extra ≠ [] ∧ Extends extra s.engine.journal s'.engine.journal ∧
    Place p extra s.engine.inbox.toList s'.engine.inbox.toList s.work s'.work
  sent : s.engine.sent = s'.engine.sent
  received : s.engine.received = s'.engine.received
  appended : s.engine.appended = s'.engine.appended
  published : s.engine.published = s'.engine.published
  polled : s.engine.polled = s'.engine.polled
  history : s.engine.history = s'.engine.history
  sessions : s.engine.sessions = s'.engine.sessions
  inFlight : s.engine.inFlight = s'.engine.inFlight
  outbox : s.engine.outbox = s'.engine.outbox
  registry : s.engine.registry = s'.engine.registry
  phase : s.engine.phase = s'.engine.phase

/-- What is left of the prompt in the journal is its submission, its turn and the notice. -/
theorem Place.trace {p : Prompt} {extra : List Entry} {inbox inbox' : List Prompt} {w w' : Work}
    (place : Place p extra inbox inbox' w w') :
    extra <:+ [.noticed (.emptyPrompt p.id), .taken p, .submitted p] := by
  cases place with
  | ahead => exact List.nil_suffix
  | waiting => exact ⟨[_, _], rfl⟩
  | held => exact ⟨[_], rfl⟩
  | dropped => exact List.suffix_rfl

theorem Shadow.ignored {p : Prompt} {extra : List Entry} {s s' : Threads}
    (h : Shadow p extra s s') (submitted : extra ≠ []) : Ignored p s s' := by
  obtain ⟨engine, place, -, -, -, -⟩ := h
  have trace := place.trace
  obtain ⟨e', submitting', starting', w'⟩ := s'
  obtain ⟨inbox, bridge, logged, extended⟩ := engine
  have blind {α : Type} {f : Entry → Option α}
      (none : ∀ x ∈ [.noticed (.emptyPrompt p.id), .taken p, .submitted p], f x = none) :=
    extended.tell fun x member => none x (trace.subset member)
  exact
    { place := ⟨extra, submitted, extended, place⟩
      sent := blind (by simp)
      received := blind (by simp)
      appended := blind (by simp)
      published := blind (by simp)
      polled := blind (by simp)
      history := rfl
      sessions := rfl
      inFlight := rfl
      outbox := rfl
      registry := rfl
      phase := rfl }

/-- Without a prompt nothing is sent. -/
theorem run_silent (config : Config) {actions : List Action}
    (calls : actions.filter Action.isCall = [.launch]) :
    ((new config).run actions).engine.sent = [] := by
  have pushed : actions.filterMap (Action.pushed? config) = [] := by
    refine List.filterMap_eq_nil_iff.mpr fun a member => ?_
    cases a with
    | push id text =>
        have call : .push id text ∈ actions.filter Action.isCall :=
          List.mem_filter.mpr ⟨member, rfl⟩
        rw [calls] at call
        simp at call
    | _ => rfl
  have submitted := run_submitted (new config) actions
  rw [show (new config).engine.config = config from rfl, pushed] at submitted
  have order := run_order config actions
  rw [submitted] at order
  have taken := (List.append_eq_nil_iff.mp order).1
  refine List.eq_nil_iff_forall_not_mem.mpr fun t sent => ?_
  obtain ⟨p, member, -⟩ := run_prompted config actions t sent
  rw [taken] at member
  cases member

theorem sent_with_suffix {config : Config} (suffix : config.promptSuffix.getD "" ≠ "")
    (id : String) :
    ((new config).run ([.launch, .firstWake] ++
      .push id "" :: [.takeWake, .advance, .advance, .advance])).engine.sent ≠ [] := by
  let s := (new config).run [.launch, .firstWake, .push id "", .takeWake, .advance, .advance]
  have work : s.work = .receiving ⟨id, "" ++ config.promptSuffix.getD ""⟩ := rfl
  change s.advance.engine.sent ≠ []
  rw [advance, work]
  simp [receive, suffix]

/-- An empty prompt comes to nothing, whatever the threads do before and after, exactly when no
suffix is added to it. -/
theorem empty_prompt_ignored_iff (config : Config) :
    (∀ before id after, ∃ without,
      without.filter Action.isCall = (before ++ after).filter Action.isCall ∧
      Ignored ⟨id, config.promptSuffix.getD ""⟩
        ((new config).run (before ++ .push id "" :: after)) ((new config).run without)) ↔
    config.promptSuffix.getD "" = "" := by
  constructor
  · intro ignored
    by_contra suffix
    obtain ⟨without, calls, same⟩ :=
      ignored [.launch, .firstWake] "" [.takeWake, .advance, .advance, .advance]
    exact sent_with_suffix suffix "" (same.sent.trans (run_silent config calls))
  · intro suffix before id after
    rw [suffix]
    obtain ⟨extra, first, started, calls, ahead⟩ :=
      (Shadow.new ⟨id, ""⟩ config).run rfl (run_accounted config []).busy before
    obtain rfl := started.mp rfl
    have prompt : ((new config).run before).engine.prompt id "" = ⟨id, ""⟩ := by
      rw [Engine.prompt, run_config]
      exact congrArg (Prompt.mk id) suffix
    have submitted := ahead.submit prompt
    have busy := (run_accounted config (before ++ [.push id ""])).busy
    rw [run_concat] at busy
    obtain ⟨extra, rest, started, calls', behind⟩ := submitted.run rfl busy after
    refine ⟨first ++ rest, ?_, ?_⟩
    · rw [List.filter_append, calls, calls', List.filter_append]
    · rw [run_append, run_append]
      exact behind.ignored fun none => List.cons_ne_nil _ _ (started.mpr none)

def withSuffix : Config :=
  Settings.toConfig { apiKey := "key", promptSuffix := some " (no markdown)" }

/-- The empty prompt is given a text, which is sent to the model and answered. -/
theorem withSuffix_sent :
    let reply : Transport.Outcome := .ok ⟨200, none, (Preset.assistant "Hello.").body⟩
    let before : List Action := [.launch, .firstWake]
    let after : List Action :=
      [.wake, .takeWake, .advance, .advance, .advance, .deliver 0 reply, .advance]
    let s := (new withSuffix).run (before ++ .push "p0" "" :: after)
    s.engine.sent.map (·.request.messages) = [[.user " (no markdown)"]] ∧
    s.engine.sessions = [("p0", "p0")] ∧
    s.engine.history.messages = [.user " (no markdown)", .assistant "Hello."] ∧
    s.engine.published.map (·.promptId) = ["p0"] ∧
    ∀ without, without.filter Action.isCall = (before ++ after).filter Action.isCall →
      s.engine.sent ≠ ((new withSuffix).run without).engine.sent := by
  intro reply before after s
  have request : s.engine.sent.map (·.request.messages) = [[.user " (no markdown)"]] := by
    decide +kernel
  refine ⟨request, by decide +kernel, by decide +kernel, by decide +kernel, ?_⟩
  intro without calls same
  rw [same, run_silent withSuffix calls] at request
  cases request

end Threads

end Parley
