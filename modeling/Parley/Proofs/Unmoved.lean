import Parley.Proofs.Maps
import Parley.Proofs.Steps

/-! Engines that differ by a round trip of which one has taken in a response and the other has not.
Whatever is done to both, they stay the same in everything else. -/
namespace Parley

/-- What the journal would tell too if the round trip number `n` were not answered, but for what the
sweeps retire and for what is reported of trouble. -/
@[simp] def Entry.lasting? (n : Nat) : Entry → Option Entry
  | .received t result => if t.number = n then none else some (.received t result)
  | .handled t => if t.number = n then none else some (.handled t)
  | .swept _ => none
  | .noticed notice => if notice.level = .info then some (.noticed notice) else none
  | x => some x

namespace Engine

/-- The engines are the same but for the session of `t`, for its response, and for what is reported
of trouble. -/
structure Unmoved (t : RoundTrip) (e e' : Engine) : Prop where
  config : e'.config = e.config
  registry : e'.registry = e.registry
  phase : e'.phase = e.phase
  inbox : e'.inbox = e.inbox
  outbox : e'.outbox = e.outbox
  bridge : e'.bridge = e.bridge
  history : e'.history = e.history
  sequence : e'.sequence = e.sequence
  opened : e'.opened = e.opened
  sessions : ∀ id ≠ t.id, e'.sessions.find? id = e.sessions.find? id
  removals : ∀ id ≠ t.id, (id ∈ e'.removals.toList ↔ id ∈ e.removals.toList)
  inFlight : e'.inFlight.filter (fun u => u.number ≠ t.number) =
    e.inFlight.filter fun u => u.number ≠ t.number
  journal : tell (Entry.lasting? t.number) e'.journal = tell (Entry.lasting? t.number) e.journal

namespace Unmoved

variable {t : RoundTrip} {e e' : Engine}

theorem same (t : RoundTrip) (e : Engine) : Unmoved t e e where
  config := rfl
  registry := rfl
  phase := rfl
  inbox := rfl
  outbox := rfl
  bridge := rfl
  history := rfl
  sequence := rfl
  opened := rfl
  sessions _ _ := rfl
  removals _ _ := .rfl
  inFlight := rfl
  journal := rfl

theorem record (h : Unmoved t e e') (x : Entry) : Unmoved t (e.record x) (e'.record x) :=
  { h with journal := by simp [h.journal] }

theorem detail (h : Unmoved t e e') (details : List Notice) :
    Unmoved t (e.detail details) (e'.detail details) :=
  { h with }

theorem notice (h : Unmoved t e e') (n : Notice) : Unmoved t (e.notice n) (e'.notice n) :=
  { h with journal := by simp [h.journal] }

theorem append (h : Unmoved t e e') (m : Message) : Unmoved t (e.append m) (e'.append m) :=
  { h with
    history := by simp [h.history]
    journal := by simp [h.journal] }

theorem nextTrip (h : Unmoved t e e') (id promptId : String) :
    e'.nextTrip id promptId = e.nextTrip id promptId := by
  simp [nextRequest, h.config, h.registry, h.history, h.opened]

theorem openSession (h : Unmoved t e e') (id promptId : String) :
    Unmoved t (e.openSession id promptId) (e'.openSession id promptId) := by
  have trip := h.nextTrip id promptId
  have replaced : ∀ d : Dict String,
      ((if (d.find? id).isSome then [Notice.sessionReplaced] else []).filter
        fun n => !n.isDetail).filterMap (fun n => Entry.lasting? t.number (.noticed n)) = [] := by
    intro d
    split <;> simp [Notice.level]
  exact
    { h with
      opened := by simp [h.opened]
      sessions := by
        intro other unlike
        simp [Dict.find?_insert, h.sessions other unlike]
      inFlight := by
        simp only [Engine.openSession, trip]
        simpa using h.inFlight
      journal := by
        simp only [Engine.openSession, trip, report, tell_append, tell_noticed, replaced]
        simp [h.journal] }

theorem receive (h : Unmoved t e e') (p : Prompt) : Unmoved t (e.receive p) (e'.receive p) := by
  unfold Engine.receive
  split
  · exact h.notice _
  · exact ((h.detail _).append _).openSession _ _

theorem execute (h : Unmoved t e e') (c : ToolCall) :
    (e'.execute c).1 = (e.execute c).1 ∧ Unmoved t (e.execute c).2 (e'.execute c).2 := by
  constructor
  · simp [h.registry]
  · exact
      { h with
        registry := by simp [h.registry]
        journal := by simp [h.registry, h.journal] }

theorem feedBack (h : Unmoved t e e') (promptId : String) (m : Message) :
    Unmoved t (e.feedBack promptId m) (e'.feedBack promptId m) := by
  have appended := h.append m
  have numbered : Unmoved t { e.append m with sequence := (e.append m).sequence + 1 }
      { e'.append m with sequence := (e.append m).sequence + 1 } :=
    { appended with sequence := rfl }
  unfold Engine.feedBack Engine.resubmit
  rw [appended.sequence]
  exact (numbered.detail _).openSession _ promptId

theorem publish (h : Unmoved t e e') (u : RoundTrip) (r : Response) :
    Unmoved t (e.publish u r) (e'.publish u r) :=
  { h with
    outbox := by simp [h.outbox]
    journal := by simp [h.journal] }

theorem accept (h : Unmoved t e e') (u : RoundTrip) (result : Except Error Response) :
    (e'.accept u result).2 = (e.accept u result).2 ∧
      Unmoved t (e.accept u result).1 (e'.accept u result).1 := by
  have received : Unmoved t (e.arrive u result) (e'.arrive u result) := (h.record _).detail _
  unfold Engine.accept
  cases result with
  | error err => exact ⟨rfl, received.notice _⟩
  | ok r =>
      simp only [handleResponse]
      split
      · exact ⟨rfl, received.notice _⟩
      · split
        · exact ⟨rfl, received.notice _⟩
        · have chosen := fun m => (received.detail (passedOver r)).append m
          split
          · exact ⟨rfl, (chosen _).detail _⟩
          · exact ⟨rfl, (chosen _).publish u r⟩

theorem finish (h : Unmoved t e e') (u : RoundTrip) : Unmoved t (e.finish u) (e'.finish u) :=
  { h with
    removals := by
      intro id unlike
      simp [h.removals id unlike]
    journal := by simp [h.journal] }

/-- Only one of the engines has a response to be done with. -/
theorem finished (h : Unmoved t e e') : Unmoved t (e.finish t) e' :=
  { h with
    removals := by
      intro id unlike
      simp [h.removals id unlike, unlike]
    journal := by simp [h.journal] }

theorem sweep (h : Unmoved t e e') : Unmoved t e.sweep e'.sweep :=
  { h with
    sessions := by
      intro id unlike
      have retired : e'.removals.toList.contains id = e.removals.toList.contains id := by
        simp [h.removals id unlike]
      simp only [Engine.sweep, Queue.drain, Engine.record, Engine.detail]
      rw [Dict.find?_filter _ fun id => !e'.removals.toList.contains id,
        Dict.find?_filter _ fun id => !e.removals.toList.contains id, retired,
        h.sessions id unlike]
    removals := by simp [Queue.drain]
    journal := by simp [h.journal] }

/-- What is read off lasting entries is the same. -/
theorem tell (h : Unmoved t e e') {α : Type} {f : Entry → Option α}
    (lasting : ∀ x, (Entry.lasting? t.number x).bind f = f x) :
    tell f e'.journal = tell f e.journal := by
  have through : ∀ journal,
      Parley.tell f journal = (Parley.tell (Entry.lasting? t.number) journal).filterMap f := by
    intro journal
    unfold Parley.tell
    rw [List.filterMap_reverse, List.filterMap_filterMap]
    congr 2
    funext x
    exact (lasting x).symm
  rw [through, h.journal, ← through]

theorem launch (h : Unmoved t e e') : Unmoved t e.launch e'.launch :=
  { (h.detail [.opened (.eventLoop loopLabel), .loopEntered]).notice .loopStarted with
    phase := rfl }

theorem wake (h : Unmoved t e e') : Unmoved t e.wake e'.wake :=
  { h with bridge := by simp [h.bridge] }

theorem push (h : Unmoved t e e') (id text : String) :
    Unmoved t (e.push (e.prompt id text)) (e'.push (e'.prompt id text)) :=
  { h with
    inbox := by simp [h.inbox, h.config]
    journal := by simp [h.journal, h.config] }

theorem poll (h : Unmoved t e e') : e'.poll.1 = e.poll.1 ∧ Unmoved t e.poll.2 e'.poll.2 := by
  unfold Engine.poll
  rw [h.outbox]
  cases e.outbox.pop? with
  | none => exact ⟨rfl, h⟩
  | some front => exact ⟨rfl, { h.record (.polled front.1) with outbox := rfl }⟩

theorem register (h : Unmoved t e e') (name : String) (definition : ToolDefinition) (tool : Tool) :
    (e'.register name definition tool).1 = (e.register name definition tool).1 ∧
      Unmoved t (e.register name definition tool).2 (e'.register name definition tool).2 := by
  constructor
  · simp [h.registry]
  · exact
      { h with
        registry := by simp [h.registry]
        journal := by simp [h.registry, h.journal] }

theorem isRunning (h : Unmoved t e e') : e'.isRunning = e.isRunning := by
  rw [Engine.isRunning, Engine.isRunning, h.phase]

theorem shutdown (h : Unmoved t e e') : Unmoved t e.shutdown e'.shutdown := by
  unfold Engine.shutdown
  rw [h.isRunning]
  cases e.isRunning with
  | true => exact { (h.notice .loopStopping).detail [.loopKilled, .loopLeft] with phase := rfl }
  | false => exact h

theorem takeWake? (h : Unmoved t e e') :
    (e.takeWake? = none ∧ e'.takeWake? = none) ∨
      ∃ woken woken', e.takeWake? = some woken ∧ e'.takeWake? = some woken' ∧
        Unmoved t woken woken' := by
  unfold Engine.takeWake?
  rw [h.bridge]
  cases permit : e.bridge.permit with
  | false => exact .inl (by simp [Bridge.poll, permit])
  | true =>
      refine .inr ⟨_, _, if_pos permit, if_pos permit, ?_⟩
      exact { h with bridge := rfl }

theorem landed (h : Unmoved t e e') (n : Nat) : Unmoved t (e.landed n) (e'.landed n) :=
  { h with
    inFlight := by
      have less := congrArg (List.filter fun u => u.number ≠ n) h.inFlight
      simpa [List.filter_filter, Bool.and_comm] using less }

/-- Of the other round trips the same are in flight. -/
theorem find_inFlight (h : Unmoved t e e') {n : Nat} (other : n ≠ t.number) :
    (e'.inFlight.find? fun u => u.number = n) = e.inFlight.find? fun u => u.number = n := by
  have others : ∀ trips : List RoundTrip, (trips.find? fun u => u.number = n) =
      (trips.filter fun u => u.number ≠ t.number).find? fun u => u.number = n := by
    intro trips
    rw [List.find?_filter]
    congr 1
    funext u
    by_cases found : u.number = n
    · simp [found, other]
    · simp [found]
  rw [others, h.inFlight, ← others]

end Unmoved

end Engine

end Parley
