import Parley.Engine.Journal
import Parley.Engine.Lifecycle

/-! Engines that differ by what waits in the inbox, by the wake that is stored, by what was logged and
by what one of them has in its journal besides. Whatever else is done to both, they differ by no
more. -/
namespace Parley

/-- The longer journal holds the extra entries besides those of the shorter one, which keep their
order. -/
structure Extends (extra longer shorter : List Entry) : Prop where
  kept : shorter.Sublist longer
  added : longer.Perm (extra ++ shorter)

namespace Extends

variable {extra longer shorter : List Entry}

theorem same (journal : List Entry) : Extends [] journal journal :=
  ⟨.refl _, .refl _⟩

theorem append (h : Extends extra longer shorter) (new : List Entry) :
    Extends extra (new ++ longer) (new ++ shorter) := by
  constructor
  · exact h.kept.append_left new
  · exact (h.added.append_left new).trans (List.perm_append_comm_assoc _ _ _)

theorem cons (h : Extends extra longer shorter) (x : Entry) :
    Extends extra (x :: longer) (x :: shorter) :=
  h.append [x]

theorem more (h : Extends extra longer shorter) (x : Entry) :
    Extends (x :: extra) (x :: longer) shorter :=
  ⟨h.kept.cons x, h.added.cons x⟩

/-- What is not read off the extra entries is the same. -/
theorem tell (h : Extends extra longer shorter) {α : Type} {f : Entry → Option α}
    (blind : ∀ x ∈ extra, f x = none) : tell f longer = tell f shorter := by
  have none : extra.filterMap f = [] := List.filterMap_eq_nil_iff.mpr blind
  have sizes := (h.added.filterMap f).length_eq
  rw [List.filterMap_append, none, List.nil_append] at sizes
  exact congrArg List.reverse ((h.kept.filterMap f).eq_of_length sizes.symm).symm

end Extends

namespace Engine

inductive Beside (extra : List Entry) (e : Engine) : Engine → Prop
  | intro (inbox : Queue Prompt) (bridge : Bridge) (logged : List Notice) {journal : List Entry}
    (extended : Extends extra e.journal journal) :
    Beside extra e { e with inbox, bridge, journal, logged }

namespace Beside

variable {extra : List Entry} {e e' : Engine}

theorem same (e : Engine) : Beside [] e e :=
  .intro e.inbox e.bridge e.logged (.same e.journal)

theorem isRunning (h : Beside extra e e') : e'.isRunning = e.isRunning := by
  cases h
  rfl

theorem phase (h : Beside extra e e') : e'.phase = e.phase := by
  cases h
  rfl

theorem record (h : Beside extra e e') (x : Entry) : Beside extra (e.record x) (e'.record x) := by
  obtain ⟨inbox, bridge, logged, extended⟩ := h
  exact .intro inbox bridge _ (extended.cons x)

theorem more (h : Beside extra e e') (x : Entry) : Beside (x :: extra) (e.record x) e' := by
  obtain ⟨inbox, bridge, logged, extended⟩ := h
  exact .intro inbox bridge _ (extended.more x)

theorem detail_left (h : Beside extra e e') (details : List Notice) :
    Beside extra (e.detail details) e' := by
  obtain ⟨inbox, bridge, logged, extended⟩ := h
  exact .intro inbox bridge logged extended

theorem detail (h : Beside extra e e') (details : List Notice) :
    Beside extra (e.detail details) (e'.detail details) := by
  obtain ⟨inbox, bridge, logged, extended⟩ := h
  exact .intro inbox bridge _ extended

theorem notice (h : Beside extra e e') (n : Notice) :
    Beside extra (e.notice n) (e'.notice n) := by
  obtain ⟨inbox, bridge, logged, extended⟩ := h
  exact .intro inbox bridge _ (extended.cons _)

theorem report (h : Beside extra e e') (notices : List Notice) :
    Beside extra (e.report notices) (e'.report notices) := by
  obtain ⟨inbox, bridge, logged, extended⟩ := h
  exact .intro inbox bridge _ (extended.append _)

/-- The inbox and the bridge are free on both sides. -/
theorem move (h : Beside extra e e') (inbox inbox' : Queue Prompt) (bridge bridge' : Bridge) :
    Beside extra { e with inbox, bridge } { e' with inbox := inbox', bridge := bridge' } := by
  obtain ⟨_, _, logged, extended⟩ := h
  exact .intro inbox' bridge' logged extended

theorem append (h : Beside extra e e') (m : Message) :
    Beside extra (e.append m) (e'.append m) := by
  obtain ⟨inbox, bridge, logged, extended⟩ := h
  exact .intro inbox bridge _ (extended.cons _)

theorem openSession (h : Beside extra e e') (id promptId : String) :
    Beside extra (e.openSession id promptId) (e'.openSession id promptId) := by
  obtain ⟨inbox, bridge, logged, extended⟩ := h
  exact .intro inbox bridge _ ((extended.cons _).append _)

theorem receive (h : Beside extra e e') (p : Prompt) :
    Beside extra (e.receive p) (e'.receive p) := by
  unfold Engine.receive
  split
  · exact h.notice _
  · exact ((h.detail _).append _).openSession _ _

theorem execute (h : Beside extra e e') (c : ToolCall) :
    (e'.execute c).1 = (e.execute c).1 ∧ Beside extra (e.execute c).2 (e'.execute c).2 := by
  obtain ⟨inbox, bridge, logged, extended⟩ := h
  exact ⟨rfl, .intro inbox bridge _ ((extended.cons _).append _)⟩

theorem resubmit (h : Beside extra e e') (promptId : String) :
    Beside extra (e.resubmit promptId) (e'.resubmit promptId) := by
  obtain ⟨inbox, bridge, logged, extended⟩ := h
  exact .intro inbox bridge _ ((extended.cons _).append _)

theorem feedBack (h : Beside extra e e') (promptId : String) (m : Message) :
    Beside extra (e.feedBack promptId m) (e'.feedBack promptId m) :=
  (h.append m).resubmit promptId

theorem publish (h : Beside extra e e') (t : RoundTrip) (r : Response) :
    Beside extra (e.publish t r) (e'.publish t r) := by
  obtain ⟨inbox, bridge, logged, extended⟩ := h
  exact .intro inbox bridge _ ((extended.cons _).cons _)

theorem handleResponse (h : Beside extra e e') (t : RoundTrip) (r : Response) :
    (e'.handleResponse t r).2 = (e.handleResponse t r).2 ∧
      Beside extra (e.handleResponse t r).1 (e'.handleResponse t r).1 := by
  unfold Engine.handleResponse
  split
  · exact ⟨rfl, h.notice _⟩
  · split
    · exact ⟨rfl, h.notice _⟩
    · next m _ =>
      have appended := (h.detail (passedOver r)).append m
      split
      · exact ⟨rfl, appended.detail _⟩
      · exact ⟨rfl, appended.publish t r⟩

theorem accept (h : Beside extra e e') (t : RoundTrip) (result : Except Error Response) :
    (e'.accept t result).2 = (e.accept t result).2 ∧
      Beside extra (e.accept t result).1 (e'.accept t result).1 := by
  have received := (h.record (.received t result)).detail (arrival t result)
  cases result with
  | error err => exact ⟨rfl, received.notice _⟩
  | ok r => exact received.handleResponse t r

theorem finish (h : Beside extra e e') (t : RoundTrip) :
    Beside extra (e.finish t) (e'.finish t) := by
  obtain ⟨inbox, bridge, logged, extended⟩ := h
  exact .intro inbox bridge _ (extended.cons _)

theorem sweep (h : Beside extra e e') : Beside extra e.sweep e'.sweep := by
  obtain ⟨inbox, bridge, logged, extended⟩ := h
  exact .intro inbox bridge _ (extended.cons _)

theorem launch (h : Beside extra e e') : Beside extra e.launch e'.launch := by
  obtain ⟨inbox, bridge, logged, extended⟩ := h
  exact .intro inbox bridge _ (extended.cons _)

theorem poll (h : Beside extra e e') : Beside extra e.poll.2 e'.poll.2 := by
  obtain ⟨inbox, bridge, logged, extended⟩ := h
  unfold Engine.poll
  cases e.outbox.pop? with
  | none => exact .intro inbox bridge _ extended
  | some front => exact .intro inbox bridge _ (extended.cons _)

theorem register (h : Beside extra e e') (name : String) (definition : ToolDefinition)
    (tool : Tool) :
    Beside extra (e.register name definition tool).2 (e'.register name definition tool).2 := by
  obtain ⟨inbox, bridge, logged, extended⟩ := h
  exact .intro inbox bridge _ (extended.append _)

theorem shutdown (h : Beside extra e e') : Beside extra e.shutdown e'.shutdown := by
  unfold Engine.shutdown
  rw [h.isRunning]
  split
  · obtain ⟨inbox, bridge, logged, extended⟩ := h
    exact .intro inbox bridge _ (extended.cons _)
  · exact h

theorem landed (h : Beside extra e e') (n : Nat) : Beside extra (e.landed n) (e'.landed n) := by
  obtain ⟨inbox, bridge, logged, extended⟩ := h
  exact .intro inbox bridge _ extended

theorem inFlight (h : Beside extra e e') : e'.inFlight = e.inFlight := by
  cases h
  rfl

end Beside

end Engine

end Parley
