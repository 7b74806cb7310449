import Mathlib.Data.List.Sort
import Parley.Proofs.Handlings
import Parley.Proofs.Lineage
import Parley.Proofs.RoundTrips
import Parley.Proofs.Schedules

/-! The order of answers where no tool is called. Prompts are sent in the order in which they were
submitted, but answers are published as the responses come, and nothing holds an answer back until
those before it are there. -/
namespace Parley

/-- Members of a list without repetitions stand in its order when their places increase. -/
theorem sublist_iff_idxOf {α : Type} [DecidableEq α] {some all : List α} (distinct : all.Nodup)
    (members : some ⊆ all) :
    List.Sublist some all ↔ (some.map (all.idxOf ·)).Pairwise (· < ·) := by
  have places : all.Pairwise fun a b => all.idxOf a < all.idxOf b := by
    rw [List.pairwise_iff_getElem]
    intro i j hi hj before
    rwa [distinct.idxOf_getElem i hi, distinct.idxOf_getElem j hj]
  rw [List.pairwise_map]
  constructor
  · intro sub
    exact places.sublist sub
  · intro increasing
    have antisymm : Std.Antisymm fun a b => all.idxOf a < all.idxOf b :=
      ⟨fun _ _ before after => absurd before (Nat.lt_asymm after)⟩
    have unlike : some.Nodup := increasing.imp fun before same => by simp [same] at before
    exact List.sublist_of_subperm_of_pairwise (List.subperm_of_subset unlike members) increasing
      places

/-- The response has an assistant message, and that calls no tools. -/
def Transport.Outcome.Plain (outcome : Transport.Outcome) : Prop :=
  ∃ r m, Transport.classify outcome = .ok r ∧ r.assistantMessage? = some m ∧ m.toolCalls = []

instance (outcome : Transport.Outcome) : Decidable outcome.Plain :=
  decidable_of_iff
    ((match Transport.classify outcome with
      | .ok r => r.assistantMessage?.any fun m => m.toolCalls.isEmpty
      | .error _ => false) = true) <| by
    unfold Transport.Outcome.Plain
    cases Transport.classify outcome with
    | error err => simp
    | ok r => cases found : r.assistantMessage? <;> simp [found]

/-- No response asks for calls, fails, or has nothing from the assistant. -/
@[simp] def Threads.Action.Plain : Threads.Action → Prop
  | .deliver _ outcome => outcome.Plain
  | _ => True

instance (a : Threads.Action) : Decidable a.Plain :=
  match a with
  | .deliver _ outcome => inferInstanceAs (Decidable outcome.Plain)
  | .launch | .firstWake | .push _ _ | .wake | .poll | .register _ _ _ | .shutdown | .takeWake
  | .sweep | .advance => isTrue trivial

theorem Answer.of?_promptId {received : List (RoundTrip × Except Error Response)}
    (answered : ∀ x ∈ received, (Answer.of? x).isSome) :
    (received.filterMap Answer.of?).map (·.promptId) = received.map (·.1.promptId) := by
  induction received with
  | nil => rfl
  | cons x received ih =>
      obtain ⟨t, result⟩ := x
      have rest := ih fun y later => answered y (List.mem_cons_of_mem _ later)
      obtain ⟨a, made⟩ := Option.isSome_iff_exists.mp (answered (t, result) List.mem_cons_self)
      obtain ⟨r, m, -, -, -, rfl⟩ := Answer.of?_eq_some made
      rw [List.filterMap_cons_some made, List.map_cons, List.map_cons, rest]

/-- The loop is not in the middle of a batch. -/
def Work.Unbatched : Work → Prop
  | .resolving _ calls => calls = []
  | .answering _ _ _ => False
  | _ => True

namespace Threads
open Engine

/-- Every response so far was an answer. -/
structure Direct (s : Threads) : Prop where
  unbatched : s.work.Unbatched
  sequence : s.engine.sequence = 0
  answered : ∀ x ∈ s.engine.received, (Answer.of? x).isSome

theorem new_direct (config : Config) : Direct (.new config) where
  unbatched := trivial
  sequence := rfl
  answered x member := by cases member

theorem Step.direct {s s' : Threads} {a : Action} (step : Step s a s') (h : Direct s)
    (plain : a.Plain) : Direct s' := by
  obtain ⟨unbatched, sequence, answered⟩ := h
  cases step with
  | drop t outcome n _ _ _ drops =>
      obtain ⟨r, m, classified, found, calls⟩ := plain
      have none := drops.answer t
      rw [classified] at none
      simp [Answer.of?, found, Message.hasToolCalls, calls] at none
  | batch t outcome r m _ _ _ classified found calls =>
      obtain ⟨r', m', classified', found', empty⟩ := plain
      obtain rfl : r' = r := by simpa [classified] using classified'.symm
      obtain rfl : m' = m := by simpa [found] using found'.symm
      exact absurd empty calls
  | answer t outcome r m _ _ _ _ found calls =>
      refine ⟨rfl, by simpa using sequence, ?_⟩
      simpa [or_imp, forall_and, Answer.of?, found, Message.hasToolCalls, calls] using answered
  | execute t c calls m work | skip t c calls work =>
      rw [work] at unbatched
      cases unbatched
  | feedBack t m calls work =>
      rw [work] at unbatched
      cases unbatched
  | takeWake | noPrompt | takePrompt | lastPrompt | morePrompts | rewake | dropPrompt | sendPrompt
  | finish => exact ⟨trivial, by simpa using sequence, by simpa using answered⟩
  | launch | firstWake | push | wake | poll | register | shutdown | abandon | sweep =>
      exact ⟨unbatched, by simpa using sequence, by simpa using answered⟩

theorem run_direct (config : Config) (actions : List Action) (plain : ∀ a ∈ actions, a.Plain) :
    Direct ((new config).run actions) := by
  refine run_record (P := fun actions s => (∀ a ∈ actions, a.Plain) → Direct s) ?_ ?_ ?_
    actions plain
  · intro _
    exact new_direct config
  · intro before a s h plain
    exact h fun b member => plain b (List.mem_append_left _ member)
  · intro before a s' h step plain
    have direct := h fun b member => plain b (List.mem_append_left _ member)
    exact step.direct direct (plain a (List.mem_append_right _ List.mem_cons_self))

/-- Each prompt with a text is sent once, in its turn. -/
theorem Direct.sent_prefix {s : Threads} (h : Direct s) (descended : Descended s)
    (order : s.engine.taken ++ s.engine.inbox.toList = s.engine.submitted)
    (texts : ∀ p ∈ s.engine.submitted, p.text ≠ "") :
    s.engine.sent.map (·.promptId) <+: s.engine.submitted.map (·.id) := by
  have unmade : s.engine.resubmissions = [] := by
    rw [← List.length_eq_zero_iff, descended.sequence, h.sequence]
  have opened : s.engine.openings = s.engine.sent := by
    refine List.filter_eq_self.mpr fun t member => decide_eq_true ?_
    by_contra unlike
    have made := mem_resubmissions.mpr ⟨member, unlike⟩
    rw [unmade] at made
    cases made
  have ids : s.engine.sent.map (·.promptId) = s.engine.openings.map (·.id) := by
    rw [← opened]
    exact List.map_congr_left fun t member => (mem_openings.mp member).2.symm
  have written : s.engine.taken.filter (fun p => p.text ≠ "") = s.engine.taken := by
    refine List.filter_eq_self.mpr fun p member => decide_eq_true (texts p ?_)
    rw [← order]
    exact List.mem_append_left _ member
  have prompts := descended.prompts
  rw [written] at prompts
  rw [ids, ← order, List.map_append, ← prompts, List.append_assoc]
  exact List.prefix_append _ _

/-- The number of a round trip is the place of its prompt. -/
theorem Accounted.idxOf_promptId {s : Threads} (h : Accounted s)
    (turns : s.engine.sent.map (·.promptId) <+: s.engine.submitted.map (·.id))
    (distinct : (s.engine.submitted.map (·.id)).Nodup) {t : RoundTrip}
    (member : t ∈ s.engine.sent) :
    (s.engine.submitted.map (·.id)).idxOf t.promptId = t.number := by
  obtain ⟨i, inside, rfl⟩ := List.getElem_of_mem member
  have number : s.engine.sent[i].number = i := by
    have numbers := List.getElem_of_eq h.numbers (by simpa using inside : i < _)
    simpa using numbers
  have place := turns.getElem (by simpa using inside : i < _)
  rw [List.getElem_map] at place
  rw [number, place]
  exact distinct.idxOf_getElem i _

/-- Where no tool is called, prompts are sent in the order in which they were submitted, and answers
are published in the order in which the responses come. So the answers follow the prompts exactly
when each response comes before those of later requests. -/
theorem answers_in_order_iff (config : Config) (actions : List Action)
    (plain : ∀ a ∈ actions, a.Plain)
    (distinct : (((new config).run actions).engine.submitted.map (·.id)).Nodup)
    (texts : ∀ p ∈ ((new config).run actions).engine.submitted, p.text ≠ "") :
    let e := ((new config).run actions).engine
    e.sent.map (·.promptId) <+: e.submitted.map (·.id) ∧
    e.published.map (·.promptId) = e.received.map (·.1.promptId) ∧
    ((e.published.map (·.promptId)).Sublist (e.submitted.map (·.id)) ↔
      (e.received.map (·.1.number)).Pairwise (· < ·)) ∧
    (e.received.length = e.submitted.length →
      (e.published.map (·.promptId) = e.submitted.map (·.id) ↔
        (e.received.map (·.1.number)).Pairwise (· < ·))) := by
  intro e
  have direct : Direct ((new config).run actions) := run_direct config actions plain
  have accounted := run_accounted config actions
  have turns : e.sent.map (·.promptId) <+: e.submitted.map (·.id) :=
    direct.sent_prefix (run_descended config actions) (run_order config actions) texts
  have answers : e.published = e.received.filterMap Answer.of? :=
    (run_handled config actions).published
  have published : e.published.map (·.promptId) = e.received.map (·.1.promptId) := by
    rw [answers]
    exact Answer.of?_promptId direct.answered
  have sent : ∀ x ∈ e.received, x.1 ∈ e.sent := fun x member =>
    accounted.received_sent (List.mem_map_of_mem member)
  have places : (e.received.map (·.1.promptId)).map ((e.submitted.map (·.id)).idxOf ·) =
      e.received.map (·.1.number) := by
    rw [List.map_map]
    exact List.map_congr_left fun x member =>
      accounted.idxOf_promptId turns distinct (sent x member)
  have members : e.received.map (·.1.promptId) ⊆ e.submitted.map (·.id) := by
    intro id member
    obtain ⟨x, received, rfl⟩ := List.mem_map.mp member
    exact turns.subset (List.mem_map_of_mem (sent x received))
  have ordered := sublist_iff_idxOf distinct members
  rw [places] at ordered
  refine ⟨turns, published, by rw [published, ordered], fun all => ?_⟩
  rw [published, ← ordered]
  constructor
  · intro same
    rw [same]
  · intro sub
    exact sub.eq_of_length (by simpa using all)

/-- Two prompts and their responses, those of the given numbers one after the other. -/
def twoPrompts (first second : Nat) : List Action :=
  let reply (text : String) : Transport.Outcome := .ok ⟨200, none, (Preset.assistant text).body⟩
  [.launch, .push "a" "Hello.", .wake, .push "b" "Hello again.", .wake,
    .takeWake, .advance, .advance, .advance, .advance, .takeWake, .advance, .advance, .advance,
    .deliver first (reply "The first to come."), .advance,
    .deliver second (reply "The second to come."), .advance]

theorem twoPrompts_in_order :
    let e := ((new defaultConfig).run (twoPrompts 0 1)).engine
    e.submitted.map (·.id) = ["a", "b"] ∧ e.received.map (·.1.number) = [0, 1] ∧
    e.published.map (·.promptId) = e.submitted.map (·.id) := by
  intro e
  have plain : ∀ a ∈ twoPrompts 0 1, a.Plain := by decide +kernel
  have ids : e.submitted.map (·.id) = ["a", "b"] ∧ e.received.map (·.1.number) = [0, 1] ∧
      e.received.length = e.submitted.length ∧ ∀ p ∈ e.submitted, p.text ≠ "" := by
    decide +kernel
  obtain ⟨submitted, numbers, all, texts⟩ := ids
  have distinct : (e.submitted.map (·.id)).Nodup := by
    rw [submitted]
    decide
  obtain ⟨-, -, -, order⟩ := answers_in_order_iff _ _ plain distinct texts
  refine ⟨submitted, numbers, (order all).mpr ?_⟩
  rw [numbers]
  decide

/-- The response to the second prompt comes first, and so does its answer. -/
theorem twoPrompts_overtaken :
    let e := ((new defaultConfig).run (twoPrompts 1 0)).engine
    (∀ a ∈ twoPrompts 1 0, a.Plain) ∧ (∀ p ∈ e.submitted, p.text ≠ "") ∧
    e.submitted.map (·.id) = ["a", "b"] ∧ e.published.map (·.promptId) = ["b", "a"] := by
  decide +kernel

end Threads

end Parley
