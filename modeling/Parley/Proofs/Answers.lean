import Mathlib.Data.List.Forall2
import Parley.Engine.Calls
import Parley.Proofs.Lineage
import Parley.Proofs.Requests
import Parley.Proofs.RoundTrips
import Parley.Proofs.Schedules

/-! Where answers come from. Each stems from one round trip, and through the round trips before it
from one prompt, as its id tells. -/
namespace Parley

/-- What `f` makes of a list goes with the members it makes something of. -/
theorem forall₂_filterMap {α β γ : Type} {f : α → Option β} {g : α → γ} {R : γ → β → Prop}
    {l : List α} (related : ∀ x ∈ l, ∀ y, f x = some y → R (g x) y) :
    List.Forall₂ R ((l.filter fun x => (f x).isSome).map g) (l.filterMap f) := by
  induction l with
  | nil => exact .nil
  | cons x l ih =>
      have rest := ih fun y later => related y (List.mem_cons_of_mem _ later)
      cases made : f x with
      | none =>
          rw [List.filter_cons_of_neg (by simp [made]), List.filterMap_cons_none made]
          exact rest
      | some y =>
          rw [List.filter_cons_of_pos (by simp [made]), List.filterMap_cons_some made]
          exact .cons (related x List.mem_cons_self y made) rest

namespace Threads
open Engine

theorem Step.polled {s s' : Threads} {a : Action} (step : Step s a s')
    (h : s.engine.polled ++ s.engine.outbox.toList = s.engine.published) :
    s'.engine.polled ++ s'.engine.outbox.toList = s'.engine.published := by
  cases step with
  | poll a rest head =>
      rw [head] at h
      simpa using h
  | answer t outcome r m => simpa [← List.append_assoc] using h
  | _ => simpa using h

theorem run_polled (config : Config) (actions : List Action) :
    ((new config).run actions).engine.polled ++ ((new config).run actions).engine.outbox.toList =
      ((new config).run actions).engine.published :=
  run_preserves
    (P := fun s => s.engine.polled ++ s.engine.outbox.toList = s.engine.published) rfl
    (fun _ _ _ h step => step.polled h) actions

theorem answersAt_of_ne (s : Threads) {a : Action} (unlike : a ≠ .poll) : s.answersAt a = [] := by
  cases a with
  | poll => contradiction
  | _ => rfl

theorem Step.unpolled {s s' : Threads} {a : Action} (step : Step s a s') (unlike : a ≠ .poll) :
    s'.engine.polled = s.engine.polled := by
  cases step with
  | poll => contradiction
  | _ => simp

theorem step_polled (s : Threads) (a : Action) :
    (s.step a).engine.polled = s.engine.polled ++ s.answersAt a := by
  by_cases poll : a = .poll
  · subst poll
    change s.engine.poll.2.polled = s.engine.polled ++ s.engine.poll.1.toList
    unfold Engine.poll
    cases s.engine.outbox.pop? <;> simp
  · rw [s.answersAt_of_ne poll, List.append_nil]
    rcases step_cases s a with same | step
    · rw [same]
    · exact step.unpolled poll

/-- What the journal tells of polls is what callers were given. -/
theorem run_polled_given (s : Threads) (actions : List Action) :
    (s.run actions).engine.polled = s.engine.polled ++ s.given actions := by
  induction actions generalizing s with
  | nil => exact (List.append_nil _).symm
  | cons a actions ih =>
      change ((s.step a).run actions).engine.polled = _
      rw [ih, step_polled, List.append_assoc]
      rfl

/-- Callers are given the answers in the order of publication, and what they are not given yet
waits. -/
theorem run_given (config : Config) (actions : List Action) :
    (new config).given actions ++ ((new config).run actions).engine.outbox.toList =
      ((new config).run actions).engine.published := by
  rw [← run_polled config actions, run_polled_given]
  rfl

theorem reply_poll (s : Threads) : s.reply .poll = s.engine.outbox.toList.head? := by
  change s.engine.poll.1 = _
  unfold Engine.poll Queue.pop?
  cases s.engine.outbox.toList <;> rfl

/-- The next poll is given the first answer that was not given yet. -/
theorem reply_next {s : Threads} {given : List Answer}
    (answers : given ++ s.engine.outbox.toList = s.engine.published) :
    s.reply .poll = s.engine.published[given.length]? := by
  rw [reply_poll, ← answers, List.getElem?_append_right (Nat.le_refl _), Nat.sub_self,
    List.head?_eq_getElem?]

/-- What the loop sends a round trip for. -/
inductive Origin (s : Threads) (t : RoundTrip) : Prop
  | prompt (p : Prompt) : s.work = .receiving p → p.text ≠ "" → t.id = p.id →
      t.promptId = p.id → Origin s t
  | result (u : RoundTrip) (m : Message) (calls : List ToolCall) :
      s.work = .answering u m calls → t.promptId = u.promptId →
      t.id = correlationId u.promptId (s.engine.sequence + 1) → Origin s t

theorem Step.sent_cases {s s' : Threads} {a : Action} (step : Step s a s') :
    s'.engine.sent = s.engine.sent ∨
      ∃ t, s'.engine.sent = s.engine.sent ++ [t] ∧ a = .advance ∧ Origin s t := by
  cases step with
  | sendPrompt p work text =>
      refine .inr ⟨(s.engine.append (.user p.text)).nextTrip p.id p.id, by simp [nextRequest], rfl, ?_⟩
      exact .prompt p work text rfl rfl
  | feedBack u m calls work =>
      let id := correlationId u.promptId (s.engine.sequence + 1)
      refine .inr ⟨(s.engine.append m).nextTrip id u.promptId, by simp [id, nextRequest], rfl, ?_⟩
      exact .result u m calls work rfl rfl
  | _ => exact .inl (by simp)

theorem step_sent {s : Threads} {a : Action} {t : RoundTrip}
    (grown : (s.step a).engine.sent = s.engine.sent ++ [t]) : a = .advance ∧ Origin s t := by
  rcases step_cases s a with same | step
  · rw [same] at grown
    exact absurd grown (by simp)
  rcases step.sent_cases with same | ⟨u, latest, advance, origin⟩
  · exact absurd (same.symm.trans grown) (by simp)
  · obtain rfl : u = t := by simpa using latest.symm.trans grown
    exact ⟨advance, origin⟩

/-- Each round trip goes back to a prompt with a text. -/
def Prompted (e : Engine) : Prop :=
  ∀ t ∈ e.sent, ∃ p ∈ e.taken, p.id = t.promptId ∧ p.text ≠ ""

theorem Step.prompted {s s' : Threads} {a : Action} (step : Step s a s')
    (accounted : Accounted s) (windowed : Windowed s) (h : Prompted s.engine) :
    Prompted s'.engine := by
  have still : s.engine.taken ⊆ s'.engine.taken :=
    (tell_sublist Entry.taken? step.journal).subset
  have older : ∀ t ∈ s.engine.sent, ∃ p ∈ s'.engine.taken, p.id = t.promptId ∧ p.text ≠ "" := by
    intro t member
    obtain ⟨p, taken, prompt⟩ := h t member
    exact ⟨p, still taken, prompt⟩
  intro t member
  rcases step.sent_cases with same | ⟨latest, grown, -, origin⟩
  · exact older t (same ▸ member)
  rw [grown, List.mem_append, List.mem_singleton] at member
  rcases member with earlier | rfl
  · exact older t earlier
  cases origin with
  | prompt p work text _ promptId =>
      have taken := List.mem_of_getLast? (windowed.drained p (by simp [work]))
      exact ⟨p, still taken, promptId.symm, text⟩
  | result u m calls work promptId _ =>
      rw [promptId]
      exact older u (accounted.handling_sent (by simp [work]))

theorem run_prompted (config : Config) (actions : List Action) :
    Prompted ((new config).run actions).engine := by
  refine run_induction (P := fun s => Prompted s.engine) ?_ ?_ actions
  · intro t member
    cases member
  · intro before a s' prompted step
    exact step.prompted (run_accounted config before) (run_windowed config before) prompted

section

variable (config : Config) (actions : List Action)

/-- The round trip is sent for a prompt, on its way from the inbox. -/
def SentForPrompt (t : RoundTrip) : Prop :=
  ∃ s p, Takes config actions s .advance ∧ s.work = .receiving p ∧
    (s.step .advance).engine.sent = s.engine.sent ++ [t]

/-- The round trip is sent for the result of a call, and is the `n`th that is. -/
def SentForResult (t : RoundTrip) (n : Nat) : Prop :=
  ∃ s u m calls, Takes config actions s .advance ∧ s.work = .answering u m calls ∧
    (s.step .advance).engine.sent = s.engine.sent ++ [t] ∧ t.promptId = u.promptId ∧
    n = s.engine.resubmissions.length + 1

end

variable {config : Config} {actions : List Action}

theorem SentForPrompt.id_eq {t : RoundTrip} (opened : SentForPrompt config actions t) :
    t.id = t.promptId := by
  obtain ⟨s, p, -, work, grown⟩ := opened
  cases (step_sent grown).2 with
  | prompt q _ _ lent promptId => exact lent.trans promptId.symm
  | result u m calls other _ _ =>
      rw [work] at other
      cases other

theorem sent_origin {t : RoundTrip} (sent : t ∈ ((new config).run actions).engine.sent) :
    SentForPrompt config actions t ∨
      ∃ n, SentForResult config actions t n ∧ t.id = correlationId t.promptId n := by
  obtain ⟨earlier, later, split⟩ := List.append_of_mem sent
  obtain ⟨s, a, taken, before, grown⟩ := run_sent split
  rw [← before] at grown
  obtain ⟨rfl, origin⟩ := step_sent grown
  cases origin with
  | prompt p work _ _ _ => exact .inl ⟨s, p, taken, work, grown⟩
  | result u m calls work promptId number =>
      -- The counter has numbered the resubmissions so far, so it gives this one its place.
      have count : s.engine.resubmissions.length = s.engine.sequence := by
        obtain ⟨done, rest, -, reached⟩ := taken
        rw [← reached]
        exact (run_descended config done).sequence
      refine .inr ⟨_, ⟨s, u, m, calls, taken, work, grown, promptId, rfl⟩, ?_⟩
      rw [number, promptId, count]

theorem sent_id_iff {t : RoundTrip} (sent : t ∈ ((new config).run actions).engine.sent) :
    t.id = t.promptId ↔ SentForPrompt config actions t := by
  refine ⟨fun same => ?_, SentForPrompt.id_eq⟩
  rcases sent_origin sent with opened | ⟨n, -, made⟩
  · exact opened
  · exact absurd (made.symm.trans same) (correlationId_ne _ _)

theorem Step.received_cases {s s' : Threads} {a : Action} (step : Step s a s') :
    s'.engine.received = s.engine.received ∨
      ∃ x, s'.engine.received = s.engine.received ++ [x] := by
  cases step with
  | drop t outcome | answer t outcome r | batch t outcome r => exact .inr ⟨(t, _), by simp; rfl⟩
  | _ => exact .inl (by simp)

/-- From `s` to `s'`, the loop takes in the outcome of the round trip `t` and publishes the answer
`a`. -/
structure Publishes (s s' : Threads) (t : RoundTrip) (outcome : Transport.Outcome) (a : Answer) :
    Prop where
  flying : t ∈ s.engine.inFlight
  decoded : Transport.classify outcome = .ok a.response
  published : s'.engine.published = s.engine.published ++ [a]
  message : ∃ m, a.response.assistantMessage? = some m ∧ m.toolCalls = [] ∧
    s'.engine.appended = s.engine.appended ++ [m] ∧ a.response.content = m.content

theorem Step.publishes {s s' : Threads} {x : Action} {t : RoundTrip} {r : Response} {a : Answer}
    (step : Step s x s') (grown : s'.engine.received = s.engine.received ++ [(t, .ok r)])
    (answered : Answer.of? (t, .ok r) = some a) :
    ∃ outcome, x = .deliver t.number outcome ∧ Publishes s s' t outcome a := by
  cases step with
  | drop u outcome n _ _ _ drops =>
      obtain ⟨rfl, classified⟩ : u = t ∧ Transport.classify outcome = .ok r := by
        simpa using grown
      rw [classified] at drops
      exact absurd answered (by simp [drops.answer u])
  | answer u outcome r' m _ _ flying classified found calls =>
      obtain ⟨rfl, rfl⟩ : u = t ∧ r' = r := by simpa using grown
      obtain ⟨_, _, same, -, -, rfl⟩ := Answer.of?_eq_some answered
      cases same
      refine ⟨outcome, rfl, flying, classified, by simp, m, found, calls, by simp, ?_⟩
      simp [Response.content, found]
  | batch u outcome r' m _ _ _ _ found calls =>
      obtain ⟨rfl, rfl⟩ : u = t ∧ r' = r := by simpa using grown
      simp [Answer.of?, found, Message.hasToolCalls, calls] at answered
  | _ => exact absurd grown (by simp)

/-- Where the answer `a` comes from: the round trip `t`, and the prompt it goes back to. -/
structure Stems (config : Config) (actions : List Action) (t : RoundTrip) (a : Answer) :
    Prop where
  status : a.status = 0
  error : a.error = "OK"
  id : a.id = t.id
  promptId : a.promptId = t.promptId
  sent : t ∈ ((new config).run actions).engine.sent
  published : ∃ s outcome, Takes config actions s (.deliver t.number outcome) ∧
    Publishes s (s.step (.deliver t.number outcome)) t outcome a
  prompt : ∃ p ∈ ((new config).run actions).engine.taken, p.id = a.promptId ∧ p.text ≠ ""
  lent : a.id = a.promptId ↔ SentForPrompt config actions t
  made : a.id ≠ a.promptId →
    ∃ n, SentForResult config actions t n ∧ a.id = a.promptId ++ "#" ++ toString n

theorem received_stems {t : RoundTrip} {result : Except Error Response} {a : Answer}
    (received : (t, result) ∈ ((new config).run actions).engine.received)
    (answered : Answer.of? (t, result) = some a) : Stems config actions t a := by
  have sent : t ∈ ((new config).run actions).engine.sent :=
    (run_accounted config actions).received_sent (List.mem_map_of_mem received)
  obtain ⟨r, m, rfl, found, calls, rfl⟩ := Answer.of?_eq_some answered
  have published : ∃ s outcome, Takes config actions s (.deliver t.number outcome) ∧
      Publishes s (s.step (.deliver t.number outcome)) t outcome
        ⟨0, "OK", t.id, t.promptId, r⟩ := by
    obtain ⟨earlier, later, split⟩ := List.append_of_mem received
    obtain ⟨s, x, taken, before, grown⟩ :=
      run_adds (fun s => s.engine.received) rfl (fun _ _ _ step => step.received_cases) split
    rw [← before] at grown
    rcases step_cases s x with same | step
    · rw [same] at grown
      exact absurd grown (by simp)
    · obtain ⟨outcome, rfl, publishes⟩ := step.publishes grown answered
      exact ⟨s, outcome, taken, publishes⟩
  exact
    { status := rfl
      error := rfl
      id := rfl
      promptId := rfl
      sent
      published
      prompt := run_prompted config actions t sent
      lent := sent_id_iff sent
      made := fun unlike => (sent_origin sent).resolve_left fun opened => unlike opened.id_eq }

/-- Published answers are sound. Callers are given them in the order in which their responses were
handled, each once at most and one with each poll, and no two stem from one round trip. -/
theorem published_answers_sound (config : Config) (actions : List Action) :
    let s := (new config).run actions
    let e := s.engine
    (new config).given actions ++ e.outbox.toList = e.published ∧
    s.reply .poll = e.published[((new config).given actions).length]? ∧
    (∀ t ∈ e.sent, t.id = t.promptId ↔ SentForPrompt config actions t) ∧
    ∃ trips : List RoundTrip, trips.Sublist (e.handled ++ s.work.handling) ∧
      (trips.map (·.number)).Nodup ∧ List.Forall₂ (Stems config actions) trips e.published := by
  intro s e
  have accounted : Accounted s := run_accounted config actions
  have answers : e.published = e.received.filterMap Answer.of? :=
    (run_handled config actions).published
  -- The round trips asked for are those whose responses made an answer, as they were received.
  have received : List.Sublist ((e.received.filter fun x => (Answer.of? x).isSome).map (·.1))
      (e.received.map (·.1)) := List.filter_sublist.map _
  have stems : List.Forall₂ (Stems config actions)
      ((e.received.filter fun x => (Answer.of? x).isSome).map (·.1))
      (e.received.filterMap Answer.of?) :=
    forall₂_filterMap fun _ member _ answered => received_stems member answered
  rw [accounted.handled] at received
  rw [← answers] at stems
  have answered := run_given config actions
  refine ⟨answered, reply_next answered, fun t => sent_id_iff, _, received, ?_, stems⟩
  have distinct := accounted.received_distinct
  rw [accounted.handled] at distinct
  exact (received.map _).nodup distinct

theorem callsTwice_answered :
    let actions := callsTwice ++ [.poll, .poll, .poll]
    let e := ((new defaultConfig).run actions).engine
    ((new defaultConfig).given actions).map (fun a => (a.id, a.promptId, a.response.content)) =
      [("a#2", "a", "Second."), ("a#1", "a", "First.")] ∧
    ∃ trips : List RoundTrip, trips.map (·.id) = ["a#2", "a#1"] ∧
      (trips.map (·.number)).Nodup ∧ List.Forall₂ (Stems defaultConfig actions) trips e.published := by
  intro actions e
  obtain ⟨-, -, -, trips, -, distinct, stems⟩ := published_answers_sound defaultConfig actions
  have published : e.published.map (·.id) = ["a#2", "a#1"] := by decide +kernel
  have same : List.Forall₂ (· = ·) (trips.map (·.id)) (e.published.map (·.id)) := by
    rw [List.forall₂_map_left_iff, List.forall₂_map_right_iff]
    exact stems.imp fun _ _ stem => stem.id.symm
  rw [List.forall₂_eq_eq_eq, published] at same
  exact ⟨by decide +kernel, trips, same, distinct, stems⟩

end Threads

end Parley
