import Parley.Proofs.Unmoved

/-! Runs without one of the responses. The loop takes no time for it, and goes on with the rest. -/
namespace Parley

namespace Threads
open Engine

/-- The engines are the same but for what the response to `t` is about, and all threads stand where
they would; what the loop is in the middle of is left open. -/
structure Unmoved (t : RoundTrip) (s s' : Threads) : Prop where
  engine : Engine.Unmoved t s.engine s'.engine
  submitting : s'.submitting = s.submitting
  starting : s'.starting = s.starting

/-- What a loop in the middle of something leaves undone. -/
def Action.waits : Action → Bool
  | .shutdown | .takeWake | .deliver _ _ | .sweep => true
  | _ => false

theorem step_of_waits {s : Threads} (busy : s.work ≠ .idle) {a : Action} (waits : a.waits = true) :
    s.step a = s := by
  cases a with
  | shutdown | takeWake | deliver | sweep => exact whenIdle_of_busy busy _
  | _ => cases waits

namespace Unmoved

variable {t : RoundTrip} {s s' : Threads}

/-- What callers do does not depend on the loop. -/
theorem caller (h : Unmoved t s s') {a : Action} (free : a.waits = false) (other : a ≠ .advance) :
    Unmoved t (s.step a) (s'.step a) ∧ (s.step a).work = s.work ∧ (s'.step a).work = s'.work := by
  cases a with
  | launch =>
      rw [step, step, h.engine.phase]
      cases s.engine.phase with
      | fresh => exact ⟨⟨h.engine.launch, h.submitting, rfl⟩, rfl, rfl⟩
      | running | stopped => exact ⟨h, rfl, rfl⟩
  | firstWake =>
      rw [step, step, h.starting]
      split
      · exact ⟨⟨h.engine.wake, h.submitting, rfl⟩, rfl, rfl⟩
      · exact ⟨h, rfl, rfl⟩
  | push id text =>
      exact ⟨⟨h.engine.push id text, congrArg (· + 1) h.submitting, h.starting⟩, rfl, rfl⟩
  | wake =>
      rw [step, step, h.submitting]
      split
      · exact ⟨⟨h.engine.wake, rfl, h.starting⟩, rfl, rfl⟩
      · exact ⟨h, rfl, rfl⟩
  | poll => exact ⟨⟨h.engine.poll.2, h.submitting, h.starting⟩, rfl, rfl⟩
  | register name definition tool =>
      exact ⟨⟨(h.engine.register name definition tool).2, h.submitting, h.starting⟩, rfl, rfl⟩
  | shutdown | takeWake | deliver | sweep => cases free
  | advance => contradiction

theorem advance (h : Unmoved t s s') (work : s'.work = s.work) :
    Unmoved t s.advance s'.advance ∧ s'.advance.work = s.advance.work := by
  obtain ⟨engine, submitting, starting⟩ := h
  unfold Threads.advance
  rw [work]
  cases stage : s.work with
  | idle => exact ⟨⟨engine, submitting, starting⟩, work⟩
  | woken =>
      unfold takePrompt?
      rw [engine.inbox]
      cases s.engine.inbox.pop? with
      | none => exact ⟨⟨engine.detail _, submitting, starting⟩, rfl⟩
      | some front =>
          exact ⟨⟨{ engine.record (.taken front.1) with inbox := rfl }, submitting, starting⟩, rfl⟩
  | taken p =>
      rw [engine.inbox]
      exact ⟨⟨engine, submitting, starting⟩, rfl⟩
  | rewaking p => exact ⟨⟨engine.wake, submitting, starting⟩, rfl⟩
  | receiving p => exact ⟨⟨engine.receive p, submitting, starting⟩, rfl⟩
  | resolving u calls =>
      cases calls with
      | nil => exact ⟨⟨engine.finish u, submitting, starting⟩, rfl⟩
      | cons c calls =>
          obtain ⟨message, executed⟩ := engine.execute c
          dsimp only
          rw [← Prod.eta (s'.engine.execute c), message]
          rcases ran : s.engine.execute c with ⟨_ | m, called⟩
          · rw [ran] at executed
            exact ⟨⟨executed, submitting, starting⟩, rfl⟩
          · rw [ran] at executed
            exact ⟨⟨executed, submitting, starting⟩, rfl⟩
  | answering u m calls =>
      exact ⟨⟨engine.feedBack u.promptId m, submitting, starting⟩, rfl⟩

theorem deliver (h : Unmoved t s s') (work : s'.work = s.work) {n : Nat} (other : n ≠ t.number)
    (outcome : Transport.Outcome) :
    Unmoved t (s.deliver n outcome) (s'.deliver n outcome) ∧
      (s'.deliver n outcome).work = (s.deliver n outcome).work := by
  obtain ⟨engine, submitting, starting⟩ := h
  unfold Threads.deliver land?
  rw [engine.find_inFlight other, engine.isRunning]
  cases s.engine.inFlight.find? fun u => u.number = n with
  | none => exact ⟨⟨engine, submitting, starting⟩, work⟩
  | some u =>
      have landed := engine.landed n
      cases s.engine.isRunning with
      | true =>
          obtain ⟨calls, accepted⟩ := landed.accept u (Transport.classify outcome)
          exact ⟨⟨accepted, submitting, starting⟩, congrArg (Work.resolving u) calls⟩
      | false => exact ⟨⟨landed, submitting, starting⟩, work⟩

theorem whenIdle (h : Unmoved t s s') (work : s'.work = s.work) {next next' : Threads}
    (moved : Unmoved t next next' ∧ next'.work = next.work) :
    Unmoved t (s.whenIdle next) (s'.whenIdle next') ∧
      (s'.whenIdle next').work = (s.whenIdle next).work := by
  unfold Threads.whenIdle
  rw [work]
  split
  · exact moved
  · exact ⟨h, work⟩

/-- Threads that stand alike go on alike, as long as `t` is not answered. -/
theorem step (h : Unmoved t s s') (work : s'.work = s.work) {a : Action}
    (other : ∀ outcome, a ≠ .deliver t.number outcome) :
    Unmoved t (s.step a) (s'.step a) ∧ (s'.step a).work = (s.step a).work := by
  by_cases advances : a = .advance
  · subst advances
    exact h.advance work
  cases waits : a.waits with
  | false =>
      obtain ⟨moved, still, still'⟩ := h.caller waits advances
      exact ⟨moved, by rw [still, still', work]⟩
  | true =>
      cases a with
      | shutdown =>
          exact h.whenIdle work ⟨⟨h.engine.shutdown, h.submitting, h.starting⟩, work⟩
      | takeWake =>
          refine h.whenIdle work ?_
          rw [h.engine.isRunning]
          split
          · rcases h.engine.takeWake? with ⟨none, none'⟩ | ⟨e, e', some, some', woken⟩
            · rw [none, none']
              exact ⟨h, work⟩
            · rw [some, some']
              exact ⟨⟨woken, h.submitting, h.starting⟩, rfl⟩
          · exact ⟨h, work⟩
      | deliver n outcome =>
          refine h.whenIdle work (h.deliver work ?_ outcome)
          rintro rfl
          exact other outcome rfl
      | sweep =>
          refine h.whenIdle work ?_
          rw [h.engine.isRunning]
          split
          · exact ⟨⟨h.engine.sweep, h.submitting, h.starting⟩, work⟩
          · exact ⟨h, work⟩
      | _ => cases waits

end Unmoved

/-- The round trip was sent, and no response to it is awaited. -/
structure Gone (t : RoundTrip) (s : Threads) : Prop where
  sent : t.number < s.engine.opened
  landed : ∀ u ∈ s.engine.inFlight, u.number ≠ t.number

theorem Step.gone {t : RoundTrip} {s s' : Threads} {a : Action} (step : Step s a s')
    (h : Gone t s) : Gone t s' := by
  obtain ⟨sent, landed⟩ := h
  have unlike : s.engine.opened ≠ t.number := Nat.ne_of_gt sent
  cases step with
  | sendPrompt p | feedBack u m =>
      constructor
      · simpa using Nat.lt_succ_of_lt sent
      · simpa [or_imp, forall_and, unlike] using landed
  | abandon u | drop u | answer u | batch u =>
      constructor
      · simpa using sent
      · intro v member
        exact landed v (List.mem_of_mem_filter member)
  | _ => exact ⟨by simpa using sent, by simpa using landed⟩

theorem Gone.step {t : RoundTrip} {s : Threads} (h : Gone t s) (a : Action) :
    Gone t (s.step a) := by
  rcases step_cases s a with same | step
  · rw [same]
    exact h
  · exact step.gone h

theorem Gone.deliver {t : RoundTrip} {s : Threads} (h : Gone t s) (outcome : Transport.Outcome) :
    s.step (.deliver t.number outcome) = s := by
  have none : (s.engine.inFlight.find? fun u => u.number = t.number) = none := by
    simpa using h.landed
  have same : s.deliver t.number outcome = s := by
    simp [Threads.deliver, land?, none]
  by_cases idle : s.work = .idle
  · rw [Threads.step, whenIdle_of_idle idle, same]
  · exact whenIdle_of_busy idle _

def Action.delivers (n : Nat) : Action → Bool
  | .deliver m _ => m = n
  | _ => false

theorem Action.delivers_iff {n : Nat} {a : Action} :
    a.delivers n = true ↔ ∃ outcome, a = .deliver n outcome := by
  cases a with
  | deliver m outcome => simp [delivers]
  | _ => simp [delivers]

/-- What is left of the actions that follow a response to the round trip number `n`, if that comes
to nothing and is taken away. The loop was in the middle of it up to its next step; what waited for
the loop meanwhile was not done and is not done now. No later response answers `n`. -/
def unanswered (n : Nat) : List Action → List Action
  | [] => []
  | .advance :: actions => actions.filter fun a => !a.delivers n
  | a :: actions => if a.waits then unanswered n actions else a :: unanswered n actions

namespace Unmoved

variable {t : RoundTrip} {s s' : Threads}

theorem run (h : Unmoved t s s') (work : s'.work = s.work) (gone : Gone t s)
    (actions : List Action) :
    Unmoved t (s.run actions) (s'.run (actions.filter fun a => !a.delivers t.number)) := by
  induction actions generalizing s s' with
  | nil => exact h
  | cons a actions ih =>
      cases delivers : a.delivers t.number with
      | true =>
          -- Nothing is in flight under that number any more, so the whole run stays as it is too.
          obtain ⟨outcome, rfl⟩ := Action.delivers_iff.mp delivers
          rw [List.filter_cons_of_neg (by simp [delivers])]
          change Unmoved t ((s.step _).run actions) _
          rw [gone.deliver]
          exact ih h work gone
      | false =>
          have other : ∀ outcome, a ≠ .deliver t.number outcome := by
            intro outcome same
            rw [Action.delivers_iff.mpr ⟨outcome, same⟩] at delivers
            cases delivers
          obtain ⟨next, still⟩ := h.step work other
          rw [List.filter_cons_of_pos (by simp [delivers])]
          exact ih next still (gone.step a)

/-- The loop goes on after it is done with the response, or goes on without it. -/
theorem unanswered (h : Unmoved t s s') (busy : s.work = .resolving t []) (idle : s'.work = .idle)
    (gone : Gone t s) (actions : List Action) :
    Unmoved t (s.run actions) (s'.run (Threads.unanswered t.number actions)) := by
  induction actions generalizing s s' with
  | nil => exact h
  | cons a actions ih =>
      by_cases advances : a = .advance
      · -- The whole run is done with the response here, and from here on the threads stand alike.
        subst advances
        have finished :
            s.step .advance = { s with engine := s.engine.finish t, work := .idle } := by
          simp only [Threads.step, Threads.advance, busy]
        have next : Unmoved t (s.step .advance) s' := by
          rw [finished]
          exact ⟨h.engine.finished, h.submitting, h.starting⟩
        have still : s'.work = (s.step .advance).work := by
          rw [finished, idle]
        exact next.run still (gone.step .advance) actions
      have rest : Threads.unanswered t.number (a :: actions) =
          if a.waits then Threads.unanswered t.number actions
          else a :: Threads.unanswered t.number actions := by
        cases a with
        | advance => contradiction
        | _ => rfl
      rw [rest]
      cases waits : a.waits with
      | true =>
          have same : s.step a = s := step_of_waits (by simp [busy]) waits
          change Unmoved t ((s.step a).run actions) _
          rw [same]
          exact ih h busy idle gone
      | false =>
          obtain ⟨next, still, still'⟩ := h.caller waits advances
          exact ih next (still.trans busy) (still'.trans idle) (gone.step a)

end Unmoved

end Threads

end Parley
