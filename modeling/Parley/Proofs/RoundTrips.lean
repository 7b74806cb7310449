import Mathlib.Data.List.Nodup
import Parley.Proofs.Steps

/-! Where the round trips are. Each is numbered when it is sent, lands once, and is handled from
then until the loop goes on. -/
namespace Parley

/-- Of a list in two parts that have no key in common, what has no key of the first part is the
second. -/
theorem filter_keys_perm {α β : Type} [DecidableEq β] {key : α → β} {all first second : List α}
    (distinct : (all.map key).Nodup) (parts : all.Perm (first ++ second)) :
    (all.filter fun x => key x ∉ first.map key).Perm second := by
  have apart := (parts.map key).nodup_iff.mp distinct
  rw [List.map_append, List.nodup_append] at apart
  have gone : first.filter (fun x => key x ∉ first.map key) = [] := by
    refine List.filter_eq_nil_iff.mpr fun x member => ?_
    simpa using ⟨x, member, rfl⟩
  have kept : second.filter (fun x => key x ∉ first.map key) = second := by
    refine List.filter_eq_self.mpr fun x member => decide_eq_true fun inside => ?_
    exact apart.2.2 _ inside _ (List.mem_map.mpr ⟨x, member, rfl⟩) rfl
  have filtered := parts.filter fun x => key x ∉ first.map key
  rwa [List.filter_append, gone, kept, List.nil_append] at filtered

/-- A round trip taken out of a list, where its number tells it from the rest. -/
theorem perm_cons_landed {trips : List RoundTrip} (distinct : (trips.map (·.number)).Nodup)
    {t : RoundTrip} (member : t ∈ trips) :
    trips.Perm (t :: trips.filter fun u => u.number ≠ t.number) := by
  obtain ⟨before, after, rfl⟩ := List.append_of_mem member
  have front : (before ++ t :: after).Perm ([t] ++ (before ++ after)) := List.perm_middle
  have rest := filter_keys_perm distinct front
  simp only [List.map_singleton, List.mem_singleton] at rest
  exact front.trans (rest.symm.cons t)

theorem find_number {trips : List RoundTrip} {t : RoundTrip} (member : t ∈ trips) :
    ∃ u ∈ trips, u.number = t.number ∧ (trips.find? fun u => u.number = t.number) = some u := by
  have found : (trips.find? fun u => u.number = t.number).isSome :=
    List.find?_isSome.mpr ⟨t, member, decide_eq_true rfl⟩
  obtain ⟨u, front⟩ := Option.isSome_iff_exists.mp found
  exact ⟨u, List.mem_of_find?_eq_some front, by simpa using List.find?_some front, front⟩

theorem perm_sent {sent received flying abandoned : List RoundTrip}
    (parts : sent.Perm (received ++ flying ++ abandoned)) (t : RoundTrip) :
    (sent ++ [t]).Perm (received ++ (flying ++ [t]) ++ abandoned) := by
  have moved : (abandoned ++ [t]).Perm ([t] ++ abandoned) := List.perm_append_comm
  refine (parts.append_right [t]).trans ?_
  simpa using moved.append_left (received ++ flying)

namespace Threads

structure Accounted (s : Threads) : Prop where
  /-- The loop works only while it runs. -/
  busy : s.work ≠ .idle → s.engine.phase = .running
  fresh : s.engine.phase = .fresh → s.engine.inFlight = []
  numbers : s.engine.sent.map (·.number) = List.range s.engine.opened
  handled : s.engine.received.map (·.1) = s.engine.handled ++ s.work.handling
  /-- Only a loop that was shut down abandons round trips. -/
  flights : ∃ abandoned, (s.engine.phase ≠ .stopped → abandoned = []) ∧
    s.engine.sent.Perm (s.engine.received.map (·.1) ++ s.engine.inFlight ++ abandoned)

theorem new_accounted (config : Config) : Accounted (.new config) where
  busy working := (working rfl).elim
  fresh _ := rfl
  numbers := rfl
  handled := rfl
  flights := ⟨[], fun _ => rfl, .refl _⟩

theorem Step.busy {s s' : Threads} {a : Action} (step : Step s a s')
    (h : s.work ≠ .idle → s.engine.phase = .running) :
    s'.work ≠ .idle → s'.engine.phase = .running := by
  cases step <;> simp_all

theorem Step.numbers {s s' : Threads} {a : Action} (step : Step s a s')
    (h : s.engine.sent.map (·.number) = List.range s.engine.opened) :
    s'.engine.sent.map (·.number) = List.range s'.engine.opened := by
  cases step <;> simp_all [List.range_succ]

theorem Step.received {s s' : Threads} {a : Action} (step : Step s a s')
    (h : s.engine.received.map (·.1) = s.engine.handled ++ s.work.handling) :
    s'.engine.received.map (·.1) = s'.engine.handled ++ s'.work.handling := by
  cases step <;> simp_all

theorem Accounted.distinct {s : Threads} (h : Accounted s) :
    (s.engine.sent.map (·.number)).Nodup := by
  rw [h.numbers]
  exact List.nodup_range

/-- A round trip is told by its number. -/
theorem Accounted.eq_of_number {s : Threads} (h : Accounted s) {t u : RoundTrip}
    (sent : t ∈ s.engine.sent) (sent' : u ∈ s.engine.sent) (same : t.number = u.number) : t = u :=
  List.inj_on_of_nodup_map h.distinct sent sent' same

theorem Accounted.number_lt {s : Threads} (h : Accounted s) {t : RoundTrip}
    (sent : t ∈ s.engine.sent) : t.number < s.engine.opened := by
  have inside := List.mem_map_of_mem (f := fun t : RoundTrip => t.number) sent
  rw [h.numbers] at inside
  exact List.mem_range.mp inside

theorem Accounted.received_sent {s : Threads} (h : Accounted s) :
    s.engine.received.map (·.1) ⊆ s.engine.sent := by
  obtain ⟨abandoned, -, parts⟩ := h.flights
  intro t member
  exact parts.symm.subset (List.mem_append_left _ (List.mem_append_left _ member))

theorem Accounted.received_distinct {s : Threads} (h : Accounted s) :
    ((s.engine.received.map (·.1)).map (·.number)).Nodup := by
  obtain ⟨abandoned, -, parts⟩ := h.flights
  have distinct := (parts.map (·.number)).nodup_iff.mp h.distinct
  rw [List.append_assoc, List.map_append] at distinct
  exact (List.nodup_append.mp distinct).1

theorem Accounted.handled_sent {s : Threads} (h : Accounted s) :
    s.engine.handled ⊆ s.engine.sent := by
  intro t member
  apply h.received_sent
  rw [h.handled]
  exact List.mem_append_left _ member

theorem Accounted.handling_sent {s : Threads} (h : Accounted s) :
    s.work.handling ⊆ s.engine.sent := by
  intro t member
  apply h.received_sent
  rw [h.handled]
  exact List.mem_append_right _ member

theorem Accounted.inFlight_sent {s : Threads} (h : Accounted s) :
    s.engine.inFlight ⊆ s.engine.sent := by
  obtain ⟨abandoned, -, parts⟩ := h.flights
  intro t member
  exact parts.symm.subset (List.mem_append_left _ (List.mem_append_right _ member))

theorem Accounted.find_inFlight {s : Threads} (h : Accounted s) {t : RoundTrip}
    (flying : t ∈ s.engine.inFlight) :
    (s.engine.inFlight.find? fun u => u.number = t.number) = some t := by
  obtain ⟨u, inside, number, found⟩ := find_number flying
  have sent := h.inFlight_sent
  obtain rfl : u = t := h.eq_of_number (sent inside) (sent flying) number
  exact found

theorem Accounted.landed {s : Threads} (h : Accounted s) {t : RoundTrip}
    (member : t ∈ s.engine.inFlight) :
    s.engine.inFlight.Perm (t :: (s.engine.landed t.number).inFlight) := by
  obtain ⟨abandoned, -, parts⟩ := h.flights
  have distinct := (parts.map (·.number)).nodup_iff.mp h.distinct
  simp only [List.map_append, List.nodup_append] at distinct
  exact perm_cons_landed distinct.1.2.1 member

theorem Step.flights {s s' : Threads} {a : Action} (step : Step s a s') (h : Accounted s) :
    ∃ abandoned, (s'.engine.phase ≠ .stopped → abandoned = []) ∧
      s'.engine.sent.Perm
        (s'.engine.received.map (·.1) ++ s'.engine.inFlight ++ abandoned) := by
  obtain ⟨abandoned, none, parts⟩ := h.flights
  cases step with
  | launch fresh => exact ⟨abandoned, fun _ => none (by simp [fresh]), by simpa using parts⟩
  | shutdown idle running =>
      exact ⟨abandoned, fun _ => none (by simp [running]), by simpa using parts⟩
  | sendPrompt p _ _ | feedBack t m calls _ =>
      refine ⟨abandoned, by simpa using none, ?_⟩
      simpa using perm_sent parts _
  | abandon t outcome _ gone member =>
      have landed := (h.landed member).trans (List.perm_append_singleton t _).symm
      have stopped : s.engine.phase = .stopped := by
        cases phase : s.engine.phase with
        | fresh =>
            rw [h.fresh phase] at member
            cases member
        | running => exact absurd phase gone
        | stopped => rfl
      refine ⟨t :: abandoned, fun running => absurd stopped running, ?_⟩
      simpa using parts.trans ((landed.append_left _).append_right _)
  | drop t outcome n _ _ member _ | answer t outcome r m _ _ member _ _ _
  | batch t outcome r m _ _ member _ _ _ =>
      have landed := h.landed member
      refine ⟨abandoned, by simpa using none, ?_⟩
      simpa using parts.trans ((landed.append_left _).append_right _)
  | _ => exact ⟨abandoned, by simpa using none, by simpa using parts⟩

theorem Step.fresh {s s' : Threads} {a : Action} (step : Step s a s') (h : Accounted s) :
    s'.engine.phase = .fresh → s'.engine.inFlight = [] := by
  have busy := h.busy
  have fresh := h.fresh
  cases step <;> simp_all

theorem Step.accounted {s s' : Threads} {a : Action} (step : Step s a s') (h : Accounted s) :
    Accounted s' where
  busy := step.busy h.busy
  fresh := step.fresh h
  numbers := step.numbers h.numbers
  handled := step.received h.handled
  flights := step.flights h

theorem run_accounted (config : Config) (actions : List Action) :
    Accounted ((new config).run actions) :=
  run_preserves (new_accounted config) (fun _ _ _ h step => step.accounted h) actions

theorem Accounted.settled {s : Threads} (h : Accounted s) (idle : s.work = .idle) :
    s.engine.received.map (·.1) = s.engine.handled := by
  have handled := h.handled
  simp only [idle, Work.handling, List.append_nil] at handled
  exact handled

/-- Between two events of the loop, what was sent is handled or unhandled. -/
theorem Accounted.sent_perm {s : Threads} (h : Accounted s) (idle : s.work = .idle) :
    s.engine.sent.Perm (s.engine.handled ++ s.engine.unhandled) := by
  obtain ⟨abandoned, -, parts⟩ := h.flights
  rw [h.settled idle, List.append_assoc] at parts
  exact parts.trans ((filter_keys_perm h.distinct parts).symm.append_left _)

/-- Until the loop is shut down, the round trips in flight are those unhandled. -/
theorem Accounted.unhandled_perm {s : Threads} (h : Accounted s) (idle : s.work = .idle)
    (on : s.engine.phase ≠ .stopped) : s.engine.unhandled.Perm s.engine.inFlight := by
  obtain ⟨abandoned, none, parts⟩ := h.flights
  rw [h.settled idle, none on, List.append_nil] at parts
  exact filter_keys_perm h.distinct parts

end Threads

end Parley
