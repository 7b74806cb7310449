import Mathlib.Data.List.Range
import Mathlib.Data.List.ReduceOption
import Parley.Transport.Scripted

/-! Which request gets which step of a script. Steps are given out in the order of sending, oldest
first, and what becomes of a request is settled when it is sent: neither later steps nor the order
in which requests are resolved change it. -/
namespace Parley.Transport.Scripted

namespace Move

def pushed? : Move → Option ScriptStep
  | .push step => some step
  | _ => none

def sent? : Move → Option Request
  | .send r => some r
  | _ => none

def isResolution : Move → Bool
  | .resolve _ => true
  | _ => false

end Move

/-- All steps that were ever in the script, oldest first. -/
def pushed (moves : List Move) : List ScriptStep :=
  moves.filterMap Move.pushed?

def asked (moves : List Move) : List Request :=
  moves.filterMap Move.sent?

/-- The place of the oldest of `count` steps that is not given away, if one is left. -/
def Oldest (count : Nat) (given : List (Option Nat)) : Option Nat → Prop
  | some i => i < count ∧ some i ∉ given ∧ ∀ j < i, some j ∈ given
  | none => ∀ j < count, some j ∈ given

/-- What becomes of a request that is given the step in this place. -/
def fate (script : List ScriptStep) (place : Option Nat) : Outcome :=
  ((place.bind fun i => script[i]?).map ScriptStep.outcome).getD outOfSteps

/-- The steps given to the requests, in the order of sending. -/
def steps (t : Scripted) : List (Option ScriptStep) :=
  t.sent.map Pending.step

/-- The transport as if no request had been resolved. -/
def unresolved (t : Scripted) : Scripted :=
  { t with sent := t.steps.map fun step => { step } }

theorem unresolved_script (t : Scripted) : t.unresolved.script = t.script :=
  rfl

theorem unresolved_requests (t : Scripted) : t.unresolved.requests = t.requests :=
  rfl

theorem unresolved_steps (t : Scripted) : t.unresolved.steps = t.steps := by
  simp [unresolved, steps]

/-! What one move does. -/

section move

variable (t : Scripted) (m : Move) (n : Nat)

theorem resolve_cases : (t.resolve n).2 = t ∨ ∃ p, t.sent[n]? = some p ∧
    (t.resolve n).2 = { t with sent := t.sent.set n { p with resolved := true } } := by
  unfold resolve
  split
  · next p found =>
    split
    · exact .inl rfl
    · exact .inr ⟨p, found, rfl⟩
  · exact .inl rfl

theorem resolve_fresh {t : Scripted} {n : Nat} {p : Pending} (found : t.sent[n]? = some p)
    (fresh : p.resolved = false) : (t.resolve n).1 = some p.outcome := by
  unfold resolve
  rw [found]
  simp only [fresh, Bool.false_eq_true, if_false]

/-- A resolution leaves its mark and nothing else. -/
theorem resolve_unresolved : (t.resolve n).2.unresolved = t.unresolved := by
  rcases t.resolve_cases n with same | ⟨p, found, taken⟩
  · rw [same]
  · obtain ⟨within, rfl⟩ := List.getElem?_eq_some_iff.mp found
    have kept : (t.sent.set n { t.sent[n] with resolved := true }).map Pending.step =
        t.sent.map Pending.step := by
      have inside : n < (t.sent.map Pending.step).length := by simpa using within
      have own := List.set_getElem_self inside
      rw [List.getElem_map] at own
      rw [List.map_set]
      exact own
    rw [taken, unresolved, steps, kept]
    rfl

theorem move_unresolved : (t.move m).unresolved =
    if m.isResolution then t.unresolved else t.unresolved.move m := by
  cases m with
  | push step | clone => rfl
  | send r => simp [move, send, unresolved, steps, Move.isResolution]
  | resolve n => exact t.resolve_unresolved n

theorem move_requests : (t.move m).requests = t.requests ++ m.sent?.toList := by
  cases m with
  | push step | clone => exact (List.append_nil _).symm
  | send r => rfl
  | resolve n =>
    rw [← unresolved_requests, move, resolve_unresolved, unresolved_requests]
    exact (List.append_nil _).symm

theorem resolve_steps : (t.resolve n).2.steps = t.steps := by
  rw [← unresolved_steps, resolve_unresolved, unresolved_steps]

theorem move_steps :
    (t.move m).steps = t.steps ++ (m.sent?.map fun _ => t.script.head?).toList := by
  cases m with
  | push step | clone => exact (List.append_nil _).symm
  | send r => exact List.map_append
  | resolve n => exact (t.resolve_steps n).trans (List.append_nil _).symm

/-- A step is given to a request or left in the script, behind all that were given. -/
theorem move_kept : (t.move m).steps.reduceOption ++ (t.move m).script =
    t.steps.reduceOption ++ t.script ++ m.pushed?.toList := by
  rw [move_steps, List.reduceOption_append]
  cases m with
  | push step => simp [move, push, Move.sent?, Move.pushed?]
  | clone => simp [move, Move.sent?, Move.pushed?]
  | resolve n =>
    have script : (t.resolve n).2.script = t.script := by
      rw [← unresolved_script, resolve_unresolved, unresolved_script]
    simp [move, script, Move.sent?, Move.pushed?]
  | send r =>
    cases script : t.script <;> simp [move, send, script, Move.sent?, Move.pushed?]

/-- Only its own resolution resolves a request. -/
theorem move_resolved {n : Nat} (sent : n < t.sent.length) (other : m ≠ .resolve n) :
    (t.move m).sent[n]?.map Pending.resolved = t.sent[n]?.map Pending.resolved := by
  cases m with
  | push step | clone => rfl
  | send r =>
    change (t.sent ++ [_])[n]?.map Pending.resolved = _
    rw [List.getElem?_append_left sent]
  | resolve k =>
    have apart : k ≠ n := fun same => other (same ▸ rfl)
    change (t.resolve k).2.sent[n]?.map Pending.resolved = _
    rcases t.resolve_cases k with same | ⟨p, found, taken⟩
    · rw [same]
    · rw [taken]
      dsimp only
      rw [List.getElem?_set_ne apart]

end move

/-! Whole histories. -/

section play

variable (t : Scripted) (moves more : List Move)

theorem play_concat (m : Move) : t.play (moves ++ [m]) = (t.play moves).move m :=
  List.foldl_concat _ _ _ _

theorem play_append : t.play (moves ++ more) = (t.play moves).play more :=
  List.foldl_append

theorem play_unresolved :
    (t.play moves).unresolved = t.unresolved.play (moves.filter fun m => !m.isResolution) := by
  induction moves using List.reverseRecOn with
  | nil => rfl
  | append_singleton moves m ih =>
    rw [play_concat, move_unresolved, ih, List.filter_append]
    cases resolution : m.isResolution with
    | true => simp [resolution]
    | false => simp [resolution, play_concat]

theorem play_requests : (t.play moves).requests = t.requests ++ asked moves := by
  induction moves using List.reverseRecOn with
  | nil => exact (List.append_nil _).symm
  | append_singleton moves m ih =>
    rw [play_concat, move_requests, ih, List.append_assoc, asked, asked, List.filterMap_append]
    cases sent : m.sent? <;> simp [sent]

theorem play_kept : (t.play moves).steps.reduceOption ++ (t.play moves).script =
    t.steps.reduceOption ++ t.script ++ pushed moves := by
  induction moves using List.reverseRecOn with
  | nil => exact (List.append_nil _).symm
  | append_singleton moves m ih =>
    rw [play_concat, move_kept, ih, List.append_assoc, pushed, pushed, List.filterMap_append]
    cases step : m.pushed? <;> simp [step]

/-- What a request was given stays so, and each request is given something when it is sent. -/
theorem play_steps : ∃ later, (t.play moves).steps = t.steps ++ later ∧
    later.length = (asked moves).length := by
  induction moves using List.reverseRecOn with
  | nil => exact ⟨[], (List.append_nil _).symm, rfl⟩
  | append_singleton moves m ih =>
    obtain ⟨later, same, length⟩ := ih
    refine ⟨later ++ (m.sent?.map fun _ => (t.play moves).script.head?).toList, ?_, ?_⟩
    · rw [play_concat, move_steps, same, List.append_assoc]
    · rw [asked, List.filterMap_append, List.length_append, List.length_append, length, asked]
      cases sent : m.sent? <;> simp [sent]

theorem length_sent : (({} : Scripted).play moves).sent.length = (asked moves).length := by
  obtain ⟨later, same, length⟩ := ({} : Scripted).play_steps moves
  have sizes := congrArg List.length same
  rw [steps, List.length_map] at sizes
  rw [sizes]
  exact length

theorem play_resolved {n : Nat} (sent : n < t.sent.length) (other : .resolve n ∉ moves) :
    (t.play moves).sent[n]?.map Pending.resolved = t.sent[n]?.map Pending.resolved := by
  induction moves using List.reverseRecOn with
  | nil => rfl
  | append_singleton moves m ih =>
    rw [List.mem_append, not_or, List.mem_singleton] at other
    obtain ⟨earlier, last⟩ := other
    obtain ⟨later, same, -⟩ := t.play_steps moves
    have length := congrArg List.length same
    rw [List.length_append, steps, steps, List.length_map, List.length_map] at length
    rw [play_concat, move_resolved _ _ (by omega) (Ne.symm last), ih earlier]

end play

/-! The places of the steps given. -/

/-- The places of steps that are given in the order of the script, from place `first` on. -/
def places : Nat → List (Option ScriptStep) → List (Option Nat)
  | _, [] => []
  | first, none :: steps => none :: places first steps
  | first, some _ :: steps => some first :: places (first + 1) steps

section places

variable (first : Nat) (steps later : List (Option ScriptStep))

theorem length_places : (places first steps).length = steps.length := by
  induction steps generalizing first with
  | nil => rfl
  | cons s steps ih => cases s <;> simp [places, ih]

theorem places_append : places first (steps ++ later) =
    places first steps ++ places (first + steps.reduceOption.length) later := by
  induction steps generalizing first with
  | nil => rfl
  | cons s steps ih =>
    cases s with
    | none => simp [places, ih]
    | some s => simp [places, ih, Nat.add_right_comm, ← Nat.add_assoc]

theorem reduceOption_places :
    (places first steps).reduceOption = List.range' first steps.reduceOption.length := by
  induction steps generalizing first with
  | nil => rfl
  | cons s steps ih => cases s <;> simp [places, ih, List.range'_succ]

theorem isSome_places :
    (places first steps).map Option.isSome = steps.map Option.isSome := by
  induction steps generalizing first with
  | nil => rfl
  | cons s steps ih => cases s <;> simp [places, ih]

theorem mem_places (i : Nat) : some i ∈ places 0 steps ↔ i < steps.reduceOption.length := by
  rw [← List.reduceOption_mem_iff, reduceOption_places, List.mem_range'_1]
  omega

end places

theorem outcomes_eq (t : Scripted) : t.sent.map Pending.outcome =
    t.steps.map fun s => (s.map ScriptStep.outcome).getD outOfSteps := by
  rw [steps, List.map_map]
  refine List.map_congr_left fun p _ => ?_
  rw [Function.comp_apply, Pending.outcome]
  cases p.step <;> rfl

section send

variable (t : Scripted) (r : Request) (moves : List Move)

theorem play_send_steps :
    ∃ later, ((t.send r).play moves).steps = t.steps ++ t.script.head? :: later := by
  obtain ⟨later, same, -⟩ := (t.send r).play_steps moves
  refine ⟨later, ?_⟩
  have sent : (t.send r).steps = t.steps ++ [t.script.head?] := t.move_steps (.send r)
  rw [same, sent, List.append_assoc, List.singleton_append]

/-- What becomes of a request is settled when it is sent. -/
theorem play_send_outcome :
    ((t.send r).play moves).sent[t.sent.length]?.map Pending.outcome =
      some ((t.script.head?.map ScriptStep.outcome).getD outOfSteps) := by
  obtain ⟨later, same⟩ := t.play_send_steps r moves
  have length : t.steps.length = t.sent.length := List.length_map _
  rw [← List.getElem?_map, outcomes_eq, same, List.getElem?_map, ← length]
  simp

theorem resolve_play_send (other : .resolve t.sent.length ∉ moves) :
    (((t.send r).play moves).resolve t.sent.length).1 =
      some ((t.script.head?.map ScriptStep.outcome).getD outOfSteps) := by
  have outcome := t.play_send_outcome r moves
  have within : t.sent.length < (t.send r).sent.length := by simp [send]
  have untouched := (t.send r).play_resolved moves within other
  cases found : ((t.send r).play moves).sent[t.sent.length]? with
  | none =>
    rw [found] at outcome
    cases outcome
  | some p =>
    rw [found] at outcome untouched
    have fresh : p.resolved = false := by simpa [send] using untouched
    rw [resolve_fresh found fresh]
    exact outcome

end send

/-- The first step left in the script is the oldest that is not given away. -/
theorem oldest_left {count : List ScriptStep} {t : Scripted}
    (kept : t.steps.reduceOption ++ t.script = count) :
    ∃ place, places t.steps.reduceOption.length [t.script.head?] = [place] ∧
      Oldest count.length (places 0 t.steps) place ∧
      fate count place = (t.script.head?.map ScriptStep.outcome).getD outOfSteps := by
  cases script : t.script with
  | nil =>
    rw [script, List.append_nil] at kept
    refine ⟨none, rfl, fun j before => ?_, rfl⟩
    rwa [mem_places, kept]
  | cons s rest =>
    rw [script] at kept
    refine ⟨some t.steps.reduceOption.length, rfl, ⟨?_, ?_, fun j before => ?_⟩, ?_⟩
    · rw [← kept, List.length_append, List.length_cons]
      omega
    · rw [mem_places]
      omega
    · rwa [mem_places]
    · simp [fate, ← kept]

/-- A request sent after some history and before another. -/
theorem sent_settled (before : List Move) (r : Request) (after : List Move) :
    let n := (asked before).length
    let t := ({} : Scripted).play (before ++ .send r :: after)
    ∃ place, (places 0 t.steps)[n]? = some place ∧
      Oldest (pushed before).length ((places 0 t.steps).take n) place ∧
      t.sent[n]?.map Pending.outcome = some (fate (pushed before) place) ∧
      ∀ meanwhile, .resolve n ∉ meanwhile →
        ((({} : Scripted).play (before ++ .send r :: meanwhile)).resolve n).1 =
          some (fate (pushed before) place) := by
  intro n t
  let s := ({} : Scripted).play before
  have whole (rest : List Move) :
      ({} : Scripted).play (before ++ .send r :: rest) = (s.send r).play rest :=
    ({} : Scripted).play_append before _
  have count : s.sent.length = n := length_sent before
  have reach : (places 0 s.steps).length = n := by
    rw [length_places, steps, List.length_map, count]
  have kept : s.steps.reduceOption ++ s.script = pushed before := ({} : Scripted).play_kept before
  obtain ⟨place, first, oldest, become⟩ := oldest_left kept
  obtain ⟨later, same⟩ := s.play_send_steps r after
  have front : places 0 t.steps = places 0 s.steps ++ place ::
      places (s.steps.reduceOption.length + [s.script.head?].reduceOption.length) later := by
    have behind := places_append s.steps.reduceOption.length [s.script.head?] later
    rw [first, List.singleton_append] at behind
    rw [show t = (s.send r).play after from whole after, same, places_append, Nat.zero_add]
    exact congrArg _ behind
  refine ⟨place, ?_, ?_, ?_, fun meanwhile none => ?_⟩
  · rw [front, ← reach, List.getElem?_append_right (Nat.le_refl _), Nat.sub_self,
      List.getElem?_cons_zero]
  · rw [front, ← reach, List.take_left]
    exact oldest
  · rw [show t = (s.send r).play after from whole after, ← count, become]
    exact s.play_send_outcome r after
  · rw [whole, become, ← count]
    exact s.resolve_play_send r meanwhile (count ▸ none)

/-- Whatever is pushed, sent and resolved in whatever order, each request is given the oldest step
that no earlier one was given, out of those pushed before it was sent, and that is what its
resolution gives, if it comes. Resolutions change nothing. -/
theorem replies_follow_sends (moves : List Move) :
    let t := ({} : Scripted).play moves
    ∃ given : List (Option Nat),
      given.length = (asked moves).length ∧
      (∀ before r after, moves = before ++ .send r :: after →
        let n := (asked before).length
        ∃ place, given[n]? = some place ∧
          Oldest (pushed before).length (given.take n) place ∧
          (t.sent[n]?.map Pending.outcome) = some (fate (pushed before) place) ∧
          ∀ meanwhile later, after = meanwhile ++ .resolve n :: later →
            .resolve n ∉ meanwhile →
              ((({} : Scripted).play (before ++ .send r :: meanwhile)).resolve n).1 =
                some (fate (pushed before) place)) ∧
      given.map Option.isSome = t.sent.map (fun p => p.step.isSome) ∧
      t.requests = asked moves ∧
      t.remaining + given.reduceOption.length = (pushed moves).length ∧
      ∀ others : List Move,
        others.filter (fun m => !m.isResolution) = moves.filter (fun m => !m.isResolution) →
          let u := ({} : Scripted).play others
          u.sent.map Pending.outcome = t.sent.map Pending.outcome ∧
            u.requests = t.requests ∧ u.remaining = t.remaining := by
  intro t
  refine ⟨places 0 t.steps, ?_, ?_, ?_, ?_, ?_, ?_⟩
  · rw [length_places, steps, List.length_map]
    exact length_sent moves
  · rintro before r after rfl n
    obtain ⟨place, given, oldest, become, resolved⟩ := sent_settled before r after
    exact ⟨place, given, oldest, become, fun meanwhile _ _ none => resolved meanwhile none⟩
  · rw [isSome_places, steps, List.map_map]
    rfl
  · exact ({} : Scripted).play_requests moves
  · have kept := congrArg List.length (({} : Scripted).play_kept moves)
    rw [List.length_append] at kept
    rw [reduceOption_places, List.length_range', remaining, Nat.add_comm]
    exact kept
  · intro others same u
    have alike : u.unresolved = t.unresolved := by
      rw [play_unresolved, play_unresolved, same]
    have steps : u.steps = t.steps := by
      rw [← unresolved_steps, alike, unresolved_steps]
    refine ⟨by rw [outcomes_eq, outcomes_eq, steps], ?_, ?_⟩
    · rw [← unresolved_requests, alike, unresolved_requests]
    · rw [remaining, ← unresolved_script, alike, unresolved_script, remaining]

/-- A request finds the script empty; a step that comes later goes to the next one, which is
resolved first. -/
def lateStep : List Move :=
  let ask (body : Bytes) : Move := .send ⟨"http://localhost/v1", [], body⟩
  [ask [1], .push (.failure .timeout), .clone, ask [2], .resolve 1, .resolve 0]

theorem lateStep_missed :
    ((({} : Scripted).play (lateStep.take 5)).resolve 0).1 = some outOfSteps ∧
      ((({} : Scripted).play (lateStep.take 4)).resolve 1).1 =
        some (.error ⟨.timeout, "scripted failure"⟩) := by
  obtain ⟨given, -, each, -⟩ := replies_follow_sends lateStep
  constructor
  · obtain ⟨place, -, oldest, -, resolved⟩ := each [] _ _ rfl
    have first := resolved (lateStep.tail.take 4) [] rfl (by simp [lateStep, asked])
    cases place with
    | none => exact first
    | some i => exact absurd oldest.1 (Nat.not_lt_zero i)
  · rfl

end Parley.Transport.Scripted
