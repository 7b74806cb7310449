import Parley.Proofs.Digits
import Parley.Proofs.Inbox

/-! Where the ids of round trips come from. A prompt lends its id to the round trip it opens; the
round trips after it have made ids, which count the resubmissions of the whole run. -/
namespace Parley

/-- The id ends in a number sign and at least one digit, like the ids that are made. -/
def EndsInNumber (id : String) : Prop :=
  ∃ stem digits, digits ≠ [] ∧ (∀ c ∈ digits, c.isDigit = true) ∧
    id.toList = stem ++ '#' :: digits

/-- The last number sign of a text splits it in one way. -/
theorem last_mark_unique {stem stem' digits digits' : List Char} (plain : '#' ∉ digits)
    (plain' : '#' ∉ digits') (same : stem ++ '#' :: digits = stem' ++ '#' :: digits') :
    stem = stem' ∧ digits = digits' := by
  rcases List.append_eq_append_iff.mp same with ⟨between, front, back⟩ | ⟨between, front, back⟩
  · cases between with
    | nil => simp_all
    | cons c between =>
        obtain ⟨-, inside⟩ := List.cons.inj back
        exact absurd (inside ▸ List.mem_append_right _ List.mem_cons_self) plain
  · cases between with
    | nil => simp_all
    | cons c between =>
        obtain ⟨-, inside⟩ := List.cons.inj back
        exact absurd (inside ▸ List.mem_append_right _ List.mem_cons_self) plain'

namespace Decimal

theorem natText_plain (n : Nat) : '#' ∉ natText n := by
  intro member
  exact absurd (natText_digits member) (by decide)

end Decimal

namespace Engine

theorem correlationId_toList (promptId : String) (n : Nat) :
    (correlationId promptId n).toList = promptId.toList ++ '#' :: Decimal.natText n := by
  simp [correlationId]

theorem correlationId_endsInNumber (promptId : String) (n : Nat) :
    EndsInNumber (correlationId promptId n) :=
  ⟨_, _, Nat.toDigits_ne_nil, fun _ member => Decimal.natText_digits member,
    correlationId_toList promptId n⟩

/-- A made id tells what it was made of. -/
theorem correlationId_injective {p q : String} {m n : Nat}
    (same : correlationId p m = correlationId q n) : p = q ∧ m = n := by
  have texts := congrArg String.toList same
  rw [correlationId_toList, correlationId_toList] at texts
  obtain ⟨stems, digits⟩ :=
    last_mark_unique (Decimal.natText_plain m) (Decimal.natText_plain n) texts
  exact ⟨String.toList_inj.mp stems, Decimal.natText_injective digits⟩

theorem correlationId_ne (promptId : String) (n : Nat) : correlationId promptId n ≠ promptId := by
  intro same
  have lengths := congrArg (fun id => id.toList.length) same
  simp only [correlationId_toList, List.length_append, List.length_cons] at lengths
  omega

variable (e : Engine)

/-- The round trips that prompts opened. -/
def openings : List RoundTrip :=
  e.sent.filter fun t => t.id = t.promptId

/-- The round trips that brought the results of calls. -/
def resubmissions : List RoundTrip :=
  e.sent.filter fun t => t.id ≠ t.promptId

variable {e} {t : RoundTrip}

theorem mem_openings : t ∈ e.openings ↔ t ∈ e.sent ∧ t.id = t.promptId := by
  simp only [openings, List.mem_filter, decide_eq_true_eq]

theorem mem_resubmissions : t ∈ e.resubmissions ↔ t ∈ e.sent ∧ t.id ≠ t.promptId := by
  simp only [resubmissions, List.mem_filter, decide_eq_true_eq]

end Engine

namespace Threads
open Engine

structure Descended (s : Threads) : Prop where
  prompts : s.engine.openings.map (·.id) ++ (s.work.hand.filter fun p => p.text ≠ "").map (·.id) =
    (s.engine.taken.filter fun p => p.text ≠ "").map (·.id)
  sequence : s.engine.resubmissions.length = s.engine.sequence
  /-- The made ids count from one through the whole run. -/
  numbered : s.engine.resubmissions.map (·.id) =
    (s.engine.resubmissions.zipIdx 1).map fun (t, n) => correlationId t.promptId n

theorem new_descended (config : Config) : Descended (.new config) where
  prompts := rfl
  sequence := rfl
  numbered := rfl

theorem Step.prompts {s s' : Threads} {a : Action} (step : Step s a s')
    (h : s.engine.openings.map (·.id) ++ (s.work.hand.filter fun p => p.text ≠ "").map (·.id) =
      (s.engine.taken.filter fun p => p.text ≠ "").map (·.id)) :
    s'.engine.openings.map (·.id) ++ (s'.work.hand.filter fun p => p.text ≠ "").map (·.id) =
      (s'.engine.taken.filter fun p => p.text ≠ "").map (·.id) := by
  unfold openings at h ⊢
  cases step with
  | takePrompt p rest work | sendPrompt p work text | dropPrompt p work text =>
      rw [work] at h
      simp_all
  | feedBack t m calls work =>
      rw [work] at h
      simpa [correlationId_ne] using h
  | launch | firstWake | push | wake | poll | register | shutdown | abandon | sweep =>
      simpa using h
  | takeWake work | noPrompt work | lastPrompt p work | morePrompts p work | rewake p work
  | drop t outcome n work | answer t outcome r m work | batch t outcome r m work
  | execute t c calls m work | skip t c calls work | finish t work =>
      rw [work] at h
      simpa using h

theorem feedBack_resubmissions (e : Engine) (promptId : String) (m : Message) :
    ∃ t : RoundTrip, t.promptId = promptId ∧ t.id = correlationId promptId (e.sequence + 1) ∧
      (e.feedBack promptId m).resubmissions = e.resubmissions ++ [t] := by
  let id := correlationId promptId (e.sequence + 1)
  refine ⟨(e.append m).nextTrip id promptId, rfl, rfl, ?_⟩
  simp [resubmissions, id, correlationId_ne, nextRequest]

theorem Step.resubmissions {s s' : Threads} {a : Action} (step : Step s a s') (h : Descended s) :
    s'.engine.resubmissions.length = s'.engine.sequence ∧
    s'.engine.resubmissions.map (·.id) =
      (s'.engine.resubmissions.zipIdx 1).map fun (t, n) => correlationId t.promptId n := by
  have sequence := h.sequence
  have numbered := h.numbered
  cases step with
  | feedBack t m calls work =>
      obtain ⟨u, promptId, id, grown⟩ := feedBack_resubmissions s.engine t.promptId m
      rw [grown]
      constructor
      · simp [sequence]
      · rw [List.map_append, numbered, List.zipIdx_append, List.map_append, sequence]
        simp [promptId, id, Nat.add_comm]
  | _ => simp_all [Engine.resubmissions]

theorem run_descended (config : Config) (actions : List Action) :
    Descended ((new config).run actions) :=
  run_preserves (new_descended config) (fun _ _ _ h step =>
    { prompts := step.prompts h.prompts
      sequence := (step.resubmissions h).1
      numbered := (step.resubmissions h).2 }) actions

/-- The made ids are all different, whatever the prompts. -/
theorem Descended.made_nodup {s : Threads} (h : Descended s) :
    (s.engine.resubmissions.map (·.id)).Nodup := by
  rw [h.numbered]
  have numbers : (s.engine.resubmissions.zipIdx 1).Pairwise fun t u => t.2 ≠ u.2 := by
    rw [← List.pairwise_map, List.zipIdx_map_snd]
    exact List.nodup_range'
  refine List.pairwise_map.mpr (numbers.imp fun different same => different ?_)
  exact (correlationId_injective same).2

theorem Descended.made {s : Threads} (h : Descended s) {t : RoundTrip}
    (member : t ∈ s.engine.resubmissions) : EndsInNumber t.id := by
  have inside := List.mem_map_of_mem (f := fun t : RoundTrip => t.id) member
  rw [h.numbered] at inside
  obtain ⟨⟨u, n⟩, -, same⟩ := List.mem_map.mp inside
  rw [← same]
  exact correlationId_endsInNumber u.promptId n

theorem Descended.lent {s : Threads} (h : Descended s)
    (order : s.engine.taken ++ s.engine.inbox.toList = s.engine.submitted) :
    List.Sublist (s.engine.openings.map (·.id)) (s.engine.submitted.map (·.id)) := by
  have taken : List.Sublist (s.engine.openings.map (·.id)) (s.engine.taken.map (·.id)) := by
    have front := List.sublist_append_left (s.engine.openings.map (·.id))
      ((s.work.hand.filter fun p => p.text ≠ "").map (·.id))
    rw [h.prompts] at front
    exact front.trans (List.filter_sublist.map _)
  rw [← order, List.map_append]
  exact taken.trans (List.sublist_append_left _ _)

/-- No two round trips share an id when no two prompts do and no prompt has an id that was made. -/
theorem Descended.sent_nodup_of_unmade {s : Threads} (h : Descended s)
    (order : s.engine.taken ++ s.engine.inbox.toList = s.engine.submitted)
    (distinct : (s.engine.submitted.map (·.id)).Nodup)
    (unmade : ∀ p ∈ s.engine.submitted, p.id ∉ s.engine.resubmissions.map (·.id)) :
    (s.engine.sent.map (·.id)).Nodup := by
  have parts : (s.engine.openings ++ s.engine.resubmissions).Perm s.engine.sent := by
    simpa [openings, Engine.resubmissions] using
      List.filter_append_perm (fun t : RoundTrip => decide (t.id = t.promptId)) s.engine.sent
  have lent := h.lent order
  rw [← (parts.map _).nodup_iff, List.map_append, List.nodup_append]
  refine ⟨lent.nodup distinct, h.made_nodup, ?_⟩
  intro id opening id' resubmission same
  obtain ⟨p, member, rfl⟩ := List.mem_map.mp (lent.subset opening)
  exact unmade p member (same ▸ resubmission)

theorem Descended.unmade {s : Threads} (h : Descended s)
    (plain : ∀ p ∈ s.engine.submitted, ¬EndsInNumber p.id) :
    ∀ p ∈ s.engine.submitted, p.id ∉ s.engine.resubmissions.map (·.id) := by
  intro p member resubmission
  obtain ⟨t, made, same⟩ := List.mem_map.mp resubmission
  apply plain p member
  rw [← same]
  exact h.made made

/-- In particular, when no prompt has an id like a made one. -/
theorem Descended.sent_nodup {s : Threads} (h : Descended s)
    (order : s.engine.taken ++ s.engine.inbox.toList = s.engine.submitted)
    (distinct : (s.engine.submitted.map (·.id)).Nodup)
    (plain : ∀ p ∈ s.engine.submitted, ¬EndsInNumber p.id) :
    (s.engine.sent.map (·.id)).Nodup :=
  h.sent_nodup_of_unmade order distinct (h.unmade plain)

end Threads

end Parley
