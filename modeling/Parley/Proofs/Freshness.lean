import Parley.Proofs.Sessions

/-! Whether made ids are fresh. They never meet each other, so only a prompt can have the id of a
resubmission, and nothing keeps it from that. -/
namespace Parley

namespace Engine

variable {e : Engine}

/-- No prompt and no earlier round trip has the id of a resubmission. -/
def FreshIds (e : Engine) : Prop :=
  ∀ earlier t later, e.sent = earlier ++ t :: later → t.id ≠ t.promptId →
    t.id ∉ e.submitted.map (·.id) ∧ t.id ∉ earlier.map (·.id)

theorem FreshIds.unmade (fresh : e.FreshIds) :
    ∀ p ∈ e.submitted, p.id ∉ e.resubmissions.map (·.id) := by
  intro p member made
  obtain ⟨t, resubmission, same⟩ := List.mem_map.mp made
  obtain ⟨sent, unlike⟩ := mem_resubmissions.mp resubmission
  obtain ⟨earlier, later, split⟩ := List.append_of_mem sent
  apply (fresh earlier t later split unlike).1
  rw [same]
  exact List.mem_map_of_mem member

end Engine

namespace Threads
open Engine

theorem Descended.freshIds {s : Threads} (h : Descended s)
    (order : s.engine.taken ++ s.engine.inbox.toList = s.engine.submitted)
    (unmade : ∀ p ∈ s.engine.submitted, p.id ∉ s.engine.resubmissions.map (·.id)) :
    s.engine.FreshIds := by
  intro earlier t later split unlike
  have sent : t ∈ s.engine.sent := split ▸ List.mem_append_right _ List.mem_cons_self
  have made := List.mem_map_of_mem (f := fun t : RoundTrip => t.id)
    (mem_resubmissions.mpr ⟨sent, unlike⟩)
  have unlent : t.id ∉ s.engine.submitted.map (·.id) := by
    intro lent
    obtain ⟨p, member, same⟩ := List.mem_map.mp lent
    exact unmade p member (same ▸ made)
  refine ⟨unlent, fun again => ?_⟩
  obtain ⟨u, before, same⟩ := List.mem_map.mp again
  have sent' : u ∈ s.engine.sent := split ▸ List.mem_append_left _ before
  -- An earlier round trip of that id is opened by a prompt, or its id is made. Two of those never
  -- meet.
  by_cases opening : u.id = u.promptId
  · apply unlent
    rw [← same]
    exact (h.lent order).subset (List.mem_map_of_mem (mem_openings.mpr ⟨sent', opening⟩))
  · have distinct := h.made_nodup
    unfold Engine.resubmissions at distinct
    rw [split, List.filter_append, List.map_append, List.nodup_append] at distinct
    refine distinct.2.2 u.id ?_ t.id ?_ same
    · exact List.mem_map_of_mem (List.mem_filter.mpr ⟨before, decide_eq_true opening⟩)
    · exact List.mem_map_of_mem (List.mem_filter.mpr ⟨List.mem_cons_self, decide_eq_true unlike⟩)

/-- The ids of resubmissions are fresh exactly when no prompt has one of them, whatever else the ids
of prompts are; so they are when no prompt has an id that ends in a number. Where they are fresh and
no two prompts share an id, no session replaces another, and a sweep leaves each that has a response
to come. -/
theorem resubmissions_fresh_iff (config : Config) (actions : List Action)
    (distinct : (((new config).run actions).engine.submitted.map (·.id)).Nodup) :
    let s := (new config).run actions
    let e := s.engine
    (e.FreshIds ↔ ∀ p ∈ e.submitted, p.id ∉ e.resubmissions.map (·.id)) ∧
    ((∀ p ∈ e.submitted, ¬EndsInNumber p.id) → e.FreshIds) ∧
    (e.FreshIds → (e.sent.map (·.id)).Nodup ∧ .sessionReplaced ∉ e.notices ∧
      (s.work = .idle → e.sweep.sessionIds.Perm (e.unhandled.map (·.id)))) := by
  intro s e
  have descended : Descended s := run_descended config actions
  have order := run_order config actions
  refine ⟨⟨FreshIds.unmade, descended.freshIds order⟩,
    fun plain => descended.freshIds order (descended.unmade plain), fun fresh => ?_⟩
  have ids := descended.sent_nodup_of_unmade order distinct fresh.unmade
  have tabled : Tabled s := run_tabled config actions ids
  refine ⟨ids, tabled.notices, fun idle => ?_⟩
  have settled := (run_accounted config actions).sent_perm idle
  exact sweep_sessionIds (tabled.once ids) (tabled.sessionIds settled (run_retired config actions))

theorem borrowedId_not_fresh :
    let e := ((new defaultConfig).run borrowedId).engine
    e.submitted.map (·.id) = ["a", "a#1"] ∧ ¬e.FreshIds := by
  have ids : ((new defaultConfig).run borrowedId).engine.submitted.map (·.id) = ["a", "a#1"] ∧
      ((new defaultConfig).run borrowedId).engine.resubmissions.map (·.id) = ["a#1"] := by
    decide +kernel
  obtain ⟨submitted, resubmissions⟩ := ids
  have distinct : (((new defaultConfig).run borrowedId).engine.submitted.map (·.id)).Nodup := by
    rw [submitted]
    simp
  refine ⟨submitted, fun fresh => ?_⟩
  have unmade := (resubmissions_fresh_iff defaultConfig borrowedId distinct).1.mp fresh
  have lent : "a#1" ∈ ((new defaultConfig).run borrowedId).engine.submitted.map (·.id) := by
    rw [submitted]
    simp
  obtain ⟨p, member, same⟩ := List.mem_map.mp lent
  apply unmade p member
  rw [resubmissions, same]
  exact List.mem_cons_self

/-- A prompt that has the id of a resubmission: the session of the prompt is replaced, and the
response to the prompt retires that of the resubmission. -/
theorem borrowedId_replaces :
    let e := ((new defaultConfig).run borrowedId).engine
    e.submitted.map (·.id) = ["a", "a#1"] ∧ e.sent.map (·.id) = ["a", "a#1", "a#1"] ∧
    .sessionReplaced ∈ e.notices ∧ e.unhandled.map (·.id) = ["a#1"] ∧
    e.sessionIds = ["a", "a#1"] ∧ e.sweep.sessionIds = [] := by
  decide +kernel

end Threads

end Parley
