import Mathlib.Algebra.Group.Nat.Defs
import Parley.Proofs.Lineage
import Parley.Proofs.Schedules

/-! The numbers in made ids. The loop counts in a machine word, which comes round after `2 ^ 64`
resubmissions; before that its numbers only grow, and no id is made twice. -/
namespace Parley

namespace Engine

/-- The next id by a word that counts, and the word after it. -/
def nextId (counter : UInt64) (promptId : String) : String × UInt64 :=
  let next := counter + 1
  (correlationId promptId next.toNat, next)

/-- The ids that a word gives out for these prompts, one after the other. -/
def madeIds : UInt64 → List String → List String
  | _, [] => []
  | counter, p :: ps =>
    let (id, next) := nextId counter p
    id :: madeIds next ps

theorem toNat_succ {counter : UInt64} (room : counter.toNat + 1 < 2 ^ 64) :
    (counter + 1).toNat = counter.toNat + 1 := by
  rw [UInt64.toNat_add]
  exact Nat.mod_eq_of_lt room

/-- A word that does not come round counts like a number. -/
theorem madeIds_eq {counter : UInt64} {prompts : List String}
    (room : counter.toNat + prompts.length < 2 ^ 64) : madeIds counter prompts =
      (prompts.zipIdx (counter.toNat + 1)).map fun (p, n) => correlationId p n := by
  induction prompts generalizing counter with
  | nil => rfl
  | cons p ps ih =>
    rw [List.length_cons] at room
    have next : (counter + 1).toNat = counter.toNat + 1 := toNat_succ (by omega)
    rw [madeIds, nextId]
    dsimp only
    rw [ih (by omega), next]
    rfl

/-- Ids that count from a word on have words for their numbers, as long as these do not come round. -/
theorem exists_numbers {made : List RoundTrip} {first : Nat} (room : first + made.length ≤ 2 ^ 64)
    (numbered : made.map (·.id) =
      (made.zipIdx first).map fun (t, n) => correlationId t.promptId n) :
    ∃ numbers : List UInt64, numbers.Pairwise (· < ·) ∧ (∀ n ∈ numbers, first ≤ n.toNat) ∧
      List.Forall₂ (fun t n => t.id = correlationId t.promptId n.toNat) made numbers := by
  induction made generalizing first with
  | nil => exact ⟨[], .nil, List.forall_mem_nil _, .nil⟩
  | cons t made ih =>
    rw [List.length_cons] at room
    obtain ⟨own, rest⟩ := List.cons.inj numbered
    obtain ⟨numbers, increasing, least, made_of⟩ := ih (by omega) rest
    have number : (UInt64.ofNat first).toNat = first :=
      UInt64.toNat_ofNat_of_lt' (by rw [UInt64.size]; omega)
    refine ⟨.ofNat first :: numbers, ?_, ?_, .cons (number.symm ▸ own) made_of⟩
    · refine List.pairwise_cons.mpr ⟨fun n later => ?_, increasing⟩
      rw [UInt64.lt_iff_toNat_lt, number]
      exact least n later
    · refine List.forall_mem_cons.mpr ⟨Nat.le_of_eq number.symm, fun n later => ?_⟩
      exact Nat.le_of_succ_le (least n later)

end Engine

namespace Threads
open Engine

/-- No id is made twice, whatever the ids of prompts are. The made ids are the ones that the word
gives out from zero on; their numbers grow strictly; and an id tells the prompt and the number it
was made of. -/
theorem made_ids_distinct (config : Config) (actions : List Action)
    (few : ((new config).run actions).engine.resubmissions.length < 2 ^ 64) :
    let made := ((new config).run actions).engine.resubmissions
    made.map (·.id) = madeIds 0 (made.map (·.promptId)) ∧
    (∃ numbers : List UInt64, numbers.Pairwise (· < ·) ∧
      List.Forall₂ (fun t n => t.id = correlationId t.promptId n.toNat) made numbers) ∧
    (∀ (p q : String) (m n : UInt64),
      correlationId p m.toNat = correlationId q n.toNat → p = q ∧ m = n) ∧
    (made.map (·.id)).Nodup := by
  intro made
  have descended : Descended ((new config).run actions) := run_descended config actions
  have room : 1 + made.length ≤ 2 ^ 64 := by
    rw [Nat.add_comm]
    exact few
  obtain ⟨numbers, increasing, -, made_of⟩ := exists_numbers room descended.numbered
  refine ⟨?_, ⟨numbers, increasing, made_of⟩, fun p q m n same => ?_, descended.made_nodup⟩
  · rw [madeIds_eq (by simpa using few), List.zipIdx_map, List.map_map]
    exact descended.numbered
  · obtain ⟨prompts, numbers⟩ := correlationId_injective same
    exact ⟨prompts, UInt64.toNat_inj.mp numbers⟩

/-- Two prompts, the second under an id that is made for a result of the first. The response to the
first calls a tool twice, that to the second once. -/
def markedIds : List Action :=
  let call (id : String) : ToolCall := ⟨id, ToolCall.functionKind, "clock", ""⟩
  let reply (calls : List ToolCall) : Transport.Outcome :=
    .ok ⟨200, none, (Preset.toolCalls calls).body⟩
  let clock : ToolDefinition := { name := "clock", description := "Tells the time." }
  [.register "clock" clock (.pure fun _ => .failure "No time."), .launch, .push "a" "Hello.", .wake,
    .push "a#1" "Hello again.", .wake,
    .takeWake, .advance, .advance, .advance, .advance, .takeWake, .advance, .advance, .advance,
    .deliver 0 (reply [call "first", call "second"]),
    .advance, .advance, .advance, .advance, .advance,
    .deliver 1 (reply [call "third"]), .advance, .advance, .advance]

theorem markedIds_distinct :
    let made := ((new defaultConfig).run markedIds).engine.resubmissions
    made.length < 2 ^ 64 ∧ made.map (·.id) = ["a#1", "a#2", "a#1#3"] ∧
    (made.map (·.id)).Nodup := by
  have count : ((new defaultConfig).run markedIds).engine.resubmissions.map (·.id) =
      ["a#1", "a#2", "a#1#3"] := by
    decide +kernel
  have few : ((new defaultConfig).run markedIds).engine.resubmissions.length < 2 ^ 64 := by
    rw [← List.length_map (·.id), count]
    decide
  exact ⟨few, count, (made_ids_distinct defaultConfig markedIds few).2.2.2⟩

end Threads

end Parley
