import Mathlib.Data.List.Induction
import Mathlib.Data.List.Basic
import Parley.Bridge

/-! Wakes and the futures that wait for them. A wake serves the oldest future that waits or is stored
for one to come, so that a stored wake and a waiting future never meet. -/
namespace Parley.Bridge

theorem notifyFirst_eq {front : List Waiter} (settled : .waiting ∉ front) (back : List Waiter) :
    notifyFirst (front ++ .waiting :: back) = front ++ .notified :: back := by
  induction front with
  | nil => rfl
  | cons w front ih =>
    obtain ⟨other, rest⟩ := not_or.mp (mt List.mem_cons.mpr settled)
    cases w with
    | waiting => exact absurd rfl other
    | notified | finished => exact congrArg (List.cons _) (ih rest)

theorem wake_of_split {b : Bridge} {front back : List Waiter} (settled : .waiting ∉ front)
    (split : b.waiters = front ++ .waiting :: back) :
    b.wake = { b with waiters := front ++ .notified :: back } := by
  have waits : b.waiters.contains .waiting = true := by simp [split]
  rw [wake, if_pos waits, split, notifyFirst_eq settled]

theorem wake_of_settled {b : Bridge} (settled : .waiting ∉ b.waiters) :
    b.wake = { b with permit := true } :=
  if_neg (mt List.contains_iff_mem.mp settled)

/-- A wake notifies the oldest future that waits, and no other one, or is stored. -/
theorem wake_cases (b : Bridge) :
    (.waiting ∉ b.waiters ∧ b.wake = { b with permit := true }) ∨
    ∃ front back, .waiting ∉ front ∧ b.waiters = front ++ .waiting :: back ∧
      b.wake = { b with waiters := front ++ .notified :: back } := by
  by_cases waits : .waiting ∈ b.waiters
  · obtain ⟨front, back, split, first⟩ := List.eq_append_cons_of_mem waits
    exact .inr ⟨front, back, first, split, wake_of_split first split⟩
  · exact .inl ⟨waits, wake_of_settled waits⟩

/-! Counts over the moves made so far. -/

/-- Of how many moves `counts` holds in the state that they are made in. -/
def tally (counts : Bridge → Move → Bool) : Bridge → List Move → Nat
  | _, [] => 0
  | b, m :: moves => (counts b m).toNat + tally counts (b.move m) moves

def isWake : Bridge → Move → Bool
  | _, .wake => true
  | _, _ => false

/-- A wake while one is stored already. -/
def isCoalesced : Bridge → Move → Bool
  | b, .wake => b.permit
  | _, _ => false

/-- A poll of a future that is ready at once, and dropped. -/
def isReadyPoll : Bridge → Move → Bool
  | b, .poll => b.poll.1
  | _, _ => false

def wakes (moves : List Move) : Nat :=
  tally isWake {} moves

def coalesced (moves : List Move) : Nat :=
  tally isCoalesced {} moves

/-- The futures that were ready when polled, or are notified since. -/
def served (moves : List Move) : Nat :=
  tally isReadyPoll {} moves + (({} : Bridge).play moves).waiters.countP (· ≠ .waiting)

section tally

variable (counts : Bridge → Move → Bool) (b : Bridge) (moves : List Move) (m : Move)

theorem play_concat : b.play (moves ++ [m]) = (b.play moves).move m :=
  List.foldl_concat _ _ _ _

theorem tally_concat : tally counts b (moves ++ [m]) =
    tally counts b moves + (counts (b.play moves) m).toNat := by
  induction moves generalizing b with
  | nil => exact Nat.add_comm _ _
  | cons first moves ih =>
    rw [List.cons_append, tally, tally, ih, Nat.add_assoc]
    rfl

end tally

/-- The futures kept are the older ones, which are notified or finished, and then `count` that wait.
While any waits, no wake is stored. -/
structure Lined (b : Bridge) (older : List Waiter) (count : Nat) : Prop where
  settled : .waiting ∉ older
  waiters : b.waiters = older ++ List.replicate count .waiting
  permit : b.permit = true → count = 0

namespace Lined

variable {b : Bridge} {older : List Waiter} {count : Nat} (h : Lined b older count)

include h

theorem excluded (permit : b.permit = true) : .waiting ∉ b.waiters := by
  rw [h.waiters, h.permit permit, List.replicate_zero, List.append_nil]
  exact h.settled

theorem countP_waiters : b.waiters.countP (· ≠ .waiting) = older.length := by
  have others : older.countP (· ≠ .waiting) = older.length := by
    refine List.countP_eq_length.mpr fun w member => decide_eq_true ?_
    rintro rfl
    exact h.settled member
  rw [h.waiters, List.countP_append, others, List.countP_replicate]
  simp

/-- None is notified before an older one. -/
theorem in_order : b.waiters.Pairwise fun earlier later =>
    earlier = .waiting → later = .waiting := by
  rw [h.waiters, List.pairwise_append]
  refine ⟨?_, ?_, fun _ _ _ last _ => List.eq_of_mem_replicate last⟩
  · refine List.pairwise_of_forall_mem_list fun w member _ _ waits => ?_
    exact absurd (waits ▸ member) h.settled
  · exact List.pairwise_of_forall_mem_list fun _ _ _ last _ => List.eq_of_mem_replicate last

theorem wake : ∃ older' count', Lined b.wake older' count' ∧
    older'.length + b.wake.permit.toNat + b.permit.toNat = older.length + b.permit.toNat + 1 := by
  have waiters := h.waiters
  cases count with
  | zero =>
    have settled : .waiting ∉ b.waiters := by simpa [waiters] using h.settled
    rw [wake_of_settled settled]
    exact ⟨older, 0, ⟨h.settled, waiters, fun _ => rfl⟩, Nat.add_right_comm _ _ _⟩
  | succ count =>
    have permit : b.permit = false := by
      cases stored : b.permit with
      | false => rfl
      | true => cases h.permit stored
    rw [wake_of_split h.settled waiters]
    refine ⟨older ++ [.notified], count, ⟨?_, ?_, ?_⟩, ?_⟩
    · simpa using h.settled
    · simp
    · simp [permit]
    · simp [permit]

theorem wait : ∃ older' count', Lined b.wait.2 older' count' ∧
    older'.length + b.wait.2.permit.toNat = older.length + b.permit.toNat := by
  have settled := h.settled
  cases permit : b.permit with
  | true =>
    refine ⟨older ++ [.finished], 0, ⟨by simpa using settled, ?_, nofun⟩, ?_⟩
    · simp [Bridge.wait, permit, h.waiters, h.permit permit]
    · simp [Bridge.wait]
  | false =>
    refine ⟨older, count + 1, ⟨settled, ?_, nofun⟩, ?_⟩
    · simp [Bridge.wait, permit, h.waiters, List.replicate_succ']
    · simp [Bridge.wait]

theorem repoll : Lined b.repoll.2 (older.map polled) count where
  settled := by
    intro member
    obtain ⟨w, inside, same⟩ := List.mem_map.mp member
    cases w with
    | waiting => exact h.settled inside
    | notified | finished => cases same
  waiters := by
    simp [Bridge.repoll, h.waiters, polled]
  permit := h.permit

/-- What one move does to the line, and that no wake gets lost in it. -/
theorem move (m : Move) : ∃ older' count', Lined (b.move m) older' count' ∧
    older'.length + (b.move m).permit.toNat + (isReadyPoll b m).toNat + (isCoalesced b m).toNat =
      older.length + b.permit.toNat + (isWake b m).toNat := by
  cases m with
  | wake => exact h.wake
  | poll =>
    exact ⟨older, count, ⟨h.settled, h.waiters, nofun⟩, rfl⟩
  | wait => exact h.wait
  | repoll => exact ⟨older.map polled, count, h.repoll, by rw [List.length_map]; rfl⟩
  | clone => exact ⟨older, count, h, rfl⟩

end Lined

/-- The line after any moves, and how often the futures in front of it were served. -/
theorem play_lined (moves : List Move) : ∃ older count,
    Lined (({} : Bridge).play moves) older count ∧
    tally isReadyPoll {} moves + older.length + (({} : Bridge).play moves).permit.toNat +
      coalesced moves = wakes moves := by
  induction moves using List.reverseRecOn with
  | nil => exact ⟨[], 0, ⟨List.not_mem_nil, rfl, nofun⟩, rfl⟩
  | append_singleton moves m ih =>
    obtain ⟨older, count, lined, balance⟩ := ih
    obtain ⟨older', count', lined', moved⟩ := lined.move m
    rw [play_concat]
    refine ⟨older', count', lined', ?_⟩
    unfold coalesced wakes at balance ⊢
    rw [tally_concat, tally_concat, tally_concat]
    omega

/-- No wake is lost and none is out of turn. After any moves, a wake is stored only if no future
waits; the futures that wait are the latest of those kept, so that none is notified before an older
one; a wake notifies just the oldest of them, or is stored; and the futures served, together with the
wake that is stored, are as many as the wakes but for those made while one was stored. -/
theorem wakes_conserved (moves : List Move) :
    let b := ({} : Bridge).play moves
    (b.permit = true → .waiting ∉ b.waiters) ∧
    (∃ older count, .waiting ∉ older ∧ b.waiters = older ++ List.replicate count .waiting) ∧
    (b.waiters.Pairwise fun earlier later => earlier = .waiting → later = .waiting) ∧
    ((.waiting ∉ b.waiters ∧ b.wake = { b with permit := true }) ∨
      ∃ front back, .waiting ∉ front ∧ b.waiters = front ++ .waiting :: back ∧
        b.wake = { b with waiters := front ++ .notified :: back }) ∧
    coalesced moves ≤ wakes moves ∧
    served moves + b.permit.toNat = wakes moves - coalesced moves := by
  intro b
  obtain ⟨older, count, lined, balance⟩ := play_lined moves
  have total : served moves + b.permit.toNat + coalesced moves = wakes moves := by
    rw [served, lined.countP_waiters]
    exact balance
  exact ⟨lined.excluded, ⟨older, count, lined.settled, lined.waiters⟩, lined.in_order,
    wake_cases b, by omega, Nat.eq_sub_of_add_eq total⟩

end Parley.Bridge
