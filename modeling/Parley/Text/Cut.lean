import Parley.Utf8

/-! Cutting a text to a number of characters. The cut is made at a byte, and can be made only where
a character begins or the text ends. -/
namespace Parley.Text

open Utf8

/-- The bytes at which the characters begin, the first one at `start`. -/
def starts (start : Nat) : List Char → List Nat
  | [] => []
  | c :: cs => start :: starts (start + (encodeChar c).length) cs

/-- The characters in front of a byte. -/
def upTo? : List Char → Nat → Option (List Char)
  | _, 0 => some []
  | [], _ + 1 => none
  | c :: cs, n + 1 =>
    if (encodeChar c).length ≤ n + 1 then (upTo? cs (n + 1 - (encodeChar c).length)).map (c :: ·)
    else none

def truncate? (limit : Nat) (s : List Char) : Option (List Char) :=
  match (starts 0 s)[limit]? with
  | some i => upTo? s i
  | none => some s

theorem length_encodeChar_pos (c : Char) : 0 < (encodeChar c).length := by
  simp only [encodeChar]
  repeat' split
  all_goals exact Nat.succ_pos _

theorem getElem?_starts (start : Nat) (s : List Char) (k : Nat) : (starts start s)[k]? =
    if k < s.length then some (start + (encode (s.take k)).length) else none := by
  induction s generalizing start k with
  | nil => simp [starts]
  | cons c s ih =>
    cases k with
    | zero => simp [starts, encode]
    | succ k =>
      rw [starts, List.getElem?_cons_succ, ih]
      simp [encode, Nat.add_assoc]

theorem upTo?_encode (s : List Char) (k : Nat) :
    upTo? s (encode (s.take k)).length = some (s.take k) := by
  induction s generalizing k with
  | nil => simp [upTo?, encode]
  | cons c s ih =>
    cases k with
    | zero => simp [upTo?, encode]
    | succ k =>
      have length : (encode ((c :: s).take (k + 1))).length =
          (encodeChar c).length + (encode (s.take k)).length := by
        simp [encode]
      obtain ⟨n, size⟩ := Nat.exists_eq_add_of_lt (length_encodeChar_pos c)
      rw [length, size, show 0 + n + 1 + (encode (s.take k)).length =
        (n + (encode (s.take k)).length) + 1 by omega, upTo?, if_pos (by omega)]
      rw [show n + (encode (s.take k)).length + 1 - (encodeChar c).length =
        (encode (s.take k)).length by omega, ih]
      rfl

/-- The cut never fails. -/
theorem truncate?_eq (limit : Nat) (s : List Char) : truncate? limit s = some (s.take limit) := by
  unfold truncate?
  rw [getElem?_starts]
  by_cases long : limit < s.length
  · rw [if_pos long, Nat.zero_add]
    exact upTo?_encode s limit
  · rw [if_neg long, List.take_of_length_le (Nat.le_of_not_lt long)]

def truncate (limit : Nat) (s : List Char) : List Char :=
  (truncate? limit s).get (by rw [truncate?_eq]; rfl)

theorem truncate_eq (limit : Nat) (s : List Char) : truncate limit s = s.take limit := by
  simp only [truncate, truncate?_eq, Option.get_some]

end Parley.Text
