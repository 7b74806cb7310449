import Mathlib.Data.Nat.Basic
import Parley.Decimal.Layout

/-! The digits of a number as it is written. -/
namespace Parley.Decimal

theorem natText_digits {n : Nat} {c : Char} (member : c ∈ natText n) : c.isDigit = true :=
  Nat.isDigit_of_mem_toDigits (by decide) (by decide) member

theorem natText_value (n : Nat) : Nat.ofDigitChars 10 (natText n) 0 = n :=
  Nat.ofDigitChars_ten_toDigits

theorem natText_injective : Function.Injective natText := by
  intro m n same
  rw [← natText_value m, same, natText_value]

theorem natText_cons (n : Nat) : ∃ d ds, natText n = d :: ds ∧ d.isDigit = true := by
  have written : natText n ≠ [] := Nat.toDigits_ne_nil
  obtain ⟨d, ds, split⟩ := List.exists_cons_of_ne_nil written
  refine ⟨d, ds, split, natText_digits (n := n) ?_⟩
  rw [split]
  exact List.mem_cons_self

theorem natText_of_le {n : Nat} (long : 10 ≤ n) :
    natText n = natText (n / 10) ++ [Nat.digitChar (n % 10)] := by
  unfold natText digitChars
  rw [Nat.toDigits_eq_if (by decide), if_neg (Nat.not_lt.mpr long)]

/-- A leading zero is the only digit. -/
theorem natText_lead {n : Nat} {ds : List Char} (lead : natText n = '0' :: ds) : ds = [] := by
  induction n using Nat.strongRecOn generalizing ds with
  | _ n ih =>
    by_cases short : n < 10
    · have single : natText n = [Nat.digitChar n] := Nat.toDigits_of_lt_base short
      rw [single] at lead
      exact (List.cons.inj lead).2.symm
    · -- The digits in front of the last one start alike, so they would be a single zero.
      obtain ⟨d, front, split, -⟩ := natText_cons (n / 10)
      rw [natText_of_le (Nat.not_lt.mp short), split] at lead
      obtain ⟨rfl, -⟩ := List.cons.inj lead
      have value := natText_value (n / 10)
      rw [split, ih (n / 10) (by omega) split] at value
      exact absurd (show 0 = n / 10 from value) (by omega)

end Parley.Decimal
