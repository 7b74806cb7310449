import Mathlib.Data.List.TakeWhile
import Parley.Proofs.Grammar
import Parley.Proofs.Reading

/-! The readers on the UTF-8 of characters. What they ask of a byte they ask of the character that
it begins, since all that means something to them is ASCII. -/
namespace Parley.Json.Grammar
open Reader Utf8

theorem encodeChar_cases (c : Char) :
    c.toNat < 0x80 ∧ encodeChar c = [.ofNat c.toNat] ∨
      0x80 ≤ c.toNat ∧ ∃ b bs, encodeChar c = b :: bs ∧ ∀ x ∈ b :: bs, 0x80 ≤ x.toNat := by
  by_cases ascii : c.toNat < 0x80
  · exact .inl ⟨ascii, encodeChar_ascii ascii⟩
  · obtain ⟨b, bs, split⟩ := List.exists_cons_of_ne_nil (encodeChar_ne_nil c)
    refine .inr ⟨by omega, b, bs, split, ?_⟩
    rw [← split]
    exact le_of_mem_encodeChar (by omega)

theorem encode_ascii {c : Char} (ascii : c.toNat < 0x80) (cs : List Char) :
    encode (c :: cs) = .ofNat c.toNat :: encode cs := by
  rw [encode_cons, encodeChar_ascii ascii, List.singleton_append]

/-- The byte test and the character test agree on ASCII, and fail elsewhere. -/
structure Agree (onByte : UInt8 → Bool) (onChar : Char → Bool) : Prop where
  ascii : ∀ c : Char, c.toNat < 0x80 → onByte (.ofNat c.toNat) = onChar c
  byte : ∀ b : UInt8, 0x80 ≤ b.toNat → onByte b = false
  char : ∀ c : Char, 0x80 ≤ c.toNat → onChar c = false

namespace Agree

variable {onByte : UInt8 → Bool} {onChar : Char → Bool}

theorem dropWhile (agree : Agree onByte onChar) (cs : List Char) :
    (encode cs).dropWhile onByte = encode (cs.dropWhile onChar) := by
  induction cs with
  | nil => rfl
  | cons c cs ih =>
    rcases encodeChar_cases c with ⟨ascii, -⟩ | ⟨high, b, bs, split, bytes⟩
    · rw [encode_ascii ascii, List.dropWhile_cons, List.dropWhile_cons, agree.ascii c ascii, ih]
      split
      · rfl
      · exact (encode_ascii ascii cs).symm
    · rw [encode_cons, split, List.cons_append,
        List.dropWhile_cons_of_neg (by simp [agree.byte b (bytes b List.mem_cons_self)]),
        List.dropWhile_cons_of_neg (by simp [agree.char c high]), encode_cons, split,
        List.cons_append]

theorem takeWhile (agree : Agree onByte onChar) (cs : List Char) :
    (encode cs).takeWhile onByte = (cs.takeWhile onChar).map fun c => .ofNat c.toNat := by
  induction cs with
  | nil => rfl
  | cons c cs ih =>
    rcases encodeChar_cases c with ⟨ascii, -⟩ | ⟨high, b, bs, split, bytes⟩
    · rw [encode_ascii ascii, List.takeWhile_cons, List.takeWhile_cons, agree.ascii c ascii, ih]
      split <;> rfl
    · rw [encode_cons, split, List.cons_append,
        List.takeWhile_cons_of_neg (by simp [agree.byte b (bytes b List.mem_cons_self)]),
        List.takeWhile_cons_of_neg (by simp [agree.char c high]), List.map_nil]

end Agree

theorem agree_space : Agree Reader.isSpace Grammar.isSpace where
  ascii c ascii := by
    have byte : (UInt8.ofNat c.toNat).toNat = c.toNat := toNat_ofNat (by omega)
    simp [Reader.isSpace, Grammar.isSpace, ← UInt8.toNat_inj, ← Char.toNat_inj, byte]
  byte b high := by
    simp [Reader.isSpace, ← UInt8.toNat_inj]
    omega
  char c high := by
    simp [Grammar.isSpace, ← Char.toNat_inj]
    omega

theorem agree_digit : Agree Json.isDigit Char.isDigit where
  ascii c ascii := by
    have byte : (UInt8.ofNat c.toNat).toNat = c.toNat := toNat_ofNat (by omega)
    rw [Bool.eq_iff_iff, Char.isDigit_iff_toNat]
    simp [Json.isDigit, UInt8.le_iff_toNat_le, byte]
  byte b high := by
    simp [Json.isDigit, UInt8.le_iff_toNat_le]
    omega
  char c high := by
    rw [Bool.eq_false_iff, ne_eq, Char.isDigit_iff_toNat]
    simp
    omega

/-! What is ahead. -/

/-- The byte ahead, as a character. -/
def ahead (s : Bytes) : Option Char :=
  s.head?.map Char.ofUInt8

theorem peek_eq (s : Bytes) : peek s = .ok (ahead s, s) :=
  rfl

theorem toNat_ofUInt8 (b : UInt8) : (Char.ofUInt8 b).toNat = b.toNat :=
  UInt8.toNat_toUInt32 b

theorem ahead_ascii {c : Char} (ascii : c.toNat < 0x80) (cs : List Char) :
    ahead (encode (c :: cs)) = some c := by
  rw [encode_ascii ascii, ahead, List.head?_cons, Option.map_some, Option.some_inj,
    ← Char.toNat_inj, toNat_ofUInt8, toNat_ofNat (by omega)]

theorem ahead_encode (c : Char) (cs : List Char) :
    ∃ d, ahead (encode (c :: cs)) = some d ∧ (d = c ∨ 0x80 ≤ d.toNat ∧ 0x80 ≤ c.toNat) := by
  rcases encodeChar_cases c with ⟨ascii, -⟩ | ⟨high, b, bs, split, bytes⟩
  · exact ⟨c, ahead_ascii ascii cs, .inl rfl⟩
  · refine ⟨Char.ofUInt8 b, ?_, .inr ⟨?_, high⟩⟩
    · rw [encode_cons, split]
      rfl
    · rw [toNat_ofUInt8]
      exact bytes b List.mem_cons_self

theorem ahead_none {cs : List Char} (none : ahead (encode cs) = none) : cs = [] := by
  cases cs with
  | nil => rfl
  | cons c cs =>
    obtain ⟨d, some, -⟩ := ahead_encode c cs
    rw [some] at none
    cases none

/-- An ASCII character ahead is the first of the text. -/
theorem ahead_some {cs : List Char} {p : Char} (found : ahead (encode cs) = some p)
    (ascii : p.toNat < 0x80) : ∃ rest, cs = p :: rest := by
  cases cs with
  | nil => cases found
  | cons c cs =>
    obtain ⟨d, some, same⟩ := ahead_encode c cs
    obtain rfl := Option.some.inj (some.symm.trans found)
    rcases same with rfl | ⟨high, -⟩
    · exact ⟨cs, rfl⟩
    · omega

theorem ahead_ne {cs : List Char} {p : Char} (ascii : p.toNat < 0x80)
    (other : ∀ c ∈ cs.head?, c ≠ p) : ahead (encode cs) ≠ some p := by
  intro found
  obtain ⟨rest, rfl⟩ := ahead_some found ascii
  exact other p rfl rfl

theorem skip_ascii {c : Char} (ascii : c.toNat < 0x80) (cs : List Char) :
    skip (encode (c :: cs)) = .ok ((), encode cs) := by
  rw [encode_ascii ascii]
  rfl

theorem token_encode (cs : List Char) :
    token (encode cs) =
      .ok (ahead (encode (cs.dropWhile isSpace)), encode (cs.dropWhile isSpace)) := by
  unfold token
  rw [agree_space.dropWhile]
  rfl

/-- White space is what comes before what is not. -/
theorem split_spaces (cs : List Char) :
    ∃ (before : Spaces) (rest : List Char), cs = before.val ++ rest ∧ cs.dropWhile isSpace = rest :=
  ⟨⟨cs.takeWhile isSpace, fun _ member => List.mem_takeWhile_imp member⟩, cs.dropWhile isSpace,
    (List.takeWhile_append_dropWhile).symm, rfl⟩

theorem dropWhile_spaces (before : Spaces) {rest : List Char}
    (stop : ∀ c ∈ rest.head?, isSpace c = false) :
    (before.val ++ rest).dropWhile isSpace = rest := by
  rw [List.dropWhile_append_of_pos before.2]
  cases rest with
  | nil => rfl
  | cons c rest => exact List.dropWhile_cons_of_neg (by simp [stop c rfl])

theorem digits_run (ds : Digits) {cs : List Char} (stop : ∀ c ∈ cs.head?, c.isDigit = false) :
    digits (encode (ds.chars ++ cs)) = .ok (ds.values, encode cs) := by
  have last : cs.takeWhile Char.isDigit = [] ∧ cs.dropWhile Char.isDigit = cs := by
    cases cs with
    | nil => exact ⟨rfl, rfl⟩
    | cons c cs =>
      have other : ¬ c.isDigit = true := by simp [stop c rfl]
      exact ⟨List.takeWhile_cons_of_neg other, List.dropWhile_cons_of_neg other⟩
  unfold digits
  rw [agree_digit.takeWhile, agree_digit.dropWhile, List.takeWhile_append_of_pos ds.all,
    List.dropWhile_append_of_pos ds.all, last.1, last.2, List.append_nil, List.map_map]
  have values :
      ds.chars.map ((fun b => b.toNat - 0x30) ∘ fun d => UInt8.ofNat d.toNat) = ds.values :=
    List.map_congr_left fun d member => (digitByte (ds.all d member)).value
  exact congrArg (fun values => Except.ok (values, encode cs)) values

theorem digits_none {s : Bytes} (other : ∀ c ∈ ahead s, c.isDigit = false) :
    digits s = .ok ([], s) := by
  cases s with
  | nil => rfl
  | cons b s =>
    have byte : ¬ Json.isDigit b = true := by
      have char := other _ rfl
      rw [Bool.eq_false_iff, ne_eq, Char.isDigit_iff_toNat, toNat_ofUInt8] at char
      simpa [Json.isDigit, UInt8.le_iff_toNat_le] using char
    unfold digits
    rw [List.takeWhile_cons_of_neg byte, List.dropWhile_cons_of_neg byte]
    rfl

/-- Where a digit is ahead, a run of them is. -/
theorem split_digits {cs : List Char} {d : Char} (found : ahead (encode cs) = some d)
    (digit : d.isDigit = true) :
    ∃ (ds : Digits) (rest : List Char), cs = ds.chars ++ rest ∧
      ∀ c ∈ rest.head?, c.isDigit = false := by
  have ascii : d.toNat < 0x80 := by
    by_contra high
    rw [agree_digit.char d (by omega)] at digit
    cases digit
  obtain ⟨rest, rfl⟩ := ahead_some found ascii
  refine ⟨⟨(d :: rest).takeWhile Char.isDigit, ?_, fun _ member => List.mem_takeWhile_imp member⟩,
    (d :: rest).dropWhile Char.isDigit, (List.takeWhile_append_dropWhile).symm, ?_⟩
  · rw [List.takeWhile_cons_of_pos digit]
    exact List.cons_ne_nil _ _
  · intro c first
    have stops := List.head?_dropWhile_not Char.isDigit (d :: rest)
    rw [Option.mem_def.mp first] at stops
    exact stops

/-- A literal is read where it stands, and nowhere else. -/
theorem literal_iff {ls : List Char} (ascii : ∀ c ∈ ls, c.toNat < 0x80) {cs : List Char}
    {t : Bytes} :
    literal ls (encode cs) = .ok ((), t) ↔ ∃ rest, cs = ls ++ rest ∧ t = encode rest := by
  induction ls generalizing cs with
  | nil =>
    constructor
    · intro read
      cases read
      exact ⟨cs, rfl, rfl⟩
    · rintro ⟨rest, rfl, rfl⟩
      rfl
  | cons c ls ih =>
    obtain ⟨first, behind⟩ := List.forall_mem_cons.mp ascii
    have taken : next (encode cs) = .ok (ahead (encode cs), (encode cs).tail) := rfl
    rw [literal, bind_of _ taken]
    constructor
    · intro read
      cases found : ahead (encode cs) with
      | none =>
        rw [found] at read
        cases read
      | some d =>
        rw [found] at read
        dsimp only at read
        split at read
        · next same =>
          subst same
          obtain ⟨rest, rfl⟩ := ahead_some found first
          rw [encode_ascii first, List.tail_cons, ih behind] at read
          obtain ⟨rest', rfl, behind⟩ := read
          exact ⟨rest', rfl, behind⟩
        · cases read
    · rintro ⟨rest, rfl, rfl⟩
      rw [List.cons_append, ahead_ascii first]
      dsimp only
      rw [if_pos rfl, encode_ascii first, List.tail_cons, ih behind]
      exact ⟨rest, rfl, rfl⟩

end Parley.Json.Grammar
