import Parley.Json.Printer
import Parley.Json.Reader
import Parley.Proofs.Digits
import Parley.Proofs.Utf8

/-! What the readers make of written text, when more text follows it. -/
namespace Parley.Json
open Reader Utf8

section monad

variable {α β : Type} {x : Reader α} {s t : Bytes} {a : α}

theorem bind_of (f : α → Reader β) (h : x s = .ok (a, t)) : (x >>= f) s = f a t := by
  show (x s >>= fun p => f p.1 p.2) = f a t
  rw [h]
  rfl

theorem map_of (f : α → β) (h : x s = .ok (a, t)) : (f <$> x) s = .ok (f a, t) := by
  show (x s >>= fun p => .ok (f p.1, p.2)) = .ok (f a, t)
  rw [h]
  rfl

end monad

/-! Strings. -/

section strings

/-- Bytes that mean themselves inside a string are taken as they are. -/
theorem content_plain {bytes : Bytes} (plain : ∀ b ∈ bytes, b ≠ 0x22 ∧ b ≠ 0x5C ∧ ¬ b < 0x20)
    (done s : Bytes) :
    content .plain done (bytes ++ s) = content .plain (bytes.reverse ++ done) s := by
  induction bytes generalizing done with
  | nil => rfl
  | cons b bytes ih =>
    obtain ⟨quote, slash, control⟩ := plain b List.mem_cons_self
    rw [List.cons_append, content, if_neg quote, if_neg slash, if_neg control,
      ih (fun c member => plain c (List.mem_cons_of_mem b member)), List.reverse_cons,
      List.append_assoc, List.singleton_append]

theorem plain_of_le {b : UInt8} (high : 0x80 ≤ b.toNat) : b ≠ 0x22 ∧ b ≠ 0x5C ∧ ¬ b < 0x20 := by
  simp only [ne_eq, ← UInt8.toNat_inj, UInt8.lt_iff_toNat_lt]
  refine ⟨?_, ?_, ?_⟩ <;> simp <;> omega

theorem control_escape :
    ∀ n < 0x20, encode ['\\', 'u', '0', '0', hexDigit (n / 16), hexDigit (n % 16)] =
        [0x5C, 0x75, 0x30, 0x30, .ofNat (hexDigit (n / 16)).toNat, .ofNat (hexDigit (n % 16)).toNat]
      ∧ unitValue? [.ofNat (hexDigit (n % 16)).toNat, .ofNat (hexDigit (n / 16)).toNat, 0x30, 0x30]
        = some n := by
  decide

theorem content_control {n : Nat} (small : n < 0x20) (done s : Bytes) :
    content .plain done
        (encode ['\\', 'u', '0', '0', hexDigit (n / 16), hexDigit (n % 16)] ++ s) =
      content .plain ((encodeChar (Char.ofNat n)).reverse ++ done) s := by
  obtain ⟨bytes, value⟩ := control_escape n small
  have unit : unitStep none [.ofNat (hexDigit (n % 16)).toNat, .ofNat (hexDigit (n / 16)).toNat,
      0x30, 0x30] = .char (Char.ofNat n) := by
    have trailing : isTrailing n = false := by simp [isTrailing]; omega
    have leading : isLeading n = false := by simp [isLeading]; omega
    simp [unitStep, value, trailing, leading]
  rw [bytes]
  change content (.unit none [.ofNat (hexDigit (n / 16)).toNat, 0x30, 0x30]) done
    (.ofNat (hexDigit (n % 16)).toNat :: s) = _
  rw [content, if_neg (by simp), unit]

theorem plain_encodeChar {c : Char} (quote : c ≠ '"') (slash : c ≠ '\\')
    (control : ¬ c.toNat < 0x20) :
    ∀ b ∈ encodeChar c, b ≠ 0x22 ∧ b ≠ 0x5C ∧ ¬ b < 0x20 := by
  intro b member
  by_cases ascii : c.toNat < 0x80
  · rw [encodeChar_ascii ascii, List.mem_singleton] at member
    subst member
    have byte : (UInt8.ofNat c.toNat).toNat = c.toNat := toNat_ofNat (by omega)
    simp only [ne_eq, ← UInt8.toNat_inj, UInt8.lt_iff_toNat_lt, byte]
    rw [ne_eq, ← Char.toNat_inj] at quote slash
    exact ⟨quote, slash, control⟩
  · exact plain_of_le (le_of_mem_encodeChar (by omega) b member)

theorem content_escapeChar (c : Char) (done s : Bytes) :
    content .plain done (encode (escapeChar c) ++ s) =
      content .plain ((encodeChar c).reverse ++ done) s := by
  unfold escapeChar
  -- Each short escape is read by evaluation; then a control character, then one that is not escaped.
  split
  · next special => subst special; rfl
  split
  · next special => subst special; rfl
  split
  · next special => subst special; rfl
  split
  · next special => subst special; rfl
  split
  · next special => subst special; rfl
  split
  · next special => subst special; rfl
  split
  · next special => subst special; rfl
  split
  · next control =>
    rw [content_control control, Char.ofNat_toNat]
  · next quote slash _ _ _ _ _ control =>
    rw [encode, List.flatMap_singleton]
    exact content_plain (plain_encodeChar quote slash control) done s

theorem content_escaped (cs : List Char) (done rest : Bytes) :
    content .plain done (encode (cs.flatMap escapeChar) ++ 0x22 :: rest) =
      .ok (done.reverse ++ encode cs, rest) := by
  induction cs generalizing done with
  | nil => simp [encode, content]
  | cons c cs ih =>
    rw [List.flatMap_cons, encode_append, List.append_assoc, content_escapeChar, ih]
    simp [encode]

theorem string_escaped (s : String) (rest : Bytes) :
    string (encode (s.toList.flatMap escapeChar) ++ 0x22 :: rest) = .ok (s, rest) := by
  unfold string
  rw [content_escaped, List.reverse_nil, List.nil_append]
  simp only [bind, Except.bind, decode?_encode, String.ofList_toList]

end strings

/-! Numbers. -/

/-- What may stand behind a number without becoming a part of it. -/
inductive Ends : Bytes → Prop
  | nothing : Ends []
  | comma (s : Bytes) : Ends (0x2C :: s)
  | bracket (s : Bytes) : Ends (0x5D :: s)
  | brace (s : Bytes) : Ends (0x7D :: s)

section numbers
open Decimal

variable {rest : Bytes}

/-- The byte of a digit. -/
structure DigitByte (d : Char) : Prop where
  encoded : encodeChar d = [.ofNat d.toNat]
  isDigit : isDigit (.ofNat d.toNat) = true
  space : isSpace (.ofNat d.toNat) = false
  char : Char.ofUInt8 (.ofNat d.toNat) = d
  value : (UInt8.ofNat d.toNat).toNat - 0x30 = d.toNat - '0'.toNat

theorem digitByte {d : Char} (digit : d.isDigit = true) : DigitByte d := by
  obtain ⟨low, high⟩ := Char.isDigit_iff_toNat.mp digit
  simp only [show '0'.toNat = 0x30 from rfl, show '9'.toNat = 0x39 from rfl] at low high
  have byte : (UInt8.ofNat d.toNat).toNat = d.toNat := toNat_ofNat (by omega)
  refine ⟨encodeChar_ascii (by omega), ?_, ?_, ?_, ?_⟩
  · simp [isDigit, UInt8.le_iff_toNat_le, byte]
    omega
  · simp [isSpace, ← UInt8.toNat_inj, byte]
    omega
  · rw [← Char.toNat_inj]
    exact (UInt8.toNat_toUInt32 _).trans byte
  · rw [byte]
    rfl

theorem encode_digits {ds : List Char} (all : ∀ d ∈ ds, d.isDigit = true) :
    encode ds = ds.map fun d => .ofNat d.toNat := by
  induction ds with
  | nil => rfl
  | cons d ds ih =>
    have first := digitByte (all d List.mem_cons_self)
    rw [encode_cons, first.encoded, List.map_cons, List.singleton_append,
      ih fun e member => all e (List.mem_cons_of_mem d member)]

theorem le_ofDigitChars (ds : List Char) (m : Nat) : m ≤ Nat.ofDigitChars 10 ds m := by
  induction ds generalizing m with
  | nil => exact Nat.le_refl m
  | cons d ds ih =>
    rw [Nat.ofDigitChars_cons]
    exact Nat.le_trans (by omega) (ih _)

theorem absorb_all {limit m : Nat} {ds : List Char} (small : Nat.ofDigitChars 10 ds m < limit) :
    absorb limit m (ds.map fun d => d.toNat - '0'.toNat) = (Nat.ofDigitChars 10 ds m, []) := by
  induction ds generalizing m with
  | nil => rfl
  | cons d ds ih =>
    rw [Nat.ofDigitChars_cons, Nat.mul_comm] at small ⊢
    have first := Nat.lt_of_le_of_lt (le_ofDigitChars ds _) small
    rw [List.map_cons, absorb, if_pos first]
    exact ih small

theorem Ends.takeWhile (ends : Ends rest) : rest.takeWhile isDigit = [] := by
  cases ends <;> rfl

theorem Ends.dropWhile (ends : Ends rest) : rest.dropWhile isDigit = rest := by
  cases ends <;> rfl

theorem digits_digits {ds : List Char} (all : ∀ d ∈ ds, d.isDigit = true) (ends : Ends rest) :
    digits (encode ds ++ rest) = .ok (ds.map fun d => d.toNat - '0'.toNat, rest) := by
  have bytes : ∀ b ∈ ds.map fun d => UInt8.ofNat d.toNat, isDigit b = true := by
    intro b member
    obtain ⟨d, within, rfl⟩ := List.mem_map.mp member
    exact (digitByte (all d within)).isDigit
  unfold digits
  rw [encode_digits all, List.takeWhile_append_of_pos bytes, List.dropWhile_append_of_pos bytes,
    ends.takeWhile, ends.dropWhile, List.append_nil, List.map_map]
  congr 2
  apply List.map_congr_left
  intro d member
  exact (digitByte (all d member)).value

theorem encode_natText (n : Nat) :
    ∃ (d : Char) (bytes : Bytes),
      encode (natText n) = .ofNat d.toNat :: bytes ∧ d.isDigit = true := by
  obtain ⟨d, ds, split, digit⟩ := natText_cons n
  refine ⟨d, encode ds, ?_, digit⟩
  rw [split, encode_cons, (digitByte digit).encoded]
  rfl

/-- Written numbers have no leading zero, which the readers refuse. -/
theorem natText_values (n : Nat) (v : Nat) (vs : List Nat) :
    (natText n).map (fun d => d.toNat - '0'.toNat) ≠ 0 :: v :: vs := by
  intro values
  obtain ⟨d, ds, split, digit⟩ := natText_cons n
  rw [split, List.map_cons] at values
  obtain ⟨zero, behind⟩ := List.cons.inj values
  have lead : d = '0' := by
    have low := (Char.isDigit_iff_toNat.mp digit).1
    exact Char.toNat_inj.mp (by omega)
  subst lead
  rw [natText_lead split] at behind
  exact absurd behind (List.cons_ne_nil v vs).symm

theorem number_natText (negative : Bool) {n : Nat} (small : n < wordLimit) (ends : Ends rest) :
    number negative (encode (natText n) ++ rest) = .ok (wholeNumber negative n, rest) := by
  obtain ⟨d, bytes, split, digit⟩ := encode_natText n
  have ahead : peek (encode (natText n) ++ rest) = .ok (some d, encode (natText n) ++ rest) := by
    rw [split]
    simp only [peek, List.cons_append, List.head?_cons, Option.map_some, (digitByte digit).char]
  have all : ∀ d ∈ natText n, d.isDigit = true := fun _ member => natText_digits member
  have value := natText_value n
  have read : absorb wordLimit 0 ((natText n).map fun d => d.toNat - '0'.toNat) = (n, []) := by
    rw [absorb_all (by rw [value]; exact small), value]
  unfold number
  rw [bind_of _ ahead]
  dsimp only
  rw [if_pos digit, bind_of _ (digits_digits all ends), read]
  have lead := natText_values n
  generalize (natText n).map (fun d => d.toNat - '0'.toNat) = values at lead ⊢
  match values with
  | [] | [0] | [_ + 1] | (_ + 1) :: _ :: _ => cases ends <;> rfl
  | 0 :: v :: vs => exact absurd rfl (lead v vs)

end numbers

end Parley.Json
