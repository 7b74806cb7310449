import Mathlib.Algebra.Group.Nat.Defs
import Parley.Proofs.Utf8

/-! The pieces of a text hold all of its bytes, so encoding undoes decoding. -/
namespace Parley.Utf8

theorem toNat_scalar {n : Nat} (valid : n < 0xD800 ∨ 0xDFFF < n ∧ n < 0x110000) :
    (Char.ofNat n).toNat = n := by
  have scalar : n.isValidChar := valid
  unfold Char.ofNat
  rw [dif_pos scalar]
  rfl

/-- The last bytes of the encoding of a scalar of more than one byte. -/
def lastBytes (n : Nat) : Nat → Bytes
  | 0 => []
  | owed + 1 => .ofNat (0x80 + n / 64 ^ owed % 64) :: lastBytes n owed

section spelled

variable {b : UInt8} {n : Nat}

theorem encodeChar_two (low : 0x80 ≤ n) (high : n < 0x800) (lead : 0xC0 + n / 64 = b.toNat) :
    encodeChar (Char.ofNat n) = b :: lastBytes n 1 := by
  unfold encodeChar
  rw [toNat_scalar (by omega), if_neg (by omega), if_pos high, lead, UInt8.ofNat_toNat]
  simp [lastBytes]

theorem encodeChar_three (low : 0x800 ≤ n) (high : n < 0x10000) (scalar : n < 0xD800 ∨ 0xDFFF < n)
    (lead : 0xE0 + n / 4096 = b.toNat) :
    encodeChar (Char.ofNat n) = b :: lastBytes n 2 := by
  unfold encodeChar
  rw [toNat_scalar (by omega), if_neg (by omega), if_neg (by omega), if_pos high, lead,
    UInt8.ofNat_toNat]
  simp [lastBytes]

theorem encodeChar_four (low : 0x10000 ≤ n) (high : n < 0x110000)
    (lead : 0xF0 + n / 262144 = b.toNat) :
    encodeChar (Char.ofNat n) = b :: lastBytes n 3 := by
  unfold encodeChar
  rw [toNat_scalar (by omega), if_neg (by omega), if_neg (by omega), if_neg (by omega), lead,
    UInt8.ofNat_toNat]
  simp [lastBytes]

end spelled

/-- Every scalar that the sequence can end in is spelled by the bytes held and the bytes owed. -/
structure Begun.Sound (g : Begun) : Prop where
  owes : 0 < g.owed
  low : 0x80 ≤ g.low.toNat
  high : g.high.toNat ≤ 0xBF
  spelled : ∀ n, n / 64 ^ g.owed = g.value →
    g.low.toNat ≤ 0x80 + n / 64 ^ (g.owed - 1) % 64 →
    0x80 + n / 64 ^ (g.owed - 1) % 64 ≤ g.high.toNat →
    encodeChar (Char.ofNat n) = g.held.reverse ++ lastBytes n g.owed

theorem opening_begun {b : UInt8} {g : Begun} (begun : opening b = .begun g) :
    g.Sound ∧ g.held = [b] := by
  unfold opening at begun
  simp only at begun
  split at begun
  · cases begun
  split at begun
  · cases begun
  split at begun
  · cases begun
    refine ⟨⟨by simp, by simp, by simp, fun n value _ _ => ?_⟩, rfl⟩
    simp only [Nat.pow_one] at value
    exact encodeChar_two (by omega) (by omega) (by omega)
  split at begun
  · cases begun
    refine ⟨⟨by simp, ?_, ?_, fun n value least most => ?_⟩, rfl⟩
    · dsimp only; split <;> simp
    · dsimp only; split <;> simp
    simp only [apply_ite UInt8.toNat, UInt8.reduceToNat] at value least most
    have low : 0x800 ≤ n := by split at least <;> omega
    have scalar : n < 0xD800 ∨ 0xDFFF < n := by split at most <;> omega
    exact encodeChar_three low (by omega) scalar (by omega)
  split at begun
  · cases begun
    refine ⟨⟨by simp, ?_, ?_, fun n value least most => ?_⟩, rfl⟩
    · dsimp only; split <;> simp
    · dsimp only; split <;> simp
    simp only [apply_ite UInt8.toNat, UInt8.reduceToNat] at value least most
    have low : 0x10000 ≤ n := by split at least <;> omega
    have high : n < 0x110000 := by split at most <;> omega
    exact encodeChar_four low high (by omega)
  · cases begun

theorem opening_scalar {b : UInt8} {c : Char} (scalar : opening b = .scalar c) :
    encodeChar c = [b] := by
  unfold opening at scalar
  simp only at scalar
  split_ifs at scalar with ascii
  cases scalar
  have same : (Char.ofNat b.toNat).toNat = b.toNat := toNat_scalar (by omega)
  rw [encodeChar_ascii (by omega), same, UInt8.ofNat_toNat]

section extend

variable {g g' : Begun} {b : UInt8} {c : Char}

/-- The scalars that a byte in the range of the next one leaves possible. -/
theorem Begun.Sound.spelled_next (sound : g.Sound) (least : g.low.toNat ≤ b.toNat)
    (most : b.toNat ≤ g.high.toNat) {n : Nat}
    (value : n / 64 ^ (g.owed - 1) = g.value * 64 + (b.toNat - 0x80)) :
    encodeChar (Char.ofNat n) = g.held.reverse ++ b :: lastBytes n (g.owed - 1) := by
  have owes := sound.owes
  have low := sound.low
  have high := sound.high
  obtain ⟨owed, count⟩ := Nat.exists_eq_succ_of_ne_zero (Nat.ne_of_gt owes)
  have digit : 0x80 + n / 64 ^ (g.owed - 1) % 64 = b.toNat := by omega
  have whole : n / 64 ^ g.owed = g.value := by
    rw [count, Nat.succ_eq_add_one, Nat.pow_succ, ← Nat.div_div_eq_div_mul]
    rw [count, Nat.succ_eq_add_one, Nat.add_sub_cancel] at value
    omega
  rw [sound.spelled n whole (by omega) (by omega), count, Nat.succ_eq_add_one, lastBytes,
    Nat.add_sub_cancel]
  rw [count, Nat.succ_eq_add_one, Nat.add_sub_cancel] at digit
  rw [digit, UInt8.ofNat_toNat]

theorem extend_scalar (sound : g.Sound) (last : g.extend b = some (.scalar c)) :
    encodeChar c = g.held.reverse ++ [b] := by
  have owes := sound.owes
  unfold Begun.extend at last
  dsimp only at last
  split at last
  · next range =>
    split at last
    · next one =>
      obtain rfl := Opening.scalar.inj (Option.some.inj last)
      have none : g.owed - 1 = 0 := by omega
      have spelled := sound.spelled_next (n := g.value * 64 + (b.toNat - 0x80))
        (UInt8.le_iff_toNat_le.mp range.1) (UInt8.le_iff_toNat_le.mp range.2) (by rw [none]; simp)
      rw [none] at spelled
      exact spelled
    · cases last
  · cases last

theorem extend_begun (sound : g.Sound) (more : g.extend b = some (.begun g')) :
    g'.Sound ∧ g'.held = b :: g.held := by
  unfold Begun.extend at more
  dsimp only at more
  split at more
  · next range =>
    split at more
    · cases more
    · next owed =>
      cases more
      refine ⟨⟨by dsimp only; omega, by simp, by simp, fun n value _ _ => ?_⟩, rfl⟩
      rw [sound.spelled_next (UInt8.le_iff_toNat_le.mp range.1) (UInt8.le_iff_toNat_le.mp range.2)
        value]
      simp
  · cases more

theorem extend_broken : g.extend b ≠ some .broken := by
  unfold Begun.extend
  split_ifs <;> simp

end extend

/-- No byte is lost. -/
theorem flatMap_piecesFrom (s : Bytes) :
    (piecesFrom none s).flatMap Piece.bytes = s ∧
      ∀ g : Begun, g.Sound → (piecesFrom (some g) s).flatMap Piece.bytes = g.held.reverse ++ s := by
  induction s with
  | nil =>
    refine ⟨rfl, fun g _ => ?_⟩
    rw [piecesFrom]
    simp [Piece.bytes]
  | cons b s ih =>
    obtain ⟨fresh, within⟩ := ih
    have first : (piecesFrom none (b :: s)).flatMap Piece.bytes = b :: s := by
      cases lead : opening b with
      | scalar c =>
        rw [piecesFrom_scalar lead, List.flatMap_cons, fresh, Piece.bytes, opening_scalar lead]
        rfl
      | begun g =>
        obtain ⟨sound, held⟩ := opening_begun lead
        rw [piecesFrom_begun lead, within g sound, held]
        rfl
      | broken =>
        rw [piecesFrom]
        simp only [lead]
        rw [List.flatMap_cons, fresh]
        rfl
    refine ⟨first, fun g sound => ?_⟩
    cases step : g.extend b with
    | none =>
      have cut : piecesFrom (some g) (b :: s) =
          .broken g.held.reverse :: piecesFrom none (b :: s) := by
        rw [piecesFrom, piecesFrom]
        simp only [step]
      rw [cut, List.flatMap_cons, first]
      rfl
    | some next =>
      cases next with
      | scalar c =>
        rw [piecesFrom_last step, List.flatMap_cons, fresh, Piece.bytes, extend_scalar sound step,
          List.append_assoc]
        rfl
      | begun g' =>
        obtain ⟨sound', held⟩ := extend_begun sound step
        rw [piecesFrom_more step, within g' sound', held, List.reverse_cons, List.append_assoc]
        rfl
      | broken => exact (extend_broken step).elim

theorem flatMap_pieces (s : Bytes) : (pieces s).flatMap Piece.bytes = s :=
  (flatMap_piecesFrom s).1

/-- What is decoded was encoded. -/
theorem encode_of_decode? {s : Bytes} {cs : List Char} (decoded : decode? s = some cs) :
    encode cs = s := by
  have scalars : ∀ (ps : List Piece) {cs : List Char}, ps.mapM Piece.char? = some cs →
      encode cs = ps.flatMap Piece.bytes := by
    intro ps
    induction ps with
    | nil =>
      intro cs none
      cases none
      rfl
    | cons p ps ih =>
      intro cs all
      rw [List.mapM_cons] at all
      obtain ⟨c, first, all⟩ := Option.bind_eq_some_iff.mp all
      obtain ⟨cs', rest, all⟩ := Option.bind_eq_some_iff.mp all
      cases all
      cases p with
      | scalar d =>
        cases first
        rw [encode_cons, ih rest, List.flatMap_cons]
        rfl
      | broken bytes => cases first
  rw [scalars _ decoded, flatMap_pieces]

/-- Past the first one, a byte of a character could not begin one. -/
def isContinuation (b : UInt8) : Bool :=
  0x80 ≤ b.toNat && b.toNat < 0xC0

theorem encodeChar_lead (c : Char) : ∃ b bs, encodeChar c = b :: bs ∧ isContinuation b = false ∧
    ∀ x ∈ bs, isContinuation x = true := by
  have range := toNat_range c
  have continuation : ∀ n, isContinuation (.ofNat (0x80 + n % 64)) = true := by
    intro n
    have byte : (UInt8.ofNat (0x80 + n % 64)).toNat = 0x80 + n % 64 := toNat_ofNat (by omega)
    simp only [isContinuation, byte, Bool.and_eq_true, decide_eq_true_eq]
    omega
  have lead : ∀ n, n < 0x100 → n < 0x80 ∨ 0xC0 ≤ n → isContinuation (.ofNat n) = false := by
    intro n small outside
    simp only [isContinuation, toNat_ofNat small, Bool.and_eq_false_iff, decide_eq_false_iff_not]
    omega
  simp only [encodeChar]
  split_ifs
  · exact ⟨_, _, rfl, lead _ (by omega) (by omega), List.forall_mem_nil _⟩
  all_goals
    refine ⟨_, _, rfl, lead _ (by omega) (by omega), ?_⟩
    simp only [List.forall_mem_cons, continuation, true_and]
    exact List.forall_mem_nil _

/-- No character begins another. -/
theorem encode_eq_append {c : Char} {cs : List Char} {s : Bytes}
    (same : encode cs = encodeChar c ++ s) : ∃ ds, cs = c :: ds ∧ encode ds = s := by
  have split : pieces (encode cs) = .scalar c :: pieces s := by
    rw [same]
    exact piecesFrom_encodeChar s c
  rw [pieces_encode] at split
  cases cs with
  | nil => cases split
  | cons d ds =>
    obtain ⟨first, -⟩ := List.cons.inj split
    cases first
    exact ⟨ds, rfl, List.append_cancel_left same⟩

end Parley.Utf8
