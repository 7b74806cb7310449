import Mathlib.Data.Char
import Mathlib.Data.List.Basic
import Parley.Utf8

/-! Decoding undoes encoding, and the encoding keeps the order of texts. -/
namespace Parley.Utf8

theorem toNat_range (c : Char) : c.toNat < 0xD800 ∨ 0xDFFF < c.toNat ∧ c.toNat < 0x110000 := by
  have valid := c.valid
  simpa [UInt32.isValidChar, Nat.isValidChar] using valid

theorem toNat_ofNat {n : Nat} (small : n < 0x100) : (UInt8.ofNat n).toNat = n :=
  UInt8.toNat_ofNat_of_lt' small

theorem encode_cons (c : Char) (cs : List Char) : encode (c :: cs) = encodeChar c ++ encode cs :=
  List.flatMap_cons

theorem encode_append (cs ds : List Char) : encode (cs ++ ds) = encode cs ++ encode ds :=
  List.flatMap_append

theorem encodeChar_ascii {c : Char} (ascii : c.toNat < 0x80) : encodeChar c = [.ofNat c.toNat] :=
  if_pos ascii

theorem le_of_mem_encodeChar {c : Char} (high : 0x80 ≤ c.toNat) :
    ∀ b ∈ encodeChar c, 0x80 ≤ b.toNat := by
  have range := toNat_range c
  have none : ∀ b ∈ ([] : Bytes), 0x80 ≤ b.toNat := List.forall_mem_nil _
  simp only [encodeChar]
  split_ifs <;> simp (disch := omega) only [List.forall_mem_cons, toNat_ofNat]
  · omega
  · exact ⟨by omega, by omega, none⟩
  · exact ⟨by omega, by omega, by omega, none⟩
  · exact ⟨by omega, by omega, by omega, by omega, none⟩

section pieces

variable {b : UInt8} {g g' : Begun} {c : Char} {s : Bytes}

theorem piecesFrom_scalar (h : opening b = .scalar c) :
    piecesFrom none (b :: s) = .scalar c :: piecesFrom none s := by
  rw [piecesFrom]
  simp only [h]

theorem piecesFrom_begun (h : opening b = .begun g) :
    piecesFrom none (b :: s) = piecesFrom (some g) s := by
  rw [piecesFrom]
  simp only [h]

theorem piecesFrom_more (h : g.extend b = some (.begun g')) :
    piecesFrom (some g) (b :: s) = piecesFrom (some g') s := by
  rw [piecesFrom]
  simp only [h]

theorem piecesFrom_last (h : g.extend b = some (.scalar c)) :
    piecesFrom (some g) (b :: s) = .scalar c :: piecesFrom none s := by
  rw [piecesFrom]
  simp only [h]

end pieces

section extend

variable {g : Begun} {b : UInt8}

theorem Begun.extend_last (owed : g.owed = 1) (low : g.low.toNat ≤ b.toNat)
    (high : b.toNat ≤ g.high.toNat) :
    g.extend b = some (.scalar (Char.ofNat (g.value * 64 + (b.toNat - 0x80)))) := by
  unfold extend
  rw [if_pos ⟨UInt8.le_iff_toNat_le.mpr low, UInt8.le_iff_toNat_le.mpr high⟩]
  simp only [owed, Nat.le_refl, if_true]

theorem Begun.extend_more (owed : 1 < g.owed) (low : g.low.toNat ≤ b.toNat)
    (high : b.toNat ≤ g.high.toNat) :
    g.extend b =
      some (.begun ⟨b :: g.held, g.value * 64 + (b.toNat - 0x80), g.owed - 1, 0x80, 0xBF⟩) := by
  unfold extend
  rw [if_pos ⟨UInt8.le_iff_toNat_le.mpr low, UInt8.le_iff_toNat_le.mpr high⟩]
  simp only [Nat.not_le.mpr owed, if_false]

end extend

section opening

variable {b : UInt8} {k : Nat}

theorem opening_one (lead : b.toNat < 0x80) : opening b = .scalar (Char.ofNat b.toNat) := by
  unfold opening
  rw [if_pos lead]

theorem opening_two (lead : b.toNat = 0xC0 + k) (low : 2 ≤ k) (high : k < 32) :
    opening b = .begun ⟨[b], k, 1, 0x80, 0xBF⟩ := by
  unfold opening
  simp only [lead]
  rw [if_neg (by omega), if_neg (by omega), if_pos (by omega), Nat.add_sub_cancel_left]

theorem opening_three (lead : b.toNat = 0xE0 + k) (high : k < 16) :
    ∃ least most : UInt8, opening b = .begun ⟨[b], k, 2, least, most⟩ ∧
      least.toNat = (if k = 0 then 0xA0 else 0x80) ∧
      most.toNat = (if k = 13 then 0x9F else 0xBF) := by
  refine ⟨if k = 0 then 0xA0 else 0x80, if k = 13 then 0x9F else 0xBF, ?_, ?_, ?_⟩
  · unfold opening
    simp only [lead, show 0xE0 + k = 0xE0 ↔ k = 0 by omega, show 0xE0 + k = 0xED ↔ k = 13 by omega]
    rw [if_neg (by omega), if_neg (by omega), if_neg (by omega), if_pos (by omega),
      Nat.add_sub_cancel_left]
  · split <;> rfl
  · split <;> rfl

theorem opening_four (lead : b.toNat = 0xF0 + k) (high : k < 5) :
    ∃ least most : UInt8, opening b = .begun ⟨[b], k, 3, least, most⟩ ∧
      least.toNat = (if k = 0 then 0x90 else 0x80) ∧
      most.toNat = (if k = 4 then 0x8F else 0xBF) := by
  refine ⟨if k = 0 then 0x90 else 0x80, if k = 4 then 0x8F else 0xBF, ?_, ?_, ?_⟩
  · unfold opening
    simp only [lead, show 0xF0 + k = 0xF0 ↔ k = 0 by omega, show 0xF0 + k = 0xF4 ↔ k = 4 by omega]
    rw [if_neg (by omega), if_neg (by omega), if_neg (by omega), if_neg (by omega),
      if_pos (by omega), Nat.add_sub_cancel_left]
  · split <;> rfl
  · split <;> rfl

end opening

section scalars

variable {b₁ b₂ b₃ b₄ : UInt8} {n : Nat} (s : Bytes)

theorem piecesFrom_two (h₁ : b₁.toNat = 0xC0 + n / 64) (h₂ : b₂.toNat = 0x80 + n % 64)
    (low : 0x80 ≤ n) (high : n < 0x800) :
    piecesFrom none (b₁ :: b₂ :: s) = .scalar (Char.ofNat n) :: piecesFrom none s := by
  have whole : n / 64 * 64 + (b₂.toNat - 0x80) = n := by omega
  rw [piecesFrom_begun (opening_two h₁ (by omega) (by omega)),
    piecesFrom_last (Begun.extend_last rfl (by simp [h₂]) (by simp [h₂]; omega)), whole]

theorem piecesFrom_three (h₁ : b₁.toNat = 0xE0 + n / 4096) (h₂ : b₂.toNat = 0x80 + n / 64 % 64)
    (h₃ : b₃.toNat = 0x80 + n % 64) (low : 0x800 ≤ n) (high : n < 0x10000)
    (scalar : n < 0xD800 ∨ 0xDFFF < n) :
    piecesFrom none (b₁ :: b₂ :: b₃ :: s) = .scalar (Char.ofNat n) :: piecesFrom none s := by
  obtain ⟨least, most, begun, bottom, top⟩ := opening_three h₁ (by omega)
  -- Past `ED` the second byte stays below the surrogates, as `n` is none of them.
  have range : least.toNat ≤ b₂.toNat ∧ b₂.toNat ≤ most.toNat := by
    rw [bottom, top]
    constructor
    · split <;> omega
    · split <;> omega
  have whole : (n / 4096 * 64 + (b₂.toNat - 0x80)) * 64 + (b₃.toNat - 0x80) = n := by omega
  rw [piecesFrom_begun begun, piecesFrom_more (Begun.extend_more (by simp) range.1 range.2),
    piecesFrom_last (Begun.extend_last rfl (by simp [h₃]) (by simp [h₃]; omega)), whole]

theorem piecesFrom_four (h₁ : b₁.toNat = 0xF0 + n / 262144)
    (h₂ : b₂.toNat = 0x80 + n / 4096 % 64) (h₃ : b₃.toNat = 0x80 + n / 64 % 64)
    (h₄ : b₄.toNat = 0x80 + n % 64) (low : 0x10000 ≤ n) (high : n < 0x110000) :
    piecesFrom none (b₁ :: b₂ :: b₃ :: b₄ :: s) = .scalar (Char.ofNat n) :: piecesFrom none s := by
  obtain ⟨least, most, begun, bottom, top⟩ := opening_four h₁ (by omega)
  have range : least.toNat ≤ b₂.toNat ∧ b₂.toNat ≤ most.toNat := by
    rw [bottom, top]
    constructor
    · split <;> omega
    · split <;> omega
  have whole : ((n / 262144 * 64 + (b₂.toNat - 0x80)) * 64 + (b₃.toNat - 0x80)) * 64
      + (b₄.toNat - 0x80) = n := by
    omega
  rw [piecesFrom_begun begun, piecesFrom_more (Begun.extend_more (by simp) range.1 range.2),
    piecesFrom_more (Begun.extend_more (by simp) (by simp [h₃]) (by simp [h₃]; omega)),
    piecesFrom_last (Begun.extend_last rfl (by simp [h₄]) (by simp [h₄]; omega)), whole]

theorem piecesFrom_encodeChar (c : Char) :
    piecesFrom none (encodeChar c ++ s) = .scalar c :: piecesFrom none s := by
  have range := toNat_range c
  conv_rhs => rw [← Char.ofNat_toNat c]
  simp only [encodeChar]
  split
  · next one =>
    have h : (UInt8.ofNat c.toNat).toNat = c.toNat := toNat_ofNat (by omega)
    have lead : opening (UInt8.ofNat c.toNat) = .scalar (Char.ofNat c.toNat) := by
      rw [opening_one (by omega), h]
    exact piecesFrom_scalar lead
  · split
    · exact piecesFrom_two s (toNat_ofNat (by omega)) (toNat_ofNat (by omega)) (by omega) (by omega)
    · split
      · exact piecesFrom_three s (toNat_ofNat (by omega)) (toNat_ofNat (by omega))
          (toNat_ofNat (by omega)) (by omega) (by omega) (by omega)
      · exact piecesFrom_four s (toNat_ofNat (by omega)) (toNat_ofNat (by omega))
          (toNat_ofNat (by omega)) (toNat_ofNat (by omega)) (by omega) (by omega)

end scalars

theorem pieces_encode (cs : List Char) : pieces (encode cs) = cs.map .scalar := by
  induction cs with
  | nil => rfl
  | cons c cs ih =>
    unfold pieces at ih ⊢
    rw [encode_cons, piecesFrom_encodeChar, List.map_cons]
    exact congrArg (List.cons (Piece.scalar c)) ih

theorem decode?_encode (cs : List Char) : decode? (encode cs) = some cs := by
  unfold decode?
  rw [pieces_encode]
  induction cs with
  | nil => rfl
  | cons c cs ih => simp only [List.map_cons, List.mapM_cons, ih]; rfl

theorem encode_injective : Function.Injective encode := by
  intro cs ds same
  have read := decode?_encode cs
  rw [same, decode?_encode] at read
  exact (Option.some.inj read).symm

theorem ofString_injective : Function.Injective ofString :=
  encode_injective.comp fun _ _ => String.toList_inj.mp

section order

variable {c d : Char}

theorem ofNat_cons_lt {m n : Nat} (hm : m < 0x100) (hn : n < 0x100) {s t : Bytes} :
    UInt8.ofNat m :: s < UInt8.ofNat n :: t ↔ m < n ∨ m = n ∧ s < t := by
  rw [List.cons_lt_cons_iff, UInt8.lt_iff_toNat_lt, ← UInt8.toNat_inj, toNat_ofNat hm,
    toNat_ofNat hn]

theorem encodeChar_lt (less : c < d) (s t : Bytes) : encodeChar c ++ s < encodeChar d ++ t := by
  have below : c.toNat < d.toNat := less
  have range := toNat_range d
  simp only [encodeChar]
  -- The lead bytes differ where the lengths do. Otherwise the first digit that differs decides.
  split_ifs <;> simp (disch := omega) only [List.cons_append, ofNat_cons_lt] <;> omega

theorem encodeChar_ne_nil (c : Char) : encodeChar c ≠ [] := by
  simp only [encodeChar]
  split_ifs <;> exact List.cons_ne_nil _ _

theorem length_le_encode (cs : List Char) : cs.length ≤ (encode cs).length := by
  induction cs with
  | nil => exact Nat.le_refl 0
  | cons c cs ih =>
    have first := List.length_pos_iff.mpr (encodeChar_ne_nil c)
    rw [encode_cons, List.length_append, List.length_cons]
    omega

theorem encode_lt {cs ds : List Char} (less : cs < ds) : encode cs < encode ds := by
  induction cs generalizing ds with
  | nil =>
    cases ds with
    | nil => exact absurd less (List.lt_irrefl [])
    | cons d ds =>
      obtain ⟨b, bytes, split⟩ := List.exists_cons_of_ne_nil (encodeChar_ne_nil d)
      rw [encode_cons, split]
      exact List.nil_lt_cons b _
  | cons c cs ih =>
    cases ds with
    | nil => exact absurd less (List.not_lt_nil _)
    | cons d ds =>
      cases List.cons_lt_cons_iff.mp less with
      | inl first => exact encodeChar_lt first (encode cs) (encode ds)
      | inr rest =>
        obtain ⟨rfl, behind⟩ := rest
        exact List.append_left_lt (ih behind)

theorem ofString_lt {s t : String} (less : s < t) : ofString s < ofString t :=
  encode_lt (String.lt_iff.mp less)

end order

end Parley.Utf8
