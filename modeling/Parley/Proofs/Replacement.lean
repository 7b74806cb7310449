import Parley.Proofs.Pieces

/-! What the lossy decoding makes of bytes that are no text. Characters are read as they are
spelled. Where none is spelled, as many bytes as begin one, or else a single byte, make one
replacement character. -/
namespace Parley.Utf8

variable {s t bad bad' : Bytes} {cs ds : List Char}

/-- The bytes begin the encoding of some character. -/
def Begins (s : Bytes) : Prop :=
  ∃ c t, encodeChar c = s ++ t

theorem Begins.prefix (begins : Begins (s ++ t)) : Begins s := by
  obtain ⟨c, u, spelled⟩ := begins
  exact ⟨c, t ++ u, by rw [spelled, List.append_assoc]⟩

/-- Where no character is spelled, these are the bytes in front of `s` that belong together. -/
structure Subpart (bad s : Bytes) : Prop where
  nonempty : bad ≠ []
  none : ∀ c t, bad ++ s ≠ encodeChar c ++ t
  begins : Begins bad ∨ bad.length = 1
  maximal : ∀ b t, s = b :: t → ¬Begins (bad ++ [b])

/-- The text that the bytes are read as. -/
inductive Replaced : Bytes → List Char → Prop
  | nil : Replaced [] []
  | char (c : Char) {s : Bytes} {cs : List Char} (rest : Replaced s cs) :
    Replaced (encodeChar c ++ s) (c :: cs)
  | broken {bad s : Bytes} {cs : List Char} (subpart : Subpart bad s) (rest : Replaced s cs) :
    Replaced (bad ++ s) ('\uFFFD' :: cs)

/-! There is one such text. -/

theorem Subpart.no_longer {u : Bytes} (short : Subpart bad (u ++ t)) (long : Subpart (bad ++ u) t) :
    u = [] := by
  cases u with
  | nil => rfl
  | cons b u =>
    refine (short.maximal b (u ++ t) rfl ?_).elim
    rcases long.begins with begins | single
    · rw [← List.singleton_append, ← List.append_assoc] at begins
      exact begins.prefix
    · have some := List.length_pos_iff.mpr short.nonempty
      rw [List.length_append, List.length_cons] at single
      omega

theorem Subpart.unique (first : Subpart bad s) (second : Subpart bad' t)
    (same : bad ++ s = bad' ++ t) : bad = bad' ∧ s = t := by
  rcases List.append_eq_append_iff.mp same with ⟨u, rfl, rfl⟩ | ⟨u, rfl, rfl⟩
  · obtain rfl := first.no_longer second
    exact ⟨(List.append_nil bad).symm, rfl⟩
  · obtain rfl := second.no_longer first
    exact ⟨List.append_nil bad', rfl⟩

theorem encodeChar_unique {c d : Char} (same : encodeChar c ++ s = encodeChar d ++ t) :
    c = d ∧ s = t := by
  have read := piecesFrom_encodeChar s c
  rw [same, piecesFrom_encodeChar] at read
  obtain rfl := Piece.scalar.inj (List.cons.inj read).1
  exact ⟨rfl, List.append_cancel_left same⟩

theorem Replaced.cases (replaced : Replaced s cs) : (s = [] ∧ cs = []) ∨
    (∃ c t ds, s = encodeChar c ++ t ∧ cs = c :: ds ∧ Replaced t ds) ∨
    ∃ bad t ds, s = bad ++ t ∧ Subpart bad t ∧ cs = '\uFFFD' :: ds ∧ Replaced t ds := by
  cases replaced with
  | nil => exact .inl ⟨rfl, rfl⟩
  | char c rest => exact .inr (.inl ⟨c, _, _, rfl, rfl, rest⟩)
  | broken subpart rest => exact .inr (.inr ⟨_, _, _, rfl, subpart, rfl, rest⟩)

theorem Replaced.unique (first : Replaced s cs) (second : Replaced s ds) : cs = ds := by
  induction first generalizing ds with
  | nil =>
    rcases second.cases with ⟨-, rfl⟩ | ⟨c, t, ds, same, -⟩ | ⟨bad, t, ds, same, subpart, -⟩
    · rfl
    · exact (encodeChar_ne_nil c (List.append_eq_nil_iff.mp same.symm).1).elim
    · exact (subpart.nonempty (List.append_eq_nil_iff.mp same.symm).1).elim
  | @char c s cs rest ih =>
    rcases second.cases with ⟨none, -⟩ | ⟨d, t, ds, same, rfl, other⟩ |
      ⟨bad, t, ds, same, subpart, -⟩
    · exact (encodeChar_ne_nil c (List.append_eq_nil_iff.mp none).1).elim
    · obtain ⟨rfl, rfl⟩ := encodeChar_unique same
      rw [ih other]
    · exact (subpart.none c s same.symm).elim
  | @broken bad s cs subpart rest ih =>
    rcases second.cases with ⟨none, -⟩ | ⟨c, t, ds, same, -⟩ |
      ⟨bad', t, ds, same, subpart', rfl, other⟩
    · exact (subpart.nonempty (List.append_eq_nil_iff.mp none).1).elim
    · exact (subpart.none c t same).elim
    · obtain ⟨rfl, rfl⟩ := subpart.unique subpart' same
      rw [ih other]

/-! It is what is decoded. -/

theorem piecesFrom_broken {b : UInt8} (lead : opening b = .broken) :
    piecesFrom none (b :: s) = .broken [b] :: piecesFrom none s := by
  rw [piecesFrom]
  simp only [lead]

/-- The sequence cannot go on with the bytes that follow. -/
def Begun.Stuck (g : Begun) (s : Bytes) : Prop :=
  ∀ b t, s = b :: t → g.extend b = none

theorem piecesFrom_stuck {g : Begun} (stuck : g.Stuck s) :
    piecesFrom (some g) s = .broken g.held.reverse :: piecesFrom none s := by
  cases s with
  | nil => rw [piecesFrom, piecesFrom]
  | cons b s =>
    rw [piecesFrom, piecesFrom]
    simp only [stuck b s rfl]

/-- The sequence is begun by its bytes, which some character goes on from. -/
structure Begun.Reached (g : Begun) : Prop where
  sound : g.Sound
  range : g.low.toNat ≤ g.high.toNat
  held : g.held ≠ []
  read : ∀ s, piecesFrom none (g.held.reverse ++ s) = piecesFrom (some g) s

theorem opening_reached {b : UInt8} {g : Begun} (begun : opening b = .begun g) : g.Reached := by
  obtain ⟨sound, held⟩ := opening_begun begun
  refine ⟨sound, ?_, by rw [held]; exact List.cons_ne_nil _ _, fun s => ?_⟩
  · unfold opening at begun
    dsimp only at begun
    split_ifs at begun
    all_goals
      cases begun
      dsimp only
      first | decide | omega
  · rw [held]
    exact piecesFrom_begun begun

theorem extend_reached {b : UInt8} {g g' : Begun} (reached : g.Reached)
    (more : g.extend b = some (.begun g')) : g'.Reached := by
  obtain ⟨sound, held⟩ := extend_begun reached.sound more
  refine ⟨sound, ?_, by rw [held]; exact List.cons_ne_nil _ _, fun s => ?_⟩
  · unfold Begun.extend at more
    dsimp only at more
    split_ifs at more with within last
    · cases more
    · cases more
      dsimp only
      decide
  · rw [held, List.reverse_cons, List.append_assoc, List.singleton_append, reached.read,
      piecesFrom_more more]

/-- The least byte that the sequence can go on with leaves a character. -/
theorem Begun.Reached.begins {g : Begun} (reached : g.Reached) : Begins g.held.reverse := by
  have power : 0 < 64 ^ (g.owed - 1) := Nat.pow_pos (by decide)
  refine ⟨_, _, reached.sound.spelled_next (Nat.le_refl _) reached.range
    (Nat.mul_div_cancel (g.value * 64 + (g.low.toNat - 0x80)) power)⟩

theorem Begun.Reached.subpart {g : Begun} (reached : g.Reached) (stuck : g.Stuck s) :
    Subpart g.held.reverse s where
  nonempty := by simpa using reached.held
  none c t spelled := by
    have read := reached.read s
    rw [spelled, piecesFrom_encodeChar, piecesFrom_stuck stuck] at read
    cases read
  begins := .inl reached.begins
  maximal b t same := by
    rintro ⟨c, u, spelled⟩
    have stays : g.Stuck (b :: u) := by
      rintro x v ahead
      obtain ⟨rfl, -⟩ := List.cons.inj ahead
      exact stuck b t same
    have read := reached.read (b :: u)
    rw [← List.singleton_append, ← List.append_assoc, ← spelled, ← List.append_nil (encodeChar c),
      piecesFrom_encodeChar, List.singleton_append, piecesFrom_stuck stays] at read
    cases read

theorem subpart_single {b : UInt8} (lead : opening b = .broken) : Subpart [b] s where
  nonempty := List.cons_ne_nil _ _
  none c t spelled := by
    have read := piecesFrom_broken (s := s) lead
    rw [← List.singleton_append, spelled, piecesFrom_encodeChar] at read
    cases read
  begins := .inr rfl
  maximal x t _ := by
    rintro ⟨c, u, spelled⟩
    have read := piecesFrom_broken (s := x :: u) lead
    have whole : b :: x :: u = encodeChar c ++ [] := by rw [spelled]; simp
    rw [whole, piecesFrom_encodeChar] at read
    cases read

def Piece.shown (p : Piece) : Char :=
  p.char?.getD '\uFFFD'

theorem replaced_pieces (s : Bytes) : Replaced s ((piecesFrom none s).map Piece.shown) ∧
    ∀ g : Begun, g.Reached →
      Replaced (g.held.reverse ++ s) ((piecesFrom (some g) s).map Piece.shown) := by
  induction s with
  | nil =>
    refine ⟨.nil, fun g reached => ?_⟩
    have stuck : g.Stuck [] := nofun
    rw [piecesFrom_stuck stuck]
    exact .broken (reached.subpart stuck) .nil
  | cons b s ih =>
    obtain ⟨fresh, within⟩ := ih
    have first : Replaced (b :: s) ((piecesFrom none (b :: s)).map Piece.shown) := by
      cases lead : opening b with
      | scalar c =>
        rw [piecesFrom_scalar lead, ← List.singleton_append, ← opening_scalar lead]
        exact .char c fresh
      | begun g =>
        have whole := within g (opening_reached lead)
        rwa [(opening_begun lead).2, ← piecesFrom_begun lead] at whole
      | broken =>
        rw [piecesFrom_broken lead]
        exact .broken (subpart_single lead) fresh
    refine ⟨first, fun g reached => ?_⟩
    cases step : g.extend b with
    | none =>
      have stuck : g.Stuck (b :: s) := by
        rintro x t same
        obtain ⟨rfl, rfl⟩ := List.cons.inj same
        exact step
      rw [piecesFrom_stuck stuck]
      exact .broken (reached.subpart stuck) first
    | some next =>
      cases next with
      | scalar c =>
        rw [piecesFrom_last step, ← List.singleton_append, ← List.append_assoc,
          ← extend_scalar reached.sound step]
        exact .char c fresh
      | begun g' =>
        have whole := within g' (extend_reached reached step)
        rwa [(extend_begun reached.sound step).2, ← piecesFrom_more step, List.reverse_cons,
          List.append_assoc, List.singleton_append] at whole
      | broken => exact (extend_broken step).elim

theorem replaced_iff : Replaced s cs ↔ lossy s = cs := by
  have read : Replaced s (lossy s) := (replaced_pieces s).1
  constructor
  · intro replaced
    exact read.unique replaced
  · rintro rfl
    exact read

/-- A sequence that is broken off makes one character, however many bytes it has. -/
example : lossy [0x61, 0xF0, 0x9F, 0x98, 0x62] = ['a', '\uFFFD', 'b'] := by
  decide

end Parley.Utf8
