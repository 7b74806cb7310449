import Parley.Json.Skip
import Parley.Proofs.Locality

/-! The texts that are passed over unread: the grammar of JSON over bytes, which leaves open what
the bytes of a string encode, which surrogates stand alone, how large a number is and how deep
brackets go. -/
namespace Parley.Json.Grammar
open Reader Utf8

variable {s t : Bytes}

/-- What stands between the quotes of a string that nobody reads. -/
inductive Passes : Bytes → Prop
  | nil : Passes []
  | plain {b : UInt8} {raw : Bytes} (quote : b ≠ 0x22) (slash : b ≠ 0x5C) (control : ¬ b < 0x20)
    (rest : Passes raw) : Passes (b :: raw)
  | short {e c : Char} {raw : Bytes} (escape : (e, c) ∈ shortEscapes) (rest : Passes raw) :
    Passes (encode ['\\', e] ++ raw)
  | unit {ds : List Char} {u : Nat} {raw : Bytes} (hex : Hex ds u) (rest : Passes raw) :
    Passes (encode ('\\' :: 'u' :: ds) ++ raw)

/-- A text of a value, in white space. -/
structure Piece where
  before : Spaces
  text : Bytes
  after : Spaces

def Piece.bytes (p : Piece) : Bytes :=
  encode p.before.val ++ (p.text ++ encode p.after.val)

/-- A name, its quotes included, and a value. -/
structure Entry where
  before : Spaces
  name : Bytes
  after : Spaces
  piece : Piece

def Entry.bytes (e : Entry) : Bytes :=
  encode e.before.val ++ (e.name ++ (encode e.after.val ++ 0x3A :: e.piece.bytes))

/-- Texts with commas between them, and before the first too unless they come first. -/
def joined (first : Bool) (texts : List Bytes) : Bytes :=
  if first then List.intercalate [0x2C] texts else texts.flatMap fun text => 0x2C :: text

/-- The text of a string, quotes included, that nobody reads. -/
def PassesQuoted (text : Bytes) : Prop :=
  ∃ raw, text = 0x22 :: (raw ++ [0x22]) ∧ Passes raw

inductive Skims : Bytes → Prop
  | null : Skims (encode ['n', 'u', 'l', 'l'])
  | true : Skims (encode ['t', 'r', 'u', 'e'])
  | false : Skims (encode ['f', 'a', 'l', 's', 'e'])
  | number (n : Numeral) : Skims (encode n.chars)
  | str {text : Bytes} (passes : PassesQuoted text) : Skims text
  | arr (inside : Spaces) {pieces : List Piece} (all : ∀ p ∈ pieces, Skims p.text) :
    Skims (0x5B :: (encode inside.val ++ (joined .true (pieces.map Piece.bytes) ++ [0x5D])))
  | obj (inside : Spaces) {entries : List Entry} (names : ∀ e ∈ entries, PassesQuoted e.name)
    (all : ∀ e ∈ entries, Skims e.piece.text) :
    Skims (0x7B :: (encode inside.val ++ (joined .true (entries.map Entry.bytes) ++ [0x7D])))

/-! Strings. -/

section strings

variable {raw : Bytes}

theorem Passes.plains {bytes : Bytes} (plain : ∀ b ∈ bytes, b ≠ 0x22 ∧ b ≠ 0x5C ∧ ¬ b < 0x20)
    (passes : Passes raw) : Passes (bytes ++ raw) := by
  induction bytes with
  | nil => exact passes
  | cons b bytes ih =>
    obtain ⟨⟨quote, slash, control⟩, rest⟩ := List.forall_mem_cons.mp plain
    exact .plain quote slash control (ih rest)

/-- A text that needs no escapes means itself. -/
theorem spelled_plain {cs : List Char}
    (plain : ∀ c ∈ cs, c ≠ '"' ∧ c ≠ '\\' ∧ 0x20 ≤ c.toNat) : Spelled cs cs := by
  induction cs with
  | nil => exact .nil
  | cons c cs ih =>
    obtain ⟨⟨quote, slash, control⟩, rest⟩ := List.forall_mem_cons.mp plain
    exact .plain quote slash control (ih rest)

/-- What can be read can be passed over. -/
theorem Spelled.passes {text meant : List Char} (spelled : Spelled text meant) :
    Passes (encode text) := by
  induction spelled with
  | nil => exact .nil
  | plain quote slash control _ ih =>
    rw [encode_cons]
    exact ih.plains (plain_encodeChar quote slash (Nat.not_lt.mpr control))
  | @short e c text meant escape _ ih =>
    rw [show '\\' :: e :: text = ['\\', e] ++ text from rfl, encode_append]
    exact .short escape ih
  | @unit ds text meant u hex scalar _ ih =>
    rw [show '\\' :: 'u' :: (ds ++ text) = ('\\' :: 'u' :: ds) ++ text from rfl, encode_append]
    exact .unit hex ih
  | @pair ds es text meant u v hex hex' lead trail _ ih =>
    rw [show '\\' :: 'u' :: (ds ++ '\\' :: 'u' :: (es ++ text)) =
      ('\\' :: 'u' :: ds) ++ (('\\' :: 'u' :: es) ++ text) from rfl, encode_append, encode_append]
    exact .unit hex (.unit hex' ih)

theorem Quoted.passes (q : Quoted) : PassesQuoted (encode q.chars) :=
  ⟨encode q.inside, by
    have bytes := quoted_bytes q []
    rwa [encode_quote, List.append_nil] at bytes, q.spelled.passes⟩

theorem hex_of_bytes {a b c d : UInt8} {i j k l : Nat} (ha : hexValue? a = some i)
    (hb : hexValue? b = some j) (hc : hexValue? c = some k) (hd : hexValue? d = some l) :
    ∃ ds u, Hex ds u ∧ encode ds = [a, b, c, d] := by
  refine ⟨[a, b, c, d].map Char.ofUInt8, _, .intro (i := i) (j := j) (k := k) (l := l) ?_ ?_ ?_ ?_,
    encode_ofUInt8 ?_⟩
  · rw [hexDigit?_eq (toNat_ofUInt8 a).symm, ha]
  · rw [hexDigit?_eq (toNat_ofUInt8 b).symm, hb]
  · rw [hexDigit?_eq (toNat_ofUInt8 c).symm, hc]
  · rw [hexDigit?_eq (toNat_ofUInt8 d).symm, hd]
  · simp only [List.forall_mem_cons]
    exact ⟨hexValue?_ascii ha, hexValue?_ascii hb, hexValue?_ascii hc, hexValue?_ascii hd,
      List.forall_mem_nil _⟩

/-- Four bytes are owed, and all of them are digits. -/
theorem passContent_unit (a b c d : UInt8) (t : Bytes) :
    passContent (.unit true 3) (a :: b :: c :: d :: t) =
      if (hexValue? a).isSome ∧ (hexValue? b).isSome ∧ (hexValue? c).isSome ∧
          (hexValue? d).isSome then passContent .plain t
      else .error ⟨.badEscape, t.length⟩ := by
  simp only [passContent, Bool.true_and, Bool.and_eq_true, and_assoc]

theorem hex_of_passContent (read : passContent (.unit true 3) s = .ok ((), t)) :
    ∃ ds u rest, Hex ds u ∧ s = encode ds ++ rest ∧ passContent .plain rest = .ok ((), t) := by
  match s with
  | [] | [_] | [_, _] | [_, _, _] => cases read
  | a :: b :: c :: d :: rest =>
    rw [passContent_unit] at read
    split at read
    · next digits =>
      simp only [Option.isSome_iff_exists] at digits
      obtain ⟨⟨i, ha⟩, ⟨j, hb⟩, ⟨k, hc⟩, ⟨l, hd⟩⟩ := digits
      obtain ⟨ds, u, hex, bytes⟩ := hex_of_bytes ha hb hc hd
      exact ⟨ds, u, rest, hex, by rw [bytes]; rfl, read⟩
    · cases read

theorem passes_of_passContent (read : passContent .plain s = .ok ((), t)) :
    ∃ raw, s = raw ++ 0x22 :: t ∧ Passes raw := by
  induction size : s.length using Nat.strongRecOn generalizing s with
  | _ n ih =>
    subst size
    cases s with
    | nil => cases read
    | cons b s =>
      rw [passContent] at read
      split at read
      · next quote =>
        cases read
        exact ⟨[], by rw [quote]; rfl, .nil⟩
      split at read
      · next slash =>
        subst slash
        cases s with
        | nil => cases read
        | cons e s =>
          rw [passContent] at read
          split at read
          · next letter =>
            subst letter
            obtain ⟨ds, u, rest, hex, rfl, behind⟩ := hex_of_passContent read
            have shorter : rest.length < (0x5C :: 0x75 :: (encode ds ++ rest) : Bytes).length := by
              rw [List.length_cons, List.length_cons, List.length_append]
              omega
            obtain ⟨raw, rfl, passes⟩ := ih rest.length shorter behind rfl
            refine ⟨_, ?_, .unit hex passes⟩
            rw [encode_ascii (by decide), encode_ascii (by decide), List.append_assoc]
            rfl
          split at read
          · next escape =>
            obtain ⟨c, escape⟩ := Option.isSome_iff_exists.mp escape
            obtain ⟨d, known⟩ := shortEscape?_known escape
            have shorter : s.length < (0x5C :: e :: s : Bytes).length :=
              Nat.lt_add_of_pos_right (Nat.succ_pos 1)
            obtain ⟨raw, rfl, passes⟩ := ih s.length shorter read rfl
            refine ⟨_, ?_, .short known passes⟩
            rw [encode_ascii (by decide), encode_ascii (shortEscapes_ascii _ known), toNat_ofUInt8,
              UInt8.ofNat_toNat]
            rfl
          · cases read
      split at read
      · cases read
      · next quote slash control =>
        obtain ⟨raw, rfl, passes⟩ := ih s.length (by simp) read rfl
        exact ⟨b :: raw, rfl, .plain quote slash control passes⟩

theorem shortEscapes_known : ∀ p ∈ shortEscapes,
    UInt8.ofNat p.1.toNat ≠ 0x75 ∧ (shortEscape? (.ofNat p.1.toNat)).isSome := by
  decide

theorem Passes.passContent (passes : Passes raw) (t : Bytes) :
    passContent .plain (raw ++ 0x22 :: t) = .ok ((), t) := by
  induction passes with
  | nil => rfl
  | plain quote slash control _ ih =>
    rw [List.cons_append, Json.passContent, if_neg quote, if_neg slash, if_neg control, ih]
  | @short e c raw escape _ ih =>
    obtain ⟨letter, known⟩ := shortEscapes_known _ escape
    rw [encode_ascii (by decide), encode_ascii (shortEscapes_ascii _ escape)]
    change Json.passContent .escape (.ofNat e.toNat :: (raw ++ 0x22 :: t)) = _
    rw [Json.passContent, if_neg letter, if_pos known, ih]
  | @unit ds u raw hex _ ih =>
    obtain ⟨a, b, c, d, split, value⟩ := unitValue?_of_hex hex []
    obtain ⟨i, j, k, l, ha, hb, hc, hd, -⟩ := unitValue?_iff.mp value
    rw [List.append_nil, show encode [] = [] from rfl] at split
    rw [encode_ascii (by decide), encode_ascii (by decide), split]
    change Json.passContent (.unit true 3) (a :: b :: c :: d :: (raw ++ 0x22 :: t)) = _
    rw [passContent_unit,
      if_pos ⟨by rw [ha]; rfl, by rw [hb]; rfl, by rw [hc]; rfl, by rw [hd]; rfl⟩,
      ih]

theorem skipString_iff : skipString s = .ok ((), t) ↔
    ∃ text, PassesQuoted text ∧ 0x22 :: s = text ++ t := by
  constructor
  · intro read
    obtain ⟨raw, rfl, passes⟩ := passes_of_passContent read
    exact ⟨_, ⟨raw, rfl, passes⟩, by simp⟩
  · rintro ⟨_, ⟨raw, rfl, passes⟩, split⟩
    rw [List.cons_append, List.append_assoc] at split
    rw [(List.cons.inj split).2]
    exact passes.passContent t

end strings

/-! Numbers. -/

section numbers

/-- Nothing there goes on with a number. -/
def NoNumber (t : Bytes) : Prop :=
  ∀ c ∈ ahead t, c.isDigit = false ∧ c ≠ '.' ∧ c ≠ 'e' ∧ c ≠ 'E'

theorem Stops.noNumber (stops : Stops t) : NoNumber t := by
  obtain ⟨cs, head, follows⟩ := stops.char
  intro c found
  rw [ahead, ← head] at found
  cases cs with
  | nil => cases found
  | cons d cs =>
    obtain ⟨e, some, same⟩ := ahead_encode d cs
    obtain rfl := Option.some.inj (some.symm.trans found)
    rcases same with rfl | ⟨high, -⟩
    · exact follows e rfl
    · refine ⟨agree_digit.char e high, ?_, ?_, ?_⟩ <;> (rintro rfl; revert high; decide)

theorem skipDigits_before {ds : List Char} (all : ∀ d ∈ ds, d.isDigit = true)
    (stop : ∀ c ∈ ahead t, c.isDigit = false) : skipDigits (encode ds ++ t) = .ok ((), t) := by
  unfold skipDigits
  rw [bind_of _ (digits_before all stop)]
  rfl

theorem next_eq (s : Bytes) : next s = .ok (ahead s, s.tail) :=
  rfl

theorem tail_char {c : Char} (ascii : c.toNat < 0x80) (t : Bytes) :
    (encode [c] ++ t).tail = t := by
  rw [encode_ascii ascii]
  rfl

theorem digit_ascii {c : Char} (digit : c.isDigit = true) : c.toNat < 0x80 := by
  by_contra high
  rw [agree_digit.char c (by omega)] at digit
  cases digit

theorem ahead_char {c : Char} (ascii : c.toNat < 0x80) (cs : List Char) (t : Bytes) :
    ahead (encode (c :: cs) ++ t) = some c := by
  rw [encode_ascii ascii, List.cons_append, ahead, List.head?_cons, Option.map_some,
    Option.some_inj, ← Char.toNat_inj, toNat_ofUInt8, toNat_ofNat (by omega)]

/-- An exponent behind its sign. -/
def skipDigits₁ : Reader Unit := do
  match ← next with
  | some c => if c.isDigit then skipDigits else refuse .badNumber
  | none => refuse .badNumber

theorem skipDigits₁_sound (read : skipDigits₁ s = .ok ((), t)) :
    ∃ ds : Digits, s = encode ds.chars ++ t := by
  unfold skipDigits₁ at read
  rw [bind_of _ (next_eq s)] at read
  cases found : ahead s with
  | none =>
    rw [found] at read
    cases read
  | some c =>
    rw [found] at read
    dsimp only at read
    split at read
    · next digit =>
      obtain ⟨u, rfl⟩ := cons_of_ahead found (digit_ascii digit)
      rw [tail_char (digit_ascii digit)] at read
      obtain ⟨ds, v, all, rfl, stop⟩ := digits_split u
      rw [skipDigits_before all stop] at read
      cases read
      refine ⟨⟨c :: ds, List.cons_ne_nil _ _, List.forall_mem_cons.mpr ⟨digit, all⟩⟩, ?_⟩
      rw [← List.append_assoc, ← encode_append]
      rfl
    · cases read

theorem skipDigits₁_before (ds : Digits) (stop : ∀ c ∈ ahead t, c.isDigit = false) :
    skipDigits₁ (encode ds.chars ++ t) = .ok ((), t) := by
  obtain ⟨chars, nonempty, all⟩ := ds
  obtain ⟨d, ds, rfl⟩ := List.exists_cons_of_ne_nil nonempty
  obtain ⟨digit, all⟩ := List.forall_mem_cons.mp all
  have ascii := digit_ascii digit
  unfold skipDigits₁
  rw [bind_of _ (next_eq _), ahead_char ascii, encode_ascii ascii]
  dsimp only
  rw [if_pos digit]
  exact skipDigits_before all stop

/-- A sign or none, and what no sign begins. -/
theorem split_sign_bytes (s : Bytes) : ∃ sign t, s = encode sign ++ t ∧
    (sign = [] ∧ ahead t ≠ some '+' ∧ ahead t ≠ some '-' ∨ sign = ['+'] ∨ sign = ['-']) := by
  by_cases plus : ahead s = some '+'
  · obtain ⟨t, same⟩ := cons_of_ahead plus (by decide)
    exact ⟨['+'], t, same, .inr (.inl rfl)⟩
  by_cases minus : ahead s = some '-'
  · obtain ⟨t, same⟩ := cons_of_ahead minus (by decide)
    exact ⟨['-'], t, same, .inr (.inr rfl)⟩
  exact ⟨[], s, rfl, .inl ⟨rfl, plus, minus⟩⟩

theorem skipExponent_sign {mark : Char} (ascii : mark.toNat < 0x80) {sign : List Char}
    (signs : sign = [] ∧ ahead t ≠ some '+' ∧ ahead t ≠ some '-' ∨ sign = ['+'] ∨ sign = ['-']) :
    skipExponent (encode [mark] ++ (encode sign ++ t)) = skipDigits₁ t := by
  unfold skipExponent
  rw [bind_of _ (skip_char ascii _), bind_of _ (peek_eq _)]
  rcases signs with ⟨rfl, plus, minus⟩ | rfl | rfl
  · rw [show encode [] ++ t = t from rfl]
    generalize ahead t = first at plus minus
    dsimp only
    split
    · contradiction
    · contradiction
    · rfl
  · rw [ahead_char (by decide)]
    change (skip >>= _) (encode ['+'] ++ t) = _
    rw [bind_of _ (skip_char (by decide) _)]
    rfl
  · rw [ahead_char (by decide)]
    change (skip >>= _) (encode ['-'] ++ t) = _
    rw [bind_of _ (skip_char (by decide) _)]
    rfl

theorem Exponent.bytes (e : Exponent) (t : Bytes) :
    encode e.chars ++ t = encode [e.mark] ++ (encode e.sign ++ (encode e.digits.chars ++ t)) := by
  rw [show e.chars = [e.mark] ++ (e.sign ++ e.digits.chars) from rfl, encode_append, encode_append,
    List.append_assoc, List.append_assoc]

theorem skipExponent_sound {mark : Char} (marked : mark = 'e' ∨ mark = 'E')
    (found : ahead s = some mark) (read : skipExponent s = .ok ((), t)) :
    ∃ e : Exponent, s = encode e.chars ++ t := by
  have ascii : mark.toNat < 0x80 := by rcases marked with rfl | rfl <;> decide
  obtain ⟨u, rfl⟩ := cons_of_ahead found ascii
  obtain ⟨sign, v, rfl, signs⟩ := split_sign_bytes u
  rw [skipExponent_sign ascii signs] at read
  obtain ⟨ds, rfl⟩ := skipDigits₁_sound read
  let e : Exponent := ⟨mark, sign, ds, marked, signs.imp_left (·.1)⟩
  exact ⟨e, (e.bytes t).symm⟩

theorem skipExponent_before (e : Exponent) (stop : ∀ c ∈ ahead t, c.isDigit = false) :
    skipExponent (encode e.chars ++ t) = .ok ((), t) := by
  have signs : e.sign = [] ∧ ahead (encode e.digits.chars ++ t) ≠ some '+' ∧
      ahead (encode e.digits.chars ++ t) ≠ some '-' ∨ e.sign = ['+'] ∨ e.sign = ['-'] := by
    obtain ⟨d, rest, split, digit, ascii⟩ := e.digits.cons
    refine e.signed.imp_left fun none => ⟨none, ?_⟩
    rw [split, ahead_char ascii]
    constructor <;> (rintro ⟨⟩; cases digit)
  rw [e.bytes, skipExponent_sign e.ascii signs]
  exact skipDigits₁_before e.digits stop

/-- An exponent, if there is one. -/
def skipOptionalExponent : Reader Unit := do
  match ← peek with
  | some 'e' | some 'E' => skipExponent
  | _ => pure ()

theorem skipOptionalExponent_sound (read : skipOptionalExponent s = .ok ((), t)) :
    ∃ e : Option Exponent, s = encode (exponentChars e) ++ t := by
  unfold skipOptionalExponent at read
  rw [bind_of _ (peek_eq s)] at read
  generalize found : ahead s = first at read
  split at read
  · obtain ⟨e, same⟩ := skipExponent_sound (.inl rfl) found read
    exact ⟨some e, same⟩
  · obtain ⟨e, same⟩ := skipExponent_sound (.inr rfl) found read
    exact ⟨some e, same⟩
  · cases read
    exact ⟨none, rfl⟩

theorem skipOptionalExponent_before (e : Option Exponent) (stop : NoNumber t) :
    skipOptionalExponent (encode (exponentChars e) ++ t) = .ok ((), t) := by
  unfold skipOptionalExponent
  rw [bind_of _ (peek_eq _)]
  cases e with
  | none =>
    rw [show encode (exponentChars none) ++ t = t from rfl]
    generalize found : ahead t = first
    split
    · exact absurd rfl (stop 'e' found).2.2.1
    · exact absurd rfl (stop 'E' found).2.2.2
    · rfl
  | some e =>
    have read := skipExponent_before e fun c found => (stop c found).1
    rw [exponentChars]
    have mark : ahead (encode e.chars ++ t) = some e.mark := by
      rw [Exponent.chars, ahead_char e.ascii]
    rw [mark]
    rcases e.marked with same | same
    · rw [same]
      exact read
    · rw [same]
      exact read

theorem NoNumber.behind (stop : NoNumber t) (e : Option Exponent) :
    ∀ c ∈ ahead (encode (exponentChars e) ++ t), c.isDigit = false ∧ c ≠ '.' := by
  intro c found
  cases e with
  | none => exact ⟨(stop c found).1, (stop c found).2.1⟩
  | some e =>
    rw [exponentChars, Exponent.chars, ahead_char e.ascii] at found
    obtain rfl := Option.some.inj found
    rcases e.marked with mark | mark <;> (rw [mark]; decide)

theorem skipFraction_sound (found : ahead s = some '.') (read : skipFraction s = .ok ((), t)) :
    ∃ (ds : Digits) (e : Option Exponent),
      s = encode (fractionChars (some ds)) ++ (encode (exponentChars e) ++ t) := by
  obtain ⟨u, rfl⟩ := cons_of_ahead found (by decide)
  obtain ⟨ds, v, all, rfl, stop⟩ := digits_split u
  unfold skipFraction at read
  rw [bind_of _ (skip_char (by decide) _), bind_of _ (digits_before all stop)] at read
  cases ds with
  | nil => cases read
  | cons d ds =>
    obtain ⟨e, rfl⟩ := skipOptionalExponent_sound read
    refine ⟨⟨d :: ds, List.cons_ne_nil _ _, all⟩, e, ?_⟩
    rw [← List.append_assoc, ← encode_append]
    rfl

theorem skipFraction_before (ds : Digits) (e : Option Exponent) (stop : NoNumber t) :
    skipFraction (encode (fractionChars (some ds)) ++ (encode (exponentChars e) ++ t)) =
      .ok ((), t) := by
  have halt : ∀ c ∈ ahead (encode (exponentChars e) ++ t), c.isDigit = false :=
    fun c found => (stop.behind e c found).1
  obtain ⟨chars, nonempty, all⟩ := ds
  obtain ⟨d, ds, rfl⟩ := List.exists_cons_of_ne_nil nonempty
  have bytes : encode (fractionChars (some ⟨d :: ds, nonempty, all⟩)) =
      encode ['.'] ++ encode (d :: ds) := by
    rw [← encode_append]
    rfl
  unfold skipFraction
  rw [bytes, List.append_assoc, bind_of _ (skip_char (by decide) _),
    bind_of _ (digits_before all halt)]
  exact skipOptionalExponent_before e stop

/-- What follows the digits in front of the point. -/
def skipNumberTail : Reader Unit := do
  match ← peek with
  | some '.' => skipFraction
  | some 'e' | some 'E' => skipExponent
  | _ => pure ()

theorem skipNumberTail_eq (other : ahead t ≠ some '.') :
    skipNumberTail t = skipOptionalExponent t := by
  unfold skipNumberTail skipOptionalExponent
  rw [bind_of _ (peek_eq t), bind_of _ (peek_eq t)]
  generalize ahead t = first at other
  split
  · contradiction
  · rfl
  · rfl
  · next lower upper =>
    split
    · exact (lower rfl).elim
    · exact (upper rfl).elim
    · rfl

theorem skipNumberTail_sound (read : skipNumberTail s = .ok ((), t)) :
    ∃ (fraction : Option Digits) (e : Option Exponent),
      s = encode (fractionChars fraction) ++ (encode (exponentChars e) ++ t) := by
  by_cases point : ahead s = some '.'
  · unfold skipNumberTail at read
    rw [bind_of _ (peek_eq s), point] at read
    obtain ⟨ds, e, same⟩ := skipFraction_sound point read
    exact ⟨some ds, e, same⟩
  · rw [skipNumberTail_eq point] at read
    obtain ⟨e, same⟩ := skipOptionalExponent_sound read
    exact ⟨none, e, same⟩

theorem skipNumberTail_before (fraction : Option Digits) (e : Option Exponent) (stop : NoNumber t) :
    skipNumberTail (encode (fractionChars fraction) ++ (encode (exponentChars e) ++ t)) =
      .ok ((), t) := by
  cases fraction with
  | some ds =>
    have point : ahead (encode (fractionChars (some ds)) ++ (encode (exponentChars e) ++ t)) =
        some '.' := ahead_char (by decide) _ _
    unfold skipNumberTail
    rw [bind_of _ (peek_eq _), point]
    exact skipFraction_before ds e stop
  | none =>
    rw [show encode (fractionChars none) = [] from rfl, List.nil_append,
      skipNumberTail_eq fun found => (stop.behind e '.' found).2 rfl]
    exact skipOptionalExponent_before e stop

theorem skipNumber_digits (ds : Digits) (stop : ∀ c ∈ ahead t, c.isDigit = false) {u : Bytes} :
    skipNumber (encode ds.chars ++ t) = .ok ((), u) ↔
      (∀ rest, ds.chars = '0' :: rest → rest = []) ∧ skipNumberTail t = .ok ((), u) := by
  obtain ⟨chars, nonempty, all⟩ := ds
  obtain ⟨d, ds, rfl⟩ := List.exists_cons_of_ne_nil nonempty
  obtain ⟨digit, others⟩ := List.forall_mem_cons.mp all
  have ascii := digit_ascii digit
  unfold skipNumber
  rw [bind_of _ (next_eq _), ahead_char ascii, encode_ascii ascii, List.cons_append, List.tail_cons]
  generalize found : some d = first
  split
  · -- A zero stands alone.
    obtain rfl := Option.some.inj found
    rw [bind_of _ (peek_eq _)]
    cases ds with
    | nil =>
      rw [show encode [] ++ t = t from rfl]
      refine Iff.trans ?_ (and_iff_right fun _ alone => (List.cons.inj alone).2.symm).symm
      cases found : ahead t with
      | none => exact Iff.rfl
      | some c =>
        dsimp only
        rw [if_neg (by simp [stop c found])]
        exact Iff.rfl
    | cons e ds =>
      obtain ⟨more, -⟩ := List.forall_mem_cons.mp others
      rw [ahead_char (digit_ascii more)]
      dsimp only
      rw [if_pos more]
      constructor
      · intro read
        cases read
      · rintro ⟨single, -⟩
        cases single _ rfl
  · next other =>
    obtain rfl := Option.some.inj found
    rw [if_pos digit, bind_of _ (skipDigits_before others stop)]
    refine (and_iff_right fun rest lead => ?_).symm
    obtain ⟨rfl, -⟩ := List.cons.inj lead
    exact (other rfl).elim
  · cases found

theorem skipNumber_sound (negative : Bool) (read : skipNumber s = .ok ((), t)) :
    ∃ n : Numeral, n.negative = negative ∧ s = encode n.unsigned ++ t := by
  obtain ⟨chars, u, all, rfl, stop⟩ := digits_split s
  have nonempty : chars ≠ [] := by
    rintro rfl
    unfold skipNumber at read
    rw [bind_of _ (next_eq _), show encode [] ++ u = u from rfl] at read
    generalize found : ahead u = first at read
    split at read
    · cases stop '0' found
    · rw [stop _ found] at read
      cases read
    · cases read
  obtain ⟨lead, read⟩ := (skipNumber_digits ⟨chars, nonempty, all⟩ stop).mp read
  obtain ⟨fraction, e, rfl⟩ := skipNumberTail_sound read
  refine ⟨⟨negative, ⟨chars, nonempty, all⟩, fraction, e, lead⟩, rfl, ?_⟩
  rw [Numeral.unsigned, encode_append, encode_append, List.append_assoc, List.append_assoc]

theorem skipNumber_before (n : Numeral) (stop : NoNumber t) :
    skipNumber (encode n.unsigned ++ t) = .ok ((), t) := by
  have halt : ∀ c ∈ ahead (encode (fractionChars n.fraction) ++
      (encode (exponentChars n.exponent) ++ t)), c.isDigit = false := by
    intro c found
    cases fraction : n.fraction with
    | none =>
      rw [fraction] at found
      exact (stop.behind n.exponent c found).1
    | some ds =>
      rw [fraction, fractionChars, ahead_char (by decide)] at found
      obtain rfl := Option.some.inj found
      rfl
  rw [Numeral.unsigned, encode_append, encode_append, List.append_assoc, List.append_assoc,
    skipNumber_digits n.whole halt]
  exact ⟨n.lead, skipNumberTail_before n.fraction n.exponent stop⟩

end numbers

end Parley.Json.Grammar
