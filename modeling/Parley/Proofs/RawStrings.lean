import Parley.Proofs.Completeness
import Parley.Proofs.Pieces

/-! Characters in front of any bytes, and strings there: what stands between the quotes of a string
that is read is characters, whatever stands behind it. -/
namespace Parley.Json.Grammar
open Reader Utf8

variable {s t : Bytes}

/-! Characters in front of bytes. -/

theorem encode_ofUInt8 {bs : Bytes} (ascii : ∀ b ∈ bs, b.toNat < 0x80) :
    encode (bs.map Char.ofUInt8) = bs := by
  induction bs with
  | nil => rfl
  | cons b bs ih =>
    obtain ⟨first, rest⟩ := List.forall_mem_cons.mp ascii
    have small : (Char.ofUInt8 b).toNat < 0x80 := by rwa [toNat_ofUInt8]
    rw [List.map_cons, encode_ascii small, ih rest, toNat_ofUInt8, UInt8.ofNat_toNat]

theorem cons_of_ahead {c : Char} (found : ahead s = some c) (ascii : c.toNat < 0x80) :
    ∃ t, s = encode [c] ++ t := by
  cases s with
  | nil => cases found
  | cons b s =>
    have same : Char.ofUInt8 b = c := Option.some.inj found
    have low : ∀ e ∈ [b], e.toNat < 0x80 := by
      rw [← same, toNat_ofUInt8] at ascii
      simpa using ascii
    have byte := encode_ofUInt8 low
    rw [List.map_singleton, same] at byte
    exact ⟨s, by rw [byte]; rfl⟩

theorem skip_char {c : Char} (ascii : c.toNat < 0x80) (t : Bytes) :
    skip (encode [c] ++ t) = .ok ((), t) := by
  rw [encode_ascii ascii]
  rfl

theorem spaces_of_bytes {bs : Bytes} (blank : ∀ b ∈ bs, Reader.isSpace b = true) :
    ∃ before : Spaces, bs = encode before.val := by
  have ascii : ∀ b ∈ bs, b.toNat < 0x80 := by
    intro b member
    by_contra high
    have dark := agree_space.byte b (by omega)
    rw [blank b member] at dark
    cases dark
  refine ⟨⟨bs.map Char.ofUInt8, fun c member => ?_⟩, (encode_ofUInt8 ascii).symm⟩
  obtain ⟨b, within, rfl⟩ := List.mem_map.mp member
  have small := ascii b within
  rw [← agree_space.ascii _ (by rwa [toNat_ofUInt8]), toNat_ofUInt8, UInt8.ofNat_toNat]
  exact blank b within

theorem bytes_of_spaces (before : Spaces) : ∀ b ∈ encode before.val, Reader.isSpace b = true := by
  obtain ⟨before, blank⟩ := before
  have kept := agree_space.takeWhile before
  rw [List.takeWhile_eq_self_iff.mpr blank] at kept
  have all : encode before = (encode before).takeWhile Reader.isSpace := by
    have none := agree_space.dropWhile before
    rw [List.dropWhile_eq_nil_iff.mpr blank] at none
    conv_lhs => rw [← List.takeWhile_append_dropWhile (p := Reader.isSpace) (l := encode before)]
    rw [none]
    exact List.append_nil _
  intro b member
  rw [all] at member
  exact List.mem_takeWhile_imp member

/-- Bytes begin with white space and what is none. -/
theorem token_split (s : Bytes) : ∃ (before : Spaces) (t : Bytes), s = encode before.val ++ t ∧
    (∀ b ∈ t.head?, Reader.isSpace b = false) ∧ token s = .ok (ahead t, t) := by
  obtain ⟨before, same⟩ := spaces_of_bytes fun b (member : b ∈ s.takeWhile Reader.isSpace) =>
    List.mem_takeWhile_imp member
  refine ⟨before, s.dropWhile Reader.isSpace, ?_, fun b first => ?_, rfl⟩
  · rw [← same, List.takeWhile_append_dropWhile]
  · have stops := List.head?_dropWhile_not Reader.isSpace s
    rw [Option.mem_def.mp first] at stops
    exact Bool.not_eq_true _ ▸ by simpa using stops

theorem token_before (before : Spaces) (stop : ∀ b ∈ t.head?, Reader.isSpace b = false) :
    token (encode before.val ++ t) = .ok (ahead t, t) := by
  unfold token
  rw [List.dropWhile_append_of_pos (bytes_of_spaces before)]
  cases t with
  | nil => rfl
  | cons b t =>
    rw [List.dropWhile_cons_of_neg (by simp [stop b rfl])]
    rfl

theorem digit_of_byte {b : UInt8} (digit : Json.isDigit b = true) :
    b.toNat < 0x80 ∧ (Char.ofUInt8 b).isDigit = true := by
  have ascii : b.toNat < 0x80 := by
    by_contra high
    rw [agree_digit.byte b (by omega)] at digit
    cases digit
  refine ⟨ascii, ?_⟩
  rwa [← agree_digit.ascii _ (by rwa [toNat_ofUInt8]), toNat_ofUInt8, UInt8.ofNat_toNat]

theorem digits_before {ds : List Char} (all : ∀ d ∈ ds, d.isDigit = true)
    (stop : ∀ c ∈ ahead t, c.isDigit = false) :
    digits (encode ds ++ t) = .ok (ds.map fun d => d.toNat - '0'.toNat, t) := by
  have bytes : ∀ b ∈ encode ds, Json.isDigit b = true := by
    intro b member
    rw [encode_digits all] at member
    obtain ⟨d, within, rfl⟩ := List.mem_map.mp member
    exact (digitByte (all d within)).isDigit
  have values : (encode ds).map (fun b => b.toNat - 0x30) =
      ds.map fun d => d.toNat - '0'.toNat := by
    rw [encode_digits all, List.map_map]
    exact List.map_congr_left fun d member => (digitByte (all d member)).value
  obtain ⟨none, left⟩ := Prod.mk.inj (Except.ok.inj (digits_none stop))
  unfold digits
  rw [List.takeWhile_append_of_pos bytes, List.dropWhile_append_of_pos bytes, left, List.map_append,
    none, List.append_nil, values]

/-- Bytes begin with digits and what is none. -/
theorem digits_split (s : Bytes) : ∃ (ds : List Char) (t : Bytes),
    (∀ d ∈ ds, d.isDigit = true) ∧ s = encode ds ++ t ∧ ∀ c ∈ ahead t, c.isDigit = false := by
  have bytes : ∀ b ∈ s.takeWhile Json.isDigit, Json.isDigit b = true :=
    fun b member => List.mem_takeWhile_imp member
  refine ⟨(s.takeWhile Json.isDigit).map Char.ofUInt8, s.dropWhile Json.isDigit, ?_, ?_, ?_⟩
  · intro d member
    obtain ⟨b, within, rfl⟩ := List.mem_map.mp member
    exact (digit_of_byte (bytes b within)).2
  · rw [encode_ofUInt8 fun b member => (digit_of_byte (bytes b member)).1,
      List.takeWhile_append_dropWhile]
  · intro c found
    obtain ⟨b, first, rfl⟩ := Option.map_eq_some_iff.mp found
    have stops := List.head?_dropWhile_not Json.isDigit s
    rw [first] at stops
    by_cases ascii : b.toNat < 0x80
    · rw [← agree_digit.ascii _ (by rwa [toNat_ofUInt8]), toNat_ofUInt8, UInt8.ofNat_toNat]
      simpa using stops
    · exact agree_digit.char _ (by rw [toNat_ofUInt8]; omega)

/-- A literal is read where it stands, and nowhere else. -/
theorem literal_bytes {ls : List Char} (ascii : ∀ c ∈ ls, c.toNat < 0x80) :
    literal ls s = .ok ((), t) ↔ s = encode ls ++ t := by
  induction ls generalizing s with
  | nil =>
    constructor
    · intro read
      cases read
      rfl
    · rintro rfl
      rfl
  | cons c ls ih =>
    obtain ⟨first, behind⟩ := List.forall_mem_cons.mp ascii
    have taken : next s = .ok (ahead s, s.tail) := rfl
    rw [literal, bind_of _ taken, encode_ascii first]
    constructor
    · intro read
      cases s with
      | nil => cases read
      | cons b s =>
        change (if Char.ofUInt8 b = c then literal ls else refuse .expectedLiteral) s = _ at read
        split at read
        · next same =>
          rw [← same, toNat_ofUInt8, UInt8.ofNat_toNat, (ih behind).mp read]
          rfl
        · cases read
    · rintro rfl
      have same : Char.ofUInt8 (.ofNat c.toNat) = c := by
        rw [← Char.toNat_inj, toNat_ofUInt8, toNat_ofNat (by omega)]
      change (if Char.ofUInt8 (.ofNat c.toNat) = c then literal ls else refuse .expectedLiteral)
        (encode ls ++ t) = _
      rw [if_pos same]
      exact (ih behind).mpr rfl

/-! Strings. -/

section strings

variable {done bytes : Bytes}

theorem content_taken {w : Within} (read : content w done s = .ok (bytes, t)) :
    ∃ p, s = p ++ t ∧ ∀ t', content w done (p ++ t') = .ok (bytes, t') := by
  have step : ∀ {w w' : Within} {done done' : Bytes} {b : UInt8} {s : Bytes},
      (∀ t', content w done (b :: t') = content w' done' t') →
      (∃ p, s = p ++ t ∧ ∀ t', content w' done' (p ++ t') = .ok (bytes, t')) →
      ∃ p, b :: s = p ++ t ∧ ∀ t', content w done (p ++ t') = .ok (bytes, t') := by
    rintro w w' done done' b s same ⟨p, rfl, reads⟩
    exact ⟨b :: p, rfl, fun t' => (same (p ++ t')).trans (reads t')⟩
  induction s generalizing w done with
  | nil =>
    rw [content] at read
    cases read
  | cons b s ih =>
    cases w with
    | plain =>
      rw [content] at read
      split at read
      · next quote =>
        cases read
        exact ⟨[b], rfl, fun t' => by rw [List.singleton_append, content, if_pos quote]⟩
      split at read
      · next quote slash =>
        exact step (fun t' => by rw [content, if_neg quote, if_pos slash]) (ih read)
      split at read
      · cases read
      · next quote slash control =>
        exact step (fun t' => by rw [content, if_neg quote, if_neg slash, if_neg control]) (ih read)
    | escape =>
      rw [content] at read
      split at read
      · next letter => exact step (fun t' => by rw [content, if_pos letter]) (ih read)
      · next letter =>
        cases escape : shortEscape? b with
        | none =>
          rw [escape] at read
          cases read
        | some c =>
          rw [escape] at read
          exact step (fun t' => by rw [content, if_neg letter, escape]) (ih read)
    | unit lead taken =>
      rw [content] at read
      split at read
      · next short => exact step (fun t' => by rw [content, if_pos short]) (ih read)
      · next short =>
        cases unit : unitStep lead (b :: taken) with
        | char c =>
          rw [unit] at read
          exact step (fun t' => by rw [content, if_neg short, unit]) (ih read)
        | lead u =>
          rw [unit] at read
          exact step (fun t' => by rw [content, if_neg short, unit]) (ih read)
        | fault f =>
          rw [unit] at read
          cases read
    | backslash u =>
      rw [content] at read
      split at read
      · next slash => exact step (fun t' => by rw [content, if_pos slash]) (ih read)
      · cases read
    | letterU u =>
      rw [content] at read
      split at read
      · next letter => exact step (fun t' => by rw [content, if_pos letter]) (ih read)
      · cases read

/-- `raw` makes `made`. If `made` is characters, behind what is left of one that has begun, then so
is `raw`; within an escape none has begun. -/
def Raw (escape : Bool) (made raw : Bytes) : Prop :=
  ∀ rest cs, (∀ b ∈ rest, isContinuation b = true) → made = rest ++ encode cs →
    (escape = true → rest = []) ∧ ∃ ds, raw = rest ++ encode ds

section raw

variable {escape : Bool} {made raw : Bytes} {b : UInt8}

theorem raw_nil : Raw false [] [] := by
  intro rest cs _ same
  obtain ⟨rfl, -⟩ := List.append_eq_nil_iff.mp same.symm
  exact ⟨nofun, [], rfl⟩

theorem Raw.byte (holds : Raw false made raw) : Raw false (b :: made) (b :: raw) := by
  intro rest cs continued same
  refine ⟨nofun, ?_⟩
  cases rest with
  | cons x rest =>
    obtain ⟨rfl, behind⟩ := List.cons.inj same
    obtain ⟨-, ds, rfl⟩ := holds rest cs (fun y member => continued y (.tail _ member)) behind
    exact ⟨ds, rfl⟩
  | nil =>
    cases cs with
    | nil => cases same
    | cons c cs =>
      obtain ⟨x, bs, split, -, more⟩ := encodeChar_lead c
      rw [List.nil_append, encode_cons, split, List.cons_append] at same
      obtain ⟨rfl, behind⟩ := List.cons.inj same
      obtain ⟨-, ds, rfl⟩ := holds bs cs more behind
      exact ⟨c :: ds, by rw [List.nil_append, encode_cons, split, List.cons_append]⟩

theorem cons_encode (ascii : b.toNat < 0x80) (cs : List Char) :
    b :: encode cs = encode (Char.ofUInt8 b :: cs) := by
  rw [encode_ascii (by rwa [toNat_ofUInt8]), toNat_ofUInt8, UInt8.ofNat_toNat]

theorem Raw.silent (holds : Raw true made raw) (ascii : b.toNat < 0x80) :
    Raw escape made (b :: raw) := by
  intro rest cs continued same
  obtain ⟨none, ds, rfl⟩ := holds rest cs continued same
  obtain rfl := none rfl
  exact ⟨fun _ => rfl, Char.ofUInt8 b :: ds, cons_encode ascii ds⟩

theorem Raw.char (holds : Raw false made raw) (ascii : b.toNat < 0x80) (c : Char) :
    Raw true (encodeChar c ++ made) (b :: raw) := by
  intro rest cs continued same
  obtain ⟨x, bs, split, lead, -⟩ := encodeChar_lead c
  cases rest with
  | cons y rest =>
    rw [split, List.cons_append] at same
    obtain ⟨rfl, -⟩ := List.cons.inj same
    rw [continued x List.mem_cons_self] at lead
    cases lead
  | nil =>
    obtain ⟨cs, rfl, rfl⟩ := encode_eq_append same.symm
    obtain ⟨-, ds, rfl⟩ := holds [] cs (List.forall_mem_nil _) rfl
    exact ⟨fun _ => rfl, Char.ofUInt8 b :: ds, cons_encode ascii ds⟩

end raw

theorem hex_of_unitValue {bs : Bytes} {u : Nat} (value : unitValue? bs = some u) :
    ∀ b ∈ bs, b.toNat < 0x80 := by
  have all : ∀ (bs : Bytes) (n : Option Nat),
      bs.foldl (fun n b => do pure ((← n) * 16 + (← hexValue? b))) n = some u →
        n.isSome ∧ ∀ b ∈ bs, b.toNat < 0x80 := by
    intro bs
    induction bs with
    | nil => exact fun n last => ⟨by rw [show n = some u from last]; rfl, List.forall_mem_nil _⟩
    | cons b bs ih =>
      intro n value
      obtain ⟨step, rest⟩ := ih _ value
      obtain ⟨m, step⟩ := Option.isSome_iff_exists.mp step
      obtain ⟨k, before, step⟩ := Option.bind_eq_some_iff.mp step
      obtain ⟨d, digit, -⟩ := Option.bind_eq_some_iff.mp step
      exact ⟨by rw [before]; rfl, List.forall_mem_cons.mpr ⟨hexValue?_ascii digit, rest⟩⟩
  intro b member
  exact (all _ _ value).2 b (List.mem_reverse.mpr member)

theorem shortEscape?_ascii {b c : UInt8} (escape : shortEscape? b = some c) :
    b.toNat < 0x80 ∧ ∃ d, encodeChar d = [c] := by
  obtain ⟨d, known⟩ := shortEscape?_known escape
  have ascii := shortEscapes_ascii _ known
  refine ⟨by rwa [toNat_ofUInt8] at ascii, Char.ofUInt8 c, ?_⟩
  have small : c.toNat < 0x80 := by
    unfold shortEscape? at escape
    split at escape <;> cases escape <;> decide
  rw [encodeChar_ascii (by rwa [toNat_ofUInt8]), toNat_ofUInt8, UInt8.ofNat_toNat]

/-- The bytes of a unit so far can be digits. -/
def Hexadecimal : Within → Prop
  | .unit _ taken => ∀ b ∈ taken, b.toNat < 0x80
  | _ => True

def escaping : Within → Bool
  | .plain => false
  | _ => true

theorem content_raw {w : Within} (read : content w done s = .ok (bytes, t)) :
    Hexadecimal w ∧ ∃ made raw, bytes = done.reverse ++ made ∧ s = raw ++ 0x22 :: t ∧
      Raw (escaping w) made raw := by
  induction s generalizing w done with
  | nil =>
    rw [content] at read
    cases read
  | cons b s ih =>
    cases w with
    | plain =>
      refine ⟨trivial, ?_⟩
      rw [content] at read
      split at read
      · next quote =>
        cases read
        exact ⟨[], [], (List.append_nil _).symm, by rw [quote]; rfl, raw_nil⟩
      split at read
      · next slash =>
        obtain ⟨-, made, raw, rfl, rfl, holds⟩ := ih read
        exact ⟨made, b :: raw, rfl, rfl, holds.silent (by rw [slash]; decide)⟩
      split at read
      · cases read
      · obtain ⟨-, made, raw, rfl, rfl, holds⟩ := ih read
        exact ⟨b :: made, b :: raw, by simp, rfl, holds.byte⟩
    | escape =>
      refine ⟨trivial, ?_⟩
      rw [content] at read
      split at read
      · next letter =>
        obtain ⟨-, made, raw, rfl, rfl, holds⟩ := ih read
        exact ⟨made, b :: raw, rfl, rfl, holds.silent (by rw [letter]; decide)⟩
      · cases escape : shortEscape? b with
        | none =>
          rw [escape] at read
          cases read
        | some c =>
          rw [escape] at read
          obtain ⟨ascii, d, single⟩ := shortEscape?_ascii escape
          obtain ⟨-, made, raw, rfl, rfl, holds⟩ := ih read
          exact ⟨encodeChar d ++ made, b :: raw, by simp [single], rfl, holds.char ascii d⟩
    | unit lead taken =>
      rw [content] at read
      split at read
      · obtain ⟨hex, made, raw, rfl, rfl, holds⟩ := ih read
        obtain ⟨ascii, others⟩ := List.forall_mem_cons.mp hex
        exact ⟨others, made, b :: raw, rfl, rfl, holds.silent ascii⟩
      · cases value : unitValue? (b :: taken) with
        | none =>
          have fault : unitStep lead (b :: taken) = .fault .badEscape := by
            simp only [unitStep, value]
          rw [fault] at read
          cases read
        | some v =>
          obtain ⟨ascii, others⟩ := List.forall_mem_cons.mp (hex_of_unitValue value)
          refine ⟨others, ?_⟩
          cases unit : unitStep lead (b :: taken) with
          | char c =>
            rw [unit] at read
            obtain ⟨-, made, raw, rfl, rfl, holds⟩ := ih read
            exact ⟨encodeChar c ++ made, b :: raw, by simp, rfl, holds.char ascii c⟩
          | lead u =>
            rw [unit] at read
            obtain ⟨-, made, raw, rfl, rfl, holds⟩ := ih read
            exact ⟨made, b :: raw, rfl, rfl, holds.silent ascii⟩
          | fault f =>
            rw [unit] at read
            cases read
    | backslash u =>
      refine ⟨trivial, ?_⟩
      rw [content] at read
      split at read
      · next slash =>
        obtain ⟨-, made, raw, rfl, rfl, holds⟩ := ih read
        exact ⟨made, b :: raw, rfl, rfl, holds.silent (by rw [slash]; decide)⟩
      · cases read
    | letterU u =>
      refine ⟨trivial, ?_⟩
      rw [content] at read
      split at read
      · next letter =>
        obtain ⟨-, made, raw, rfl, rfl, holds⟩ := ih read
        exact ⟨made, b :: raw, rfl, rfl, holds.silent (by rw [letter]; decide)⟩
      · cases read

theorem encode_quote (cs : List Char) (t : Bytes) :
    encode (cs ++ ['"']) ++ t = encode cs ++ 0x22 :: t := by
  rw [encode_append, List.append_assoc]
  rfl

theorem quoted_bytes (q : Quoted) (t : Bytes) :
    encode q.chars ++ t = 0x22 :: (encode (q.inside ++ ['"']) ++ t) := by
  rw [Quoted.chars, encode_ascii (by decide)]
  rfl

theorem string_quoted (q : Quoted) (t : Bytes) :
    string (encode (q.inside ++ ['"']) ++ t) = .ok (q.value, t) := by
  have whole : content .plain [] (encode (q.inside ++ '"' :: [])) =
      .ok ([].reverse ++ encode q.meant, encode []) := content_spelled q.spelled
  obtain ⟨p, split, reads⟩ := content_taken whole
  rw [show encode [] = [] from rfl, List.append_nil] at split
  unfold string
  rw [split, reads t, List.reverse_nil, List.nil_append]
  simp only [bind, Except.bind, decode?_encode]
  rfl

/-- A string is read where one stands, whatever follows it. -/
theorem string_bytes {name : String} :
    string s = .ok (name, t) ↔
      ∃ q : Quoted, 0x22 :: s = encode q.chars ++ t ∧ name = q.value := by
  constructor
  · intro read
    have whole := read
    unfold string at whole
    cases inside : content .plain [] s with
    | error f =>
      rw [inside] at whole
      cases whole
    | ok r =>
      obtain ⟨bytes, u⟩ := r
      rw [inside] at whole
      simp only [bind, Except.bind] at whole
      cases decoded : decode? bytes with
      | none =>
        rw [decoded] at whole
        cases whole
      | some cs =>
        rw [decoded] at whole
        cases whole
        obtain ⟨-, made, raw, rfl, rfl, holds⟩ := content_raw inside
        obtain ⟨-, ds, rfl⟩ := holds [] cs (List.forall_mem_nil _) (encode_of_decode? decoded).symm
        rw [List.nil_append] at read inside ⊢
        -- The text of the string alone is a text of characters.
        obtain ⟨p, split, reads⟩ := content_taken inside
        obtain rfl : p = encode (ds ++ ['"']) :=
          List.append_cancel_right (split.symm.trans (encode_quote ds t).symm)
        have alone := reads []
        rw [List.append_nil] at alone
        have read : string (encode (ds ++ ['"'])) = .ok (String.ofList cs, []) := by
          unfold string
          rw [alone]
          simp only [bind, Except.bind, decoded]
        obtain ⟨q, rest, same, value, none⟩ := string_iff.mp read
        obtain rfl : rest = [] := encode_injective none.symm
        rw [List.append_nil] at same
        refine ⟨q, ?_, value⟩
        rw [← same, encode_ascii (by decide), List.cons_append, encode_quote]
        rfl
  · rintro ⟨q, split, rfl⟩
    rw [quoted_bytes] at split
    rw [(List.cons.inj split).2]
    exact string_quoted q t

end strings

end Parley.Json.Grammar
