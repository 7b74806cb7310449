import Parley.Proofs.Characters

/-! The string reader takes exactly the spellings of the grammar. -/
namespace Parley.Json.Grammar
open Reader Utf8

variable {done bytes t : Bytes} {cs : List Char}

section hex

theorem hexDigit?_toNat (c : Char) :
    hexDigit? c = if 0x30 ≤ c.toNat ∧ c.toNat ≤ 0x39 then some (c.toNat - 0x30)
      else if 0x41 ≤ c.toNat ∧ c.toNat ≤ 0x46 then some (c.toNat - 0x37)
      else if 0x61 ≤ c.toNat ∧ c.toNat ≤ 0x66 then some (c.toNat - 0x57)
      else none := by
  have digit : c.isDigit = true ↔ 0x30 ≤ c.toNat ∧ c.toNat ≤ 0x39 := Char.isDigit_iff_toNat
  have upper : 'A' ≤ c ∧ c ≤ 'F' ↔ 0x41 ≤ c.toNat ∧ c.toNat ≤ 0x46 := Iff.rfl
  have lower : 'a' ≤ c ∧ c ≤ 'f' ↔ 0x61 ≤ c.toNat ∧ c.toNat ≤ 0x66 := Iff.rfl
  unfold hexDigit?
  simp only [digit, upper, lower, show '0'.toNat = 0x30 from rfl, show 'A'.toNat = 0x41 from rfl,
    show 'a'.toNat = 0x61 from rfl]
  split_ifs <;> simp <;> omega

theorem hexDigit?_eq {c : Char} {b : UInt8} (same : b.toNat = c.toNat) :
    hexDigit? c = hexValue? b := by
  rw [hexDigit?_toNat, ← same]
  rfl

theorem hexDigit?_byte {c : Char} {n : Nat} (value : hexDigit? c = some n) :
    c.toNat < 0x80 ∧ hexValue? (.ofNat c.toNat) = some n := by
  have ascii : c.toNat < 0x80 := by
    by_contra high
    rw [hexDigit?_toNat, if_neg (by omega), if_neg (by omega), if_neg (by omega)] at value
    cases value
  exact ⟨ascii, by rw [← hexDigit?_eq (toNat_ofNat (by omega)), value]⟩

theorem hexValue?_ascii {b : UInt8} {n : Nat} (value : hexValue? b = some n) : b.toNat < 0x80 := by
  unfold hexValue? at value
  dsimp only at value
  by_contra high
  rw [if_neg (by omega), if_neg (by omega), if_neg (by omega)] at value
  cases value

/-- An ASCII byte in front is a character. -/
theorem split_byte {b : UInt8} {s : Bytes} (split : encode cs = b :: s) (ascii : b.toNat < 0x80) :
    ∃ c rest, cs = c :: rest ∧ s = encode rest ∧ b.toNat = c.toNat := by
  have found : ahead (encode cs) = some (Char.ofUInt8 b) := by rw [split]; rfl
  have small : (Char.ofUInt8 b).toNat < 0x80 := by rwa [toNat_ofUInt8]
  obtain ⟨rest, rfl⟩ := ahead_some found small
  rw [encode_ascii small] at split
  exact ⟨_, rest, rfl, (List.cons.inj split).2.symm, (toNat_ofUInt8 b).symm⟩

theorem unitValue?_iff {a b c d : UInt8} {u : Nat} :
    unitValue? [d, c, b, a] = some u ↔ ∃ i j k l, hexValue? a = some i ∧ hexValue? b = some j ∧
      hexValue? c = some k ∧ hexValue? d = some l ∧ ((i * 16 + j) * 16 + k) * 16 + l = u := by
  simp [unitValue?, Option.bind_eq_some_iff, and_assoc]

theorem unitValue?_of_hex {ds : List Char} {u : Nat} (hex : Hex ds u) (cs : List Char) :
    ∃ a b c d, encode (ds ++ cs) = a :: b :: c :: d :: encode cs ∧
      unitValue? [d, c, b, a] = some u := by
  obtain ⟨first, second, third, fourth⟩ := hex
  obtain ⟨asciiA, a⟩ := hexDigit?_byte first
  obtain ⟨asciiB, b⟩ := hexDigit?_byte second
  obtain ⟨asciiC, c⟩ := hexDigit?_byte third
  obtain ⟨asciiD, d⟩ := hexDigit?_byte fourth
  refine ⟨_, _, _, _, ?_, unitValue?_iff.mpr ⟨_, _, _, _, a, b, c, d, rfl⟩⟩
  simp only [List.cons_append, List.nil_append]
  rw [encode_ascii asciiA, encode_ascii asciiB, encode_ascii asciiC, encode_ascii asciiD]

theorem hex_of_unitValue? {a b c d : UInt8} {s : Bytes} {u : Nat}
    (split : encode cs = a :: b :: c :: d :: s) (value : unitValue? [d, c, b, a] = some u) :
    ∃ ds rest, cs = ds ++ rest ∧ s = encode rest ∧ Hex ds u := by
  obtain ⟨i, j, k, l, hi, hj, hk, hl, rfl⟩ := unitValue?_iff.mp value
  obtain ⟨p, cs, rfl, split, hp⟩ := split_byte split (hexValue?_ascii hi)
  obtain ⟨q, cs, rfl, split, hq⟩ := split_byte split.symm (hexValue?_ascii hj)
  obtain ⟨r, cs, rfl, split, hr⟩ := split_byte split.symm (hexValue?_ascii hk)
  obtain ⟨v, cs, rfl, split, hv⟩ := split_byte split.symm (hexValue?_ascii hl)
  refine ⟨[p, q, r, v], cs, rfl, split, .intro ?_ ?_ ?_ ?_⟩
  · rw [hexDigit?_eq hp, hi]
  · rw [hexDigit?_eq hq, hj]
  · rw [hexDigit?_eq hr, hk]
  · rw [hexDigit?_eq hv, hl]

end hex

/-! Reading what is spelled. -/

/-- What the number of a unit leads to. -/
def unitOf : Option Nat → Nat → UnitStep
  | none, u =>
    if isTrailing u then .fault .loneSurrogate
    else if isLeading u then .lead u
    else .char (Char.ofNat u)
  | some high, u =>
    if isTrailing u then .char (Char.ofNat ((high - 0xD800) * 0x400 + (u - 0xDC00) + 0x10000))
    else .fault .loneSurrogate

section unitOf

variable {u v : Nat}

theorem not_trailing (lead : isLeading u = true) : isTrailing u = false := by
  simp only [isLeading, isTrailing, Bool.and_eq_true, Bool.and_eq_false_iff, decide_eq_true_eq,
    decide_eq_false_iff_not] at lead ⊢
  omega

theorem unitOf_scalar (scalar : isLeading u = false ∧ isTrailing u = false) :
    unitOf none u = .char (Char.ofNat u) := by
  simp [unitOf, scalar]

theorem unitOf_leading (lead : isLeading u = true) : unitOf none u = .lead u := by
  simp [unitOf, lead, not_trailing lead]

theorem unitOf_pair (trail : isTrailing v = true) :
    unitOf (some u) v = .char (Char.ofNat ((u - 0xD800) * 0x400 + (v - 0xDC00) + 0x10000)) := by
  simp [unitOf, trail]

theorem unitOf_unpaired (alone : isTrailing v = false) :
    unitOf (some u) v = .fault .loneSurrogate := by
  simp [unitOf, alone]

theorem unitOf_trailing (trail : isTrailing u = true) :
    unitOf none u = .fault .loneSurrogate := by
  simp [unitOf, trail]

end unitOf

/-- The content of a string behind a unit. -/
def afterUnit (step : UnitStep) (done s : Bytes) : Except Failure (Bytes × Bytes) :=
  match step with
  | .char c => content .plain ((encodeChar c).reverse ++ done) s
  | .lead u => content (.backslash u) done s
  | .fault f => .error ⟨f, s.length⟩

theorem content_unit {ds : List Char} {u : Nat} (hex : Hex ds u) (lead : Option Nat) (done : Bytes)
    (cs : List Char) :
    content (.unit lead []) done (encode (ds ++ cs)) =
      afterUnit (unitOf lead u) done (encode cs) := by
  obtain ⟨a, b, c, d, split, value⟩ := unitValue?_of_hex hex cs
  have step : unitStep lead [d, c, b, a] = unitOf lead u := by
    unfold unitStep
    rw [value]
    cases lead <;> rfl
  rw [split, ← step]
  rfl

theorem content_short {e c : Char} (escape : (e, c) ∈ shortEscapes) :
    content .plain done (encode ('\\' :: e :: cs)) =
      content .plain ((encodeChar c).reverse ++ done) (encode cs) := by
  simp only [shortEscapes, List.mem_cons, Prod.mk.injEq, List.not_mem_nil, or_false] at escape
  rcases escape with ⟨rfl, rfl⟩ | ⟨rfl, rfl⟩ | ⟨rfl, rfl⟩ | ⟨rfl, rfl⟩ | ⟨rfl, rfl⟩ | ⟨rfl, rfl⟩ |
    ⟨rfl, rfl⟩ | ⟨rfl, rfl⟩ <;> rfl

theorem reverse_encode (c : Char) (meant : List Char) :
    ((encodeChar c).reverse ++ done).reverse ++ encode meant =
      done.reverse ++ encode (c :: meant) := by
  rw [List.reverse_append, List.reverse_reverse, List.append_assoc, ← encode_cons]

theorem content_spelled {text meant : List Char} (spelled : Spelled text meant) :
    content .plain done (encode (text ++ '"' :: cs)) =
      .ok (done.reverse ++ encode meant, encode cs) := by
  induction spelled generalizing done with
  | nil =>
    rw [show encode [] = [] from rfl, List.append_nil]
    rfl
  | @plain c text meant quote slash control _ ih =>
    rw [List.cons_append, encode_cons,
      content_plain (plain_encodeChar quote slash (Nat.not_lt.mpr control)), ih, reverse_encode]
  | short escape _ ih =>
    rw [List.cons_append, List.cons_append, content_short escape, ih, reverse_encode]
  | @unit ds text meant u hex scalar _ ih =>
    have step := content_unit hex none done (text ++ '"' :: cs)
    rw [unitOf_scalar scalar] at step
    rw [List.cons_append, List.cons_append, List.append_assoc, ← reverse_encode, ← ih]
    exact step
  | @pair ds es text meant u v hex hex' lead trail _ ih =>
    have step := content_unit hex none done ('\\' :: 'u' :: (es ++ (text ++ '"' :: cs)))
    have step' := content_unit hex' (some u) done (text ++ '"' :: cs)
    rw [unitOf_leading lead] at step
    rw [unitOf_pair trail] at step'
    simp only [List.cons_append, List.append_assoc]
    rw [← reverse_encode, ← ih]
    exact step.trans step'

/-! What is read is spelled. -/

theorem hex_of_content {lead : Option Nat}
    (read : content (.unit lead []) done (encode cs) = .ok (bytes, t)) :
    ∃ ds u rest, Hex ds u ∧ cs = ds ++ rest := by
  generalize split : encode cs = s at read
  match s with
  | [] | [_] | [_, _] | [_, _, _] => cases read
  | a :: b :: c :: d :: s =>
    cases value : unitValue? [d, c, b, a] with
    | none =>
      have fault : unitStep lead [d, c, b, a] = .fault .badEscape := by simp only [unitStep, value]
      change afterUnit (unitStep lead [d, c, b, a]) done s = _ at read
      rw [fault] at read
      cases read
    | some u =>
      obtain ⟨ds, rest, same, -, hex⟩ := hex_of_unitValue? split value
      exact ⟨ds, u, rest, hex, same⟩

theorem split_char {b : UInt8} {s : Bytes} {p : Char} (split : encode cs = b :: s)
    (char : Char.ofUInt8 b = p) (ascii : p.toNat < 0x80) :
    ∃ rest, cs = p :: rest ∧ s = encode rest := by
  have small : b.toNat < 0x80 := by rwa [← toNat_ofUInt8, char]
  obtain ⟨c, rest, rfl, rfl, same⟩ := split_byte split small
  rw [← toNat_ofUInt8, char, Char.toNat_inj] at same
  exact ⟨rest, by rw [same], rfl⟩

theorem shortEscapes_ascii : ∀ p ∈ shortEscapes, p.1.toNat < 0x80 := by
  decide

theorem shortEscape?_known {b c : UInt8} (escape : shortEscape? b = some c) :
    ∃ d, (Char.ofUInt8 b, d) ∈ shortEscapes := by
  unfold shortEscape? at escape
  split at escape
  case h_9 => cases escape
  all_goals
    next char =>
    rw [char]
    simp [shortEscapes]

/-- Only an escape stands behind a backslash. -/
theorem escape_of_content (read : content .escape done (encode cs) = .ok (bytes, t)) :
    (∃ rest, cs = 'u' :: rest) ∨ ∃ e c rest, (e, c) ∈ shortEscapes ∧ cs = e :: rest := by
  generalize split : encode cs = s at read
  cases s with
  | nil => cases read
  | cons b s =>
    rw [content] at read
    split at read
    · next letter =>
      obtain ⟨rest, same, -⟩ := split_char (p := 'u') split (by rw [letter]; rfl) (by decide)
      exact .inl ⟨rest, same⟩
    · cases escape : shortEscape? b with
      | none =>
        rw [escape] at read
        cases read
      | some c =>
        obtain ⟨d, known⟩ := shortEscape?_known escape
        obtain ⟨rest, same, -⟩ := split_char split rfl (shortEscapes_ascii _ known)
        exact .inr ⟨_, d, rest, known, same⟩

/-- Only a second unit stands behind a leading surrogate. -/
theorem unit_of_content {u : Nat}
    (read : content (.backslash u) done (encode cs) = .ok (bytes, t)) :
    ∃ rest, cs = '\\' :: 'u' :: rest ∧
      content (.unit (some u) []) done (encode rest) = .ok (bytes, t) := by
  generalize split : encode cs = s at read
  cases s with
  | nil => cases read
  | cons b s =>
    rw [content] at read
    split at read
    · next slash =>
      obtain ⟨rest, rfl, rfl⟩ := split_char (p := '\\') split (by rw [slash]; rfl) (by decide)
      generalize split' : encode rest = s at read
      cases s with
      | nil => cases read
      | cons b s =>
        rw [content] at read
        split at read
        · next letter =>
          obtain ⟨rest, rfl, rfl⟩ :=
            split_char (p := 'u') split' (by rw [letter]; rfl) (by decide)
          exact ⟨rest, rfl, read⟩
        · cases read
    · cases read

theorem printable_of_content {c : Char}
    (read : content .plain done (encode (c :: cs)) = .ok (bytes, t)) : 0x20 ≤ c.toNat := by
  by_contra control
  have byte : (UInt8.ofNat c.toNat).toNat = c.toNat := toNat_ofNat (by omega)
  rw [encode_ascii (by omega), content, if_neg, if_neg, if_pos] at read
  · cases read
  · rw [UInt8.lt_iff_toNat_lt, byte]
    exact Nat.not_le.mp control
  · rw [← UInt8.toNat_inj, byte]
    simp; omega
  · rw [← UInt8.toNat_inj, byte]
    simp; omega

/-- An escape and what follows it, if what follows is spelled. -/
theorem spelled_of_backslash (read : content .plain done (encode ('\\' :: cs)) = .ok (bytes, t))
    (follows : ∀ rest, rest.length < ('\\' :: cs).length → ∀ done,
      content .plain done (encode rest) = .ok (bytes, t) →
        ∃ text meant behind, Spelled text meant ∧ rest = text ++ '"' :: behind) :
    ∃ text meant rest, Spelled text meant ∧ '\\' :: cs = text ++ '"' :: rest := by
  have escaped : content .escape done (encode cs) = .ok (bytes, t) := read
  rcases escape_of_content escaped with ⟨behind, rfl⟩ | ⟨e, c, behind, known, rfl⟩
  · have opened : content (.unit none []) done (encode behind) = .ok (bytes, t) := escaped
    obtain ⟨ds, u, rest, hex, rfl⟩ := hex_of_content opened
    rw [content_unit hex none done rest] at opened
    cases leading : isLeading u with
    | true =>
      rw [unitOf_leading leading] at opened
      obtain ⟨rest, rfl, second⟩ := unit_of_content opened
      obtain ⟨es, v, rest, hex', rfl⟩ := hex_of_content second
      rw [content_unit hex' (some u) done rest] at second
      cases trailing : isTrailing v with
      | true =>
        rw [unitOf_pair trailing] at second
        have shorter : rest.length <
            ('\\' :: 'u' :: (ds ++ '\\' :: 'u' :: (es ++ rest))).length := by
          simp only [List.length_cons, List.length_append]
          omega
        obtain ⟨text, meant, behind, spelled, rfl⟩ := follows rest shorter _ second
        exact ⟨_, _, behind, .pair hex hex' leading trailing spelled, by simp⟩
      | false =>
        rw [unitOf_unpaired trailing] at second
        cases second
    | false =>
      cases trailing : isTrailing u with
      | true =>
        rw [unitOf_trailing trailing] at opened
        cases opened
      | false =>
        rw [unitOf_scalar ⟨leading, trailing⟩] at opened
        have shorter : rest.length < ('\\' :: 'u' :: (ds ++ rest)).length := by
          simp only [List.length_cons, List.length_append]
          omega
        obtain ⟨text, meant, behind, spelled, rfl⟩ := follows rest shorter _ opened
        exact ⟨_, _, behind, .unit hex ⟨leading, trailing⟩ spelled, by simp⟩
  · rw [content_short known] at read
    have shorter : behind.length < ('\\' :: e :: behind).length :=
      (Nat.lt_succ_self _).trans (Nat.lt_succ_self _)
    obtain ⟨text, meant, rest, spelled, rfl⟩ := follows behind shorter _ read
    exact ⟨'\\' :: e :: text, c :: meant, rest, .short known spelled, rfl⟩

theorem spelled_of_content (read : content .plain done (encode cs) = .ok (bytes, t)) :
    ∃ text meant rest, Spelled text meant ∧ cs = text ++ '"' :: rest := by
  induction size : cs.length using Nat.strongRecOn generalizing cs done with
  | _ n ih =>
    subst size
    cases cs with
    | nil => cases read
    | cons c cs =>
      by_cases quote : c = '"'
      · exact ⟨[], [], cs, .nil, by rw [quote]; rfl⟩
      by_cases slash : c = '\\'
      · subst slash
        exact spelled_of_backslash read fun rest shorter done read => ih _ shorter read rfl
      · have control := printable_of_content read
        rw [encode_cons,
          content_plain (plain_encodeChar quote slash (Nat.not_lt.mpr control))] at read
        obtain ⟨text, meant, rest, spelled, rfl⟩ := ih cs.length (Nat.lt_succ_self _) read rfl
        exact ⟨c :: text, c :: meant, rest, .plain quote slash control spelled, rfl⟩

theorem string_iff {name : String} :
    string (encode cs) = .ok (name, t) ↔
      ∃ (q : Quoted) (rest : List Char), '"' :: cs = q.chars ++ rest ∧ name = q.value ∧
        t = encode rest := by
  have reads : ∀ (q : Quoted) (rest : List Char),
      string (encode (q.inside ++ '"' :: rest)) = .ok (q.value, encode rest) := by
    intro q rest
    unfold string
    rw [content_spelled q.spelled, List.reverse_nil, List.nil_append]
    simp only [bind, Except.bind, decode?_encode]
    rfl
  constructor
  · intro read
    cases inside : content .plain [] (encode cs) with
    | error f =>
      unfold string at read
      rw [inside] at read
      cases read
    | ok r =>
      obtain ⟨text, meant, rest, spelled, rfl⟩ := spelled_of_content inside
      have same := (reads ⟨text, meant, spelled⟩ rest).symm.trans read
      cases same
      exact ⟨⟨text, meant, spelled⟩, rest, by simp [Quoted.chars], rfl, rfl⟩
  · rintro ⟨q, rest, same, rfl, rfl⟩
    rw [Quoted.chars, List.cons_append, List.append_assoc] at same
    rw [(List.cons.inj same).2]
    exact reads q rest

end Parley.Json.Grammar
