import Parley.Proofs.Skimming

/-! A value that nobody asks for is passed over just when it is a text of the loose grammar. -/
namespace Parley.Json.Grammar
open Reader Utf8

variable {s t : Bytes} {first : Bool}

/-- No white space. -/
def blank : Spaces :=
  ⟨[], List.forall_mem_nil _⟩

theorem encode_blank : encode blank.val = [] :=
  rfl

theorem Spaces.encode_append (a b : Spaces) :
    encode (a.append b).val = encode a.val ++ encode b.val :=
  Utf8.encode_append a.val b.val

theorem joined_cons (text : Bytes) (texts : List Bytes) :
    joined true (text :: texts) = text ++ joined false texts := by
  induction texts generalizing text with
  | nil => simp [joined]
  | cons next texts ih =>
    have rest := ih next
    unfold joined at rest ⊢
    rw [if_pos rfl] at rest ⊢
    rw [List.intercalate_cons_cons, rest]
    simp

theorem joined_nil : joined first [] = [] := by
  cases first <;> rfl

theorem encode_listed (texts : List (List Char)) :
    encode (listed first texts) = joined first (texts.map encode) := by
  have behind : ∀ texts : List (List Char),
      encode (listed false texts) = joined false (texts.map encode) := by
    intro texts
    induction texts with
    | nil => rfl
    | cons text texts ih =>
      have left : listed false (text :: texts) = ',' :: (text ++ listed false texts) := rfl
      have right : joined false ((text :: texts).map encode) =
        0x2C :: (encode text ++ joined false (texts.map encode)) := rfl
      rw [left, right, encode_ascii (by decide), encode_append, ih]
      rfl
  cases first with
  | false => exact behind texts
  | true =>
    cases texts with
    | nil => rfl
    | cons text texts =>
      rw [show listed true (text :: texts) = _ from separated_cons text texts, encode_append,
        behind, List.map_cons, joined_cons]

/-! What can be read can be passed over. -/

def Item.piece (i : Item) : Piece :=
  ⟨i.before, encode i.text, i.after⟩

theorem Item.bytes_piece (i : Item) : i.piece.bytes = encode i.chars := by
  unfold Item.piece Piece.bytes Item.chars
  rw [encode_append, encode_append]

def Member.entry (m : Member) : Entry :=
  ⟨m.before, encode m.name.chars, m.after, m.item.piece⟩

theorem Member.bytes_entry (m : Member) : m.entry.bytes = encode m.chars := by
  have colon : encode (':' :: m.item.chars) = 0x3A :: m.item.piece.bytes := by
    rw [encode_ascii (by decide), m.item.bytes_piece]
    rfl
  unfold Member.entry Entry.bytes Member.chars
  rw [encode_append, encode_append, encode_append, colon]

theorem encode_closed (inside : Spaces) (texts : List (List Char)) (close : Char) :
    encode (inside.val ++ (separated texts ++ [close])) =
      encode inside.val ++ (joined true (texts.map encode) ++ encode [close]) := by
  rw [encode_append, encode_append, ← encode_listed]
  rfl

theorem Spells.skims {depth : Nat} {cs : List Char} {j : Json} (spells : Spells depth cs j) :
    Skims (encode cs) := by
  induction spells with
  | null => exact .null
  | true => exact .true
  | false => exact .false
  | number depth n value => exact .number n
  | str depth q => exact .str q.passes
  | @arr depth inside items all ih =>
    have pieces : (items.map Item.chars).map encode = (items.map Item.piece).map Piece.bytes := by
      simp only [List.map_map]
      exact List.map_congr_left fun i _ => i.bytes_piece.symm
    rw [encode_ascii (by decide), encode_closed, pieces]
    refine .arr inside fun p member => ?_
    obtain ⟨i, within, rfl⟩ := List.mem_map.mp member
    exact ih i within
  | @obj depth inside members all ih =>
    have entries : (members.map Member.chars).map encode =
        (members.map Member.entry).map Entry.bytes := by
      simp only [List.map_map]
      exact List.map_congr_left fun m _ => m.bytes_entry.symm
    rw [encode_ascii (by decide), encode_closed, entries]
    refine .obj inside (fun e member => ?_) fun e member => ?_
    · obtain ⟨m, within, rfl⟩ := List.mem_map.mp member
      exact m.name.passes
    · obtain ⟨m, within, rfl⟩ := List.mem_map.mp member
      exact ih m within

theorem Stands.skims {depth : Nat} {text : Bytes} {j : Json} (stands : Stands depth text j) :
    Skims text := by
  obtain ⟨cs, rfl, spells⟩ := stands
  exact spells.skims

/-! Tokens. -/

theorem opens_encode {cs : List Char} (opens : Opens cs) : Json.Opens (encode cs) := by
  obtain ⟨c, cs, rfl, ascii, dark, bracket⟩ := opens
  rw [encode_ascii ascii]
  refine .intro ?_ ?_
  · rw [agree_space.ascii c ascii, dark]
  · rw [← Char.toNat_inj.ne, toNat_ofUInt8, toNat_ofNat (by omega)]
    exact Char.toNat_inj.ne.mpr bracket

theorem opens_numeral (n : Numeral) : Opens n.chars := by
  unfold Numeral.chars
  split
  · exact ⟨_, _, rfl, by decide⟩
  · exact opens_digits n.whole _

theorem Skims.opens {text : Bytes} (skims : Skims text) : Json.Opens text := by
  cases skims with
  | null | true | false => exact opens_encode ⟨_, _, rfl, by decide⟩
  | number n => exact opens_encode (opens_numeral n)
  | str passes =>
    obtain ⟨raw, rfl, -⟩ := passes
    exact .intro rfl (by decide)
  | arr inside all => exact .intro rfl (by decide)
  | obj inside names all => exact .intro rfl (by decide)

theorem token_byte (before : Spaces) {b : UInt8} {c : Char} (dark : Reader.isSpace b = false)
    (char : Char.ofUInt8 b = c) (t : Bytes) :
    token (encode before.val ++ b :: t) = .ok (some c, b :: t) := by
  rw [token_before before, ← char]
  · rfl
  · intro d first
    obtain rfl := Option.some.inj first
    exact dark

theorem byte_of_ahead {c : Char} (found : ahead s = some c) :
    ∃ b t, s = b :: t ∧ Char.ofUInt8 b = c := by
  cases s with
  | nil => cases found
  | cons b t => exact ⟨b, t, rfl, Option.some.inj found⟩

theorem byte_eq {b : UInt8} {c : Char} (char : Char.ofUInt8 b = c) : b = .ofNat c.toNat := by
  rw [← char, toNat_ofUInt8, UInt8.ofNat_toNat]

theorem cons_of_mark {c : Char} (found : ahead s = some c) : ∃ t, s = .ofNat c.toNat :: t := by
  obtain ⟨b, t, rfl, char⟩ := byte_of_ahead found
  exact ⟨t, by rw [byte_eq char]⟩

theorem colon_bytes : colon s = .ok ((), t) ↔
    ∃ inside : Spaces, s = encode inside.val ++ 0x3A :: t := by
  constructor
  · intro read
    obtain ⟨inside, u, rfl, stop, taken⟩ := token_split s
    unfold colon at read
    rw [bind_of _ taken] at read
    generalize found : ahead u = first at read
    split at read
    · obtain ⟨v, rfl⟩ := cons_of_mark found
      cases read
      exact ⟨inside, rfl⟩
    · cases read
    · cases read
  · rintro ⟨inside, rfl⟩
    unfold colon
    rw [bind_of _ (token_byte inside (by decide) rfl t)]
    rfl

theorem skipName_iff : skipName s = .ok ((), t) ↔
    ∃ (before : Spaces) (name : Bytes) (after : Spaces),
      s = encode before.val ++ (name ++ (encode after.val ++ 0x3A :: t)) ∧
        PassesQuoted name := by
  constructor
  · intro read
    obtain ⟨before, u, rfl, stop, taken⟩ := token_split s
    unfold skipName at read
    rw [bind_of _ taken] at read
    generalize found : ahead u = first at read
    split at read
    · obtain ⟨v, rfl⟩ := cons_of_mark found
      obtain ⟨_, w, skipped, read⟩ := ok_of_bind read
      cases skipped
      obtain ⟨_, w, passed, read⟩ := ok_of_bind read
      obtain ⟨name, passes, split⟩ := skipString_iff.mp passed
      obtain ⟨after, rfl⟩ := colon_bytes.mp read
      exact ⟨before, name, after, congrArg _ split, passes⟩
    · cases read
    · cases read
  · rintro ⟨before, name, after, rfl, raw, rfl, passes⟩
    have passed : skipString (raw ++ 0x22 :: (encode after.val ++ 0x3A :: t)) =
        .ok ((), encode after.val ++ 0x3A :: t) := passes.passContent _
    rw [List.cons_append, List.append_assoc, List.singleton_append]
    unfold skipName
    rw [bind_of _ (token_byte (c := '"') before (by decide) rfl _)]
    change (skipString >>= fun _ => colon) (raw ++ 0x22 :: (encode after.val ++ 0x3A :: t)) = _
    rw [bind_of _ passed]
    exact colon_bytes.mpr ⟨after, rfl⟩

/-! Values. -/

/-- A text was passed over, behind white space. -/
def PassesValue (s t : Bytes) : Prop :=
  ∃ (before : Spaces) (text : Bytes), s = encode before.val ++ (text ++ t) ∧ Skims text

/-- Items were passed over, with the bracket that closes them. -/
def PassesItems (first : Bool) (s t : Bytes) : Prop :=
  ∃ (inside : Spaces) (pieces : List Piece),
    s = encode inside.val ++ (joined first (pieces.map Piece.bytes) ++ 0x5D :: t) ∧
      ∀ p ∈ pieces, Skims p.text

/-- Members were passed over, with the brace that closes them. -/
def PassesMembers (first : Bool) (s t : Bytes) : Prop :=
  ∃ (inside : Spaces) (entries : List Entry),
    s = encode inside.val ++ (joined first (entries.map Entry.bytes) ++ 0x7D :: t) ∧
      ∀ e ∈ entries, PassesQuoted e.name ∧ Skims e.piece.text

theorem literal_skims {c : Char} {ls : List Char} (ascii : (c :: ls).all (·.toNat < 0x80))
    (found : ahead s = some c) (read : (do skip; literal ls : Reader Unit) s = .ok ((), t)) :
    s = encode (c :: ls) ++ t := by
  simp only [List.all_eq_true, decide_eq_true_eq] at ascii
  obtain ⟨first, behind⟩ := List.forall_mem_cons.mp ascii
  obtain ⟨u, rfl⟩ := cons_of_ahead found first
  rw [bind_of _ (skip_char first u)] at read
  rw [(literal_bytes behind).mp read, ← List.append_assoc, ← encode_append]
  rfl

theorem skipValue_sound {fuel : Nat}
    (items : ∀ s t, skipItems fuel true s = .ok ((), t) → PassesItems true s t)
    (members : ∀ s t, skipMembers fuel true s = .ok ((), t) → PassesMembers true s t)
    (read : skipValue (fuel + 1) s = .ok ((), t)) : PassesValue s t := by
  obtain ⟨before, u, rfl, stop, taken⟩ := token_split s
  suffices passed : ∃ text, u = text ++ t ∧ Skims text by
    obtain ⟨text, rfl, skims⟩ := passed
    exact ⟨before, text, rfl, skims⟩
  rw [skipValue.eq_def] at read
  dsimp only at read
  rw [bind_of _ taken] at read
  generalize found : ahead u = first at read
  split at read
  case h_1 => cases read
  case h_2 => exact ⟨_, literal_skims (by decide) found read, .null⟩
  case h_3 => exact ⟨_, literal_skims (by decide) found read, .true⟩
  case h_4 => exact ⟨_, literal_skims (by decide) found read, .false⟩
  case h_5 =>
    obtain ⟨v, rfl⟩ := cons_of_ahead found (by decide)
    rw [bind_of _ (skip_char (by decide) _)] at read
    obtain ⟨n, negative, rfl⟩ := skipNumber_sound true read
    refine ⟨encode n.chars, ?_, .number n⟩
    rw [Numeral.chars, if_pos negative, ← List.append_assoc, ← encode_append]
    rfl
  case h_6 =>
    obtain ⟨v, rfl⟩ := cons_of_mark found
    obtain ⟨text, passes, split⟩ := skipString_iff.mp (show skipString v = _ from read)
    exact ⟨text, split, .str passes⟩
  case h_7 =>
    obtain ⟨v, rfl⟩ := cons_of_mark found
    obtain ⟨inside, pieces, rfl, all⟩ := items v t read
    exact ⟨_, by simp, .arr inside all⟩
  case h_8 =>
    obtain ⟨v, rfl⟩ := cons_of_mark found
    obtain ⟨inside, entries, rfl, all⟩ := members v t read
    exact ⟨_, by simp, .obj inside (fun e member => (all e member).1) fun e member =>
      (all e member).2⟩
  case h_9 =>
    split at read
    · obtain ⟨n, positive, rfl⟩ := skipNumber_sound false read
      exact ⟨encode n.chars, by rw [Numeral.chars, if_neg (by simp [positive])], .number n⟩
    · cases read

theorem skipItems_sound {fuel : Nat}
    (value : ∀ s t, skipValue fuel s = .ok ((), t) → PassesValue s t)
    (items : ∀ s t, skipItems fuel false s = .ok ((), t) → PassesItems false s t)
    (read : skipItems (fuel + 1) first s = .ok ((), t)) : PassesItems first s t := by
  obtain ⟨inside, u, rfl, stop, taken⟩ := token_split s
  rw [skipItems] at read
  rw [bind_of _ taken] at read
  generalize found : ahead u = ahead at read
  split at read
  case h_1 => cases read
  case h_2 =>
    obtain ⟨v, rfl⟩ := cons_of_mark found
    cases read
    exact ⟨inside, [], by rw [List.map_nil, joined_nil]; rfl, List.forall_mem_nil _⟩
  case h_3 =>
    split at read
    · next lead =>
      obtain ⟨_, v, passed, behind⟩ := ok_of_bind read
      obtain ⟨before, text, rfl, skims⟩ := value _ _ passed
      obtain ⟨after, pieces, rfl, all⟩ := items _ _ behind
      refine ⟨blank, ⟨inside.append before, text, after⟩ :: pieces, ?_,
        List.forall_mem_cons.mpr ⟨skims, all⟩⟩
      rw [lead, List.map_cons, joined_cons]
      simp [Piece.bytes, encode_blank, Spaces.encode_append]
    · next later =>
      split at read
      · next comma =>
        subst comma
        obtain ⟨v, rfl⟩ := cons_of_mark found
        obtain ⟨_, w, passed, behind⟩ :=
          ok_of_bind (x := skipValue fuel) (s := v) (f := fun _ => skipItems fuel false) read
        obtain ⟨before, text, rfl, skims⟩ := value _ _ passed
        obtain ⟨after, pieces, rfl, all⟩ := items _ _ behind
        refine ⟨inside, ⟨before, text, after⟩ :: pieces, ?_, List.forall_mem_cons.mpr ⟨skims, all⟩⟩
        rw [Bool.not_eq_true] at later
        rw [later, List.map_cons]
        simp [joined, Piece.bytes]
      · cases read

theorem skipMembers_sound {fuel : Nat}
    (value : ∀ s t, skipValue fuel s = .ok ((), t) → PassesValue s t)
    (members : ∀ s t, skipMembers fuel false s = .ok ((), t) → PassesMembers false s t)
    (read : skipMembers (fuel + 1) first s = .ok ((), t)) : PassesMembers first s t := by
  obtain ⟨inside, u, rfl, stop, taken⟩ := token_split s
  rw [skipMembers] at read
  rw [bind_of _ taken] at read
  generalize found : ahead u = ahead at read
  split at read
  case h_1 => cases read
  case h_2 =>
    obtain ⟨v, rfl⟩ := cons_of_mark found
    cases read
    exact ⟨inside, [], by rw [List.map_nil, joined_nil]; rfl, List.forall_mem_nil _⟩
  case h_3 =>
    have entry : ∀ {u : Bytes},
        (do skipName; skipValue fuel; skipMembers fuel false : Reader Unit) u = .ok ((), t) → ∃ (e : Entry) (entries : List Entry),
          u = e.bytes ++ (joined false (entries.map Entry.bytes) ++ 0x7D :: t) ∧
            ∀ x ∈ e :: entries, PassesQuoted x.name ∧ Skims x.piece.text := by
      intro u read
      obtain ⟨_, v, named, behind⟩ := ok_of_bind read
      obtain ⟨before, name, after, rfl, passes⟩ := skipName_iff.mp named
      obtain ⟨_, w, passed, last⟩ := ok_of_bind behind
      obtain ⟨lead, text, rfl, skims⟩ := value _ _ passed
      obtain ⟨trail, entries, rfl, all⟩ := members _ _ last
      exact ⟨⟨before, name, after, lead, text, trail⟩, entries, by simp [Entry.bytes, Piece.bytes],
        List.forall_mem_cons.mpr ⟨⟨passes, skims⟩, all⟩⟩
    split at read
    · next lead =>
      obtain ⟨e, entries, rfl, all⟩ := entry read
      refine ⟨blank, ⟨inside.append e.before, e.name, e.after, e.piece⟩ :: entries, ?_,
        List.forall_mem_cons.mpr (List.forall_mem_cons.mp all)⟩
      rw [lead, List.map_cons, joined_cons]
      simp [Entry.bytes, encode_blank, Spaces.encode_append]
    · next later =>
      split at read
      · next comma =>
        subst comma
        obtain ⟨v, rfl⟩ := cons_of_mark found
        obtain ⟨e, entries, rfl, all⟩ := entry (u := v) read
        refine ⟨inside, e :: entries, ?_, all⟩
        rw [Bool.not_eq_true] at later
        rw [later, List.map_cons]
        simp [joined]
      · cases read

theorem skip_sound (fuel : Nat) :
    (∀ s t, skipValue fuel s = .ok ((), t) → PassesValue s t) ∧
    (∀ first s t, skipItems fuel first s = .ok ((), t) → PassesItems first s t) ∧
    (∀ first s t, skipMembers fuel first s = .ok ((), t) → PassesMembers first s t) := by
  induction fuel with
  | zero =>
    refine ⟨fun s t read => ?_, fun first s t read => ?_, fun first s t read => ?_⟩
    · rw [skipValue.eq_def] at read
      cases read
    · rw [skipItems] at read
      cases read
    · rw [skipMembers] at read
      cases read
  | succ fuel ih =>
    obtain ⟨value, items, members⟩ := ih
    exact ⟨fun s t => skipValue_sound (items true) (members true),
      fun first s t => skipItems_sound value (items false),
      fun first s t => skipMembers_sound value (members false)⟩

theorem skims_of_skipValue {fuel : Nat} (read : skipValue fuel s = .ok ((), t)) : PassesValue s t :=
  (skip_sound fuel).1 s t read

/-! Everything of the loose grammar is passed over. -/

section complete

variable {fuel : Nat} {text : Bytes}

/-- The text is passed over wherever it stands, with twice as much fuel as it is long. -/
def Skipped (text : Bytes) : Prop :=
  ∀ fuel (before : Spaces) t, 2 * text.length ≤ fuel → Stops t →
    skipValue fuel (encode before.val ++ (text ++ t)) = .ok ((), t)

theorem Opens.byte (opens : Json.Opens text) : ∃ b rest, text = b :: rest ∧
    Reader.isSpace b = false ∧ Char.ofUInt8 b ≠ ']' := by
  cases opens with
  | intro space close => exact ⟨_, _, rfl, space, close⟩

theorem length_of_opens (opens : Json.Opens text) : 0 < text.length := by
  cases opens
  exact Nat.succ_pos _

theorem skipValue_spaces (opens : Json.Opens text) (before : Spaces) (t : Bytes) :
    skipValue (fuel + 1) (encode before.val ++ (text ++ t)) = skipValue (fuel + 1) (text ++ t) := by
  cases opens with
  | @intro b rest space close =>
    have bare := token_byte blank space rfl (rest ++ t)
    rw [encode_blank, List.nil_append] at bare
    rw [skipValue.eq_def]
    dsimp only
    rw [List.cons_append, bind_of _ (token_byte before space rfl _), bind_of _ bare]

theorem Skipped.leaf (opens : Json.Opens text)
    (read : ∀ fuel t, Stops t → skipValue (fuel + 1) (text ++ t) = .ok ((), t)) : Skipped text := by
  intro fuel before t enough stops
  have positive := length_of_opens opens
  obtain ⟨fuel, rfl⟩ := Nat.exists_eq_add_of_le' (show 1 ≤ fuel by omega)
  rw [skipValue_spaces opens]
  exact read fuel t stops

theorem stops_joined (texts : List Bytes) {b : UInt8} (close : b = 0x5D ∨ b = 0x7D) :
    Stops (joined false texts ++ b :: t) := by
  cases texts with
  | nil => exact stops_mark (.inr close) t
  | cons text texts => exact stops_mark (.inl rfl) _

theorem length_joined (first : Bool) (text : Bytes) (texts : List Bytes) :
    text.length + (joined false texts).length ≤ (joined first (text :: texts)).length := by
  cases first with
  | true => rw [joined_cons, List.length_append]
  | false => simp [joined]

theorem Piece.length_text (p : Piece) : p.text.length ≤ p.bytes.length := by
  unfold Piece.bytes
  rw [List.length_append, List.length_append]
  omega

theorem Entry.length_text (e : Entry) : e.piece.text.length < e.bytes.length := by
  have value := e.piece.length_text
  unfold Entry.bytes
  rw [List.length_append, List.length_append, List.length_append, List.length_cons]
  omega

/-- Brackets are two bytes more. -/
theorem length_enclosed (b c : UInt8) (inside text : Bytes) :
    text.length + 2 ≤ (b :: (inside ++ (text ++ [c]))).length := by
  rw [List.length_cons, List.length_append, List.length_append, List.length_singleton]
  omega

theorem skipItems_close (inside : Spaces) (t : Bytes) :
    skipItems (fuel + 1) first (encode inside.val ++ 0x5D :: t) = .ok ((), t) := by
  rw [skipItems, bind_of _ (token_byte inside (c := ']') rfl rfl t)]
  rfl

theorem skipItems_cons (inside : Spaces) (p : Piece) (pieces : List Piece)
    (opens : Json.Opens p.text) (skipped : Skipped p.text)
    (enough : 2 * p.text.length ≤ fuel) :
    skipItems (fuel + 1) first
        (encode inside.val ++ (joined first ((p :: pieces).map Piece.bytes) ++ 0x5D :: t)) =
      skipItems fuel false
        (encode p.after.val ++ (joined false (pieces.map Piece.bytes) ++ 0x5D :: t)) := by
  have stops : Stops (encode p.after.val ++ (joined false (pieces.map Piece.bytes) ++ 0x5D :: t)) :=
    (stops_joined _ (.inl rfl)).spaces p.after
  rw [List.map_cons]
  cases first with
  | true =>
    obtain ⟨b, rest, split, space, close⟩ := Opens.byte opens
    have bytes : encode inside.val ++
          (joined true (p.bytes :: pieces.map Piece.bytes) ++ 0x5D :: t) =
        encode (inside.append p.before).val ++ (p.text ++ (encode p.after.val ++
          (joined false (pieces.map Piece.bytes) ++ 0x5D :: t))) := by
      rw [joined_cons, Spaces.encode_append, Piece.bytes]
      simp only [List.append_assoc]
    have read := skipped fuel blank _ enough stops
    rw [encode_blank, List.nil_append, split, List.cons_append] at read
    rw [skipItems, bytes, split, List.cons_append, bind_of _ (token_byte _ space rfl _)]
    generalize Char.ofUInt8 b = c at close
    simp only [if_true]
    exact bind_of _ read
  | false =>
    have read := skipped fuel p.before _ enough stops
    have bytes : joined false (p.bytes :: pieces.map Piece.bytes) ++ 0x5D :: t =
        0x2C :: (encode p.before.val ++ (p.text ++ (encode p.after.val ++
          (joined false (pieces.map Piece.bytes) ++ 0x5D :: t)))) := by
      simp [joined, Piece.bytes]
    rw [skipItems, bytes, bind_of _ (token_byte inside (c := ',') rfl rfl _)]
    exact bind_of (fun _ => skipItems fuel false) read

theorem skipItems_pieces {pieces : List Piece}
    (all : ∀ p ∈ pieces, Json.Opens p.text ∧ Skipped p.text) (inside : Spaces) (t : Bytes)
    (enough : 2 * (joined first (pieces.map Piece.bytes)).length < fuel) :
    skipItems fuel first
        (encode inside.val ++ (joined first (pieces.map Piece.bytes) ++ 0x5D :: t)) =
      .ok ((), t) := by
  induction pieces generalizing fuel first inside with
  | nil =>
    obtain ⟨fuel, rfl⟩ := Nat.exists_eq_add_of_le' (show 1 ≤ fuel by omega)
    rw [List.map_nil, joined_nil]
    exact skipItems_close inside t
  | cons p pieces ih =>
    obtain ⟨⟨opens, skipped⟩, others⟩ := List.forall_mem_cons.mp all
    obtain ⟨fuel, rfl⟩ := Nat.exists_eq_add_of_le' (show 1 ≤ fuel by omega)
    have size := length_joined first p.bytes (pieces.map Piece.bytes)
    have positive := length_of_opens opens
    have length := p.length_text
    rw [List.map_cons] at enough
    rw [skipItems_cons inside p pieces opens skipped (by omega)]
    exact ih others p.after (by omega)

theorem skipMembers_close (inside : Spaces) (t : Bytes) :
    skipMembers (fuel + 1) first (encode inside.val ++ 0x7D :: t) = .ok ((), t) := by
  rw [skipMembers, bind_of _ (token_byte inside (c := '\x7d') rfl rfl t)]
  rfl

/-- A name and its value. -/
theorem skip_entry (e : Entry) (passes : PassesQuoted e.name) (skipped : Skipped e.piece.text)
    (enough : 2 * e.piece.text.length ≤ fuel)
    (stops : Stops (encode e.piece.after.val ++ t)) {x : Reader Unit} :
    (do skipName; skipValue fuel; x : Reader Unit) (e.bytes ++ t) =
      x (encode e.piece.after.val ++ t) := by
  have named : skipName (e.bytes ++ t) = .ok ((), e.piece.bytes ++ t) :=
    skipName_iff.mpr ⟨e.before, e.name, e.after, by simp [Entry.bytes], passes⟩
  have read := skipped fuel e.piece.before _ enough stops
  rw [bind_of _ named, Piece.bytes, List.append_assoc, List.append_assoc]
  exact bind_of _ read

theorem skipMembers_cons (inside : Spaces) (e : Entry) (entries : List Entry)
    (passes : PassesQuoted e.name) (skipped : Skipped e.piece.text)
    (enough : 2 * e.piece.text.length ≤ fuel) :
    skipMembers (fuel + 1) first
        (encode inside.val ++ (joined first ((e :: entries).map Entry.bytes) ++ 0x7D :: t)) =
      skipMembers fuel false
        (encode e.piece.after.val ++ (joined false (entries.map Entry.bytes) ++ 0x7D :: t)) := by
  have stops : Stops (encode e.piece.after.val ++
      (joined false (entries.map Entry.bytes) ++ 0x7D :: t)) :=
    (stops_joined _ (.inr rfl)).spaces e.piece.after
  rw [List.map_cons]
  cases first with
  | true =>
    -- The white space before the name is dropped, and looked for once more.
    have bytes : encode inside.val ++
          (joined true (e.bytes :: entries.map Entry.bytes) ++ 0x7D :: t) =
        encode (inside.append e.before).val ++ (e.name ++ (encode e.after.val ++ 0x3A ::
          (e.piece.bytes ++ (joined false (entries.map Entry.bytes) ++ 0x7D :: t)))) := by
      rw [joined_cons, Spaces.encode_append, Entry.bytes]
      simp only [List.append_assoc, List.cons_append]
    have read := skip_entry (x := skipMembers fuel false) ⟨blank, e.name, e.after, e.piece⟩ passes
      skipped enough stops
    obtain ⟨raw, split, -⟩ := passes
    rw [skipMembers, bytes]
    simp only [Entry.bytes, encode_blank, List.nil_append, split, List.cons_append,
      List.append_assoc] at read ⊢
    rw [bind_of _ (token_byte (c := '"') _ rfl rfl _)]
    exact read
  | false =>
    have read := skip_entry (x := skipMembers fuel false) e passes skipped enough stops
    have bytes : joined false (e.bytes :: entries.map Entry.bytes) ++ 0x7D :: t =
        0x2C :: (e.bytes ++ (joined false (entries.map Entry.bytes) ++ 0x7D :: t)) := by
      simp [joined]
    rw [skipMembers, bytes, bind_of _ (token_byte inside (c := ',') rfl rfl _)]
    exact read

theorem skipMembers_entries {entries : List Entry}
    (all : ∀ e ∈ entries, PassesQuoted e.name ∧ Skipped e.piece.text) (inside : Spaces) (t : Bytes)
    (enough : 2 * (joined first (entries.map Entry.bytes)).length < fuel) :
    skipMembers fuel first
        (encode inside.val ++ (joined first (entries.map Entry.bytes) ++ 0x7D :: t)) =
      .ok ((), t) := by
  induction entries generalizing fuel first inside with
  | nil =>
    obtain ⟨fuel, rfl⟩ := Nat.exists_eq_add_of_le' (show 1 ≤ fuel by omega)
    rw [List.map_nil, joined_nil]
    exact skipMembers_close inside t
  | cons e entries ih =>
    obtain ⟨⟨passes, skipped⟩, others⟩ := List.forall_mem_cons.mp all
    obtain ⟨fuel, rfl⟩ := Nat.exists_eq_add_of_le' (show 1 ≤ fuel by omega)
    have size := length_joined first e.bytes (entries.map Entry.bytes)
    have length := e.length_text
    rw [List.map_cons] at enough
    rw [skipMembers_cons inside e entries passes skipped (by omega)]
    exact ih others e.piece.after (by omega)

theorem skipValue_digit {b : UInt8} (digit : Json.isDigit b = true) (rest : Bytes) :
    skipValue (fuel + 1) (b :: rest) = skipNumber (b :: rest) := by
  have range : 0x30 ≤ b.toNat ∧ b.toNat ≤ 0x39 := by
    simpa [Json.isDigit, UInt8.le_iff_toNat_le] using digit
  rw [← UInt8.ofNat_toNat (x := b), skipValue.eq_def]
  generalize b.toNat = n at range
  obtain ⟨low, high⟩ := range
  interval_cases n <;> rfl

theorem skipValue_number (n : Numeral) (stops : Stops t) :
    skipValue (fuel + 1) (encode n.chars ++ t) = .ok ((), t) := by
  have read := skipNumber_before n stops.noNumber
  unfold Numeral.chars
  split
  · rw [encode_ascii (by decide), skipValue.eq_def]
    exact read
  · obtain ⟨d, ds, split, digit, ascii⟩ := n.whole.cons
    rw [Numeral.unsigned, split, List.cons_append, encode_ascii ascii] at read ⊢
    exact (skipValue_digit (digitByte digit).isDigit _).trans read

theorem Skims.skipped (skims : Skims text) : Skipped text := by
  have opens := skims.opens
  induction skims with
  | null => exact .leaf opens fun fuel t _ => by rw [skipValue.eq_def]; rfl
  | true => exact .leaf opens fun fuel t _ => by rw [skipValue.eq_def]; rfl
  | false => exact .leaf opens fun fuel t _ => by rw [skipValue.eq_def]; rfl
  | number n => exact .leaf opens fun fuel t stops => skipValue_number n stops
  | @str text passes =>
    refine .leaf opens fun fuel t _ => ?_
    obtain ⟨raw, rfl, passes⟩ := passes
    rw [List.cons_append, List.append_assoc, skipValue.eq_def]
    exact passes.passContent t
  | @arr inside pieces all ih =>
    intro fuel before t enough _
    have size := length_enclosed 0x5B 0x5D (encode inside.val)
      (joined .true (pieces.map Piece.bytes))
    obtain ⟨fuel, rfl⟩ := Nat.exists_eq_add_of_le' (show 1 ≤ fuel by omega)
    have read := skipItems_pieces
      (fun p member => ⟨(all p member).opens, ih p member (all p member).opens⟩) inside t
      (show 2 * (joined .true (pieces.map Piece.bytes)).length < fuel by omega)
    rw [skipValue_spaces opens, List.cons_append, List.append_assoc, List.append_assoc,
      skipValue.eq_def]
    exact read
  | @obj inside entries names all ih =>
    intro fuel before t enough _
    have size := length_enclosed 0x7B 0x7D (encode inside.val)
      (joined .true (entries.map Entry.bytes))
    obtain ⟨fuel, rfl⟩ := Nat.exists_eq_add_of_le' (show 1 ≤ fuel by omega)
    have read := skipMembers_entries
      (fun e member => ⟨names e member, ih e member (all e member).opens⟩) inside t
      (show 2 * (joined .true (entries.map Entry.bytes)).length < fuel by omega)
    rw [skipValue_spaces opens, List.cons_append, List.append_assoc, List.append_assoc,
      skipValue.eq_def]
    exact read

end complete

end Parley.Json.Grammar
