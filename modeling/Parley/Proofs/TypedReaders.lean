import Parley.Proofs.Records

/-! The readers of single fields take the texts of values of their kind, and no others. -/
namespace Parley.Json.Grammar
open Reader Utf8

variable {s t text : Bytes} {depth fuel : Nat}

/-! What a text is, by the kind of its value. -/

/-- A number is no string, array or object. -/
theorem Numeral.kind {n : Numeral} {j : Json} (value : n.value? = some j) :
    (∃ k, j = .int k) ∨ ∃ x, j = .float x := by
  have float : ∀ {negative significand power}, float? negative significand power = some j →
      ∃ x, j = .float x := by
    intro negative significand power value
    obtain ⟨x, -, rfl⟩ := Option.map_eq_some_iff.mp value
    exact ⟨_, rfl⟩
  unfold Numeral.value? at value
  split at value
  · cases value
    unfold wholeNumber
    split
    · exact .inl ⟨_, rfl⟩
    split
    · exact .inl ⟨_, rfl⟩
    · exact .inr ⟨_, rfl⟩
  · refine .inr ?_
    unfold optionalFloat? at value
    split at value
    · unfold Exponent.float? at value
      dsimp only at value
      split at value
      · exact float value
      split at value
      · cases value
        exact ⟨_, rfl⟩
      · cases value
    · exact float value

/-- The form that the kind of a value gives its text. -/
def Form (depth : Nat) (cs : List Char) : Json → Prop
  | .null => cs = ['n', 'u', 'l', 'l']
  | .int n => ∃ m : Numeral, cs = m.chars ∧ m.value? = some (.int n)
  | .str a => ∃ q : Quoted, cs = q.chars ∧ a = q.value
  | .arr js => ∃ (below : Nat) (inside : Spaces) (items : List Item), depth = below + 1 ∧
    cs = '[' :: (inside.val ++ (separated (items.map Item.chars) ++ [']'])) ∧
    js = items.map Item.value ∧ ∀ i ∈ items, Spells below i.text i.value
  | _ => True

theorem Spells.form {cs : List Char} {j : Json} (spells : Spells depth cs j) : Form depth cs j := by
  cases spells with
  | null => rfl
  | true => trivial
  | false => trivial
  | number _ m value =>
    rcases Numeral.kind value with ⟨k, rfl⟩ | ⟨x, rfl⟩
    · exact ⟨m, rfl, value⟩
    · trivial
  | str _ q => exact ⟨q, rfl, rfl⟩
  | @arr below inside items all => exact ⟨below, inside, items, rfl, rfl, rfl, all⟩
  | obj => trivial

theorem Stands.form {j : Json} (stands : Stands depth text j) :
    ∃ cs, text = encode cs ∧ Form depth cs j := by
  obtain ⟨cs, rfl, spells⟩ := stands
  exact ⟨cs, rfl, spells.form⟩

/-! Strings. -/

theorem readString_sound {a : String} (read : readString s = .ok (a, t)) (depth : Nat) :
    ∃ (before : Spaces) (text : Bytes), s = encode before.val ++ (text ++ t) ∧
      Stands depth text (.str a) := by
  obtain ⟨before, u, rfl, -, taken⟩ := token_split s
  unfold readString at read
  rw [bind_of _ taken] at read
  generalize found : ahead u = first at read
  split at read
  · cases read
  · obtain ⟨v, rfl⟩ := cons_of_mark found
    rw [bind_of _ (skip_cons _ v)] at read
    obtain ⟨q, split, rfl⟩ := string_bytes.mp read
    exact ⟨before, encode q.chars, congrArg _ split, q.chars, rfl, .str depth q⟩
  · exact (refuseType_not_ok read).elim

theorem readString_complete {a : String} (stands : Stands depth text (.str a)) (before : Spaces)
    (t : Bytes) : readString (encode before.val ++ (text ++ t)) = .ok (a, t) := by
  obtain ⟨_, rfl, q, rfl, rfl⟩ := stands.form
  unfold readString
  rw [quoted_bytes, bind_of _ (token_byte (c := '"') before rfl rfl _)]
  change (skip >>= _) (0x22 :: (encode (q.inside ++ ['"']) ++ t)) = _
  rw [bind_of _ (skip_cons _ _)]
  exact string_quoted q t

/-! Integers. -/

section integers

variable {low high n : Int} {expected : String}

theorem check_ok {j : Json} (read : readInt.check low high expected j s = .ok (n, t)) :
    j = .int n ∧ low ≤ n ∧ n ≤ high ∧ t = s := by
  unfold readInt.check at read
  split at read
  · split at read
    · next range =>
      cases read
      exact ⟨rfl, range.1, range.2, rfl⟩
    · cases read
  · cases read
  · cases read

theorem check_int (least : low ≤ n) (most : n ≤ high) :
    readInt.check low high expected (.int n) s = .ok (n, s) := by
  unfold readInt.check
  simp only
  rw [if_pos ⟨least, most⟩]
  rfl

theorem readInt_sound (read : readInt low high expected s = .ok (n, t)) (stops : Stops t)
    (depth : Nat) : ∃ (before : Spaces) (text : Bytes), s = encode before.val ++ (text ++ t) ∧
      Stands depth text (.int n) ∧ low ≤ n ∧ n ≤ high := by
  obtain ⟨before, u, rfl, -, taken⟩ := token_split s
  suffices value : value 1 depth u = .ok (.int n, t) ∧ low ≤ n ∧ n ≤ high by
    obtain ⟨value, range⟩ := value
    obtain ⟨inner, text, rfl, stands⟩ := stands_of_value value stops
    exact ⟨before.append inner, text, by rw [Spaces.encode_append, List.append_assoc], stands,
      range⟩
  unfold readInt at read
  rw [bind_of _ taken] at read
  generalize found : ahead u = first at read
  split at read
  · cases read
  · obtain ⟨v, rfl⟩ := cons_of_mark found
    rw [bind_of _ (skip_cons _ v)] at read
    obtain ⟨j, w, number, checked⟩ := ok_of_bind read
    obtain ⟨rfl, least, most, rfl⟩ := check_ok checked
    exact ⟨(value_minus 0 depth v).trans number, least, most⟩
  · split at read
    · next digit =>
      obtain ⟨b, v, rfl, char⟩ := byte_of_ahead found
      obtain ⟨j, w, number, checked⟩ := ok_of_bind read
      obtain ⟨rfl, least, most, rfl⟩ := check_ok checked
      have byte : Json.isDigit b = true := by
        have ascii := digit_ascii digit
        rw [← char, toNat_ofUInt8] at ascii
        rw [← char] at digit
        rw [← digit, ← agree_digit.ascii _ (by rwa [toNat_ofUInt8]), toNat_ofUInt8,
          UInt8.ofNat_toNat]
      exact ⟨(value_digit 0 depth v byte).trans number, least, most⟩
    · exact (refuseType_not_ok read).elim

theorem readInt_complete (stands : Stands depth text (.int n)) (least : low ≤ n) (most : n ≤ high)
    (before : Spaces) (stops : Stops t) :
    readInt low high expected (encode before.val ++ (text ++ t)) = .ok (n, t) := by
  have read := stands.value blank stops (show 2 * text.length ≤ 2 * text.length + 1 by omega)
  rw [encode_blank, List.nil_append] at read
  obtain ⟨_, rfl, m, rfl, -⟩ := stands.form
  unfold readInt
  unfold Numeral.chars at read ⊢
  split
  · next negative =>
    rw [if_pos negative, encode_ascii (by decide)] at read
    have number : number true (encode m.unsigned ++ t) = .ok (.int n, t) :=
      (value_minus _ depth _).symm.trans read
    rw [encode_ascii (by decide), List.cons_append,
      bind_of _ (token_byte (c := '-') before rfl rfl _)]
    change (skip >>= _) (0x2D :: (encode m.unsigned ++ t)) = _
    rw [bind_of _ (skip_cons _ _), bind_of _ number]
    exact check_int least most
  · next positive =>
    rw [if_neg positive] at read
    obtain ⟨d, ds, split, digit, ascii⟩ := m.whole.cons
    have byte := digitByte digit
    rw [Numeral.unsigned, split, List.cons_append, encode_ascii ascii, List.cons_append] at read ⊢
    have number := (value_digit _ depth _ byte.isDigit).symm.trans read
    rw [bind_of _ (token_byte before byte.space byte.char _)]
    generalize found : some d = first
    split
    · cases found
    · cases found
      cases digit
    · obtain rfl := Option.some.inj found
      rw [if_pos digit, bind_of _ number]
      exact check_int least most

end integers

/-! Arrays. -/

/-- An array is read as the value it is. -/
theorem readArray_bracket (before : Spaces) (v : Bytes) {js : List Json} :
    readArray fuel depth (encode before.val ++ 0x5B :: v) = .ok (js, t) ↔
      value (fuel + 1) depth (encode before.val ++ 0x5B :: v) = .ok (.arr js, t) := by
  have taken := token_byte (b := 0x5B) (c := '[') before rfl rfl v
  unfold readArray
  rw [value.eq_def]
  dsimp only
  rw [bind_of _ taken, bind_of _ taken]
  cases depth with
  | zero =>
    constructor
    · intro read
      cases read
    · intro read
      cases read
  | succ depth =>
    change (do let xs ← items fuel depth true; closeArray; pure xs : Reader (List Json)) v = _ ↔
      (do let xs ← items fuel depth true; closeArray; pure (.arr xs) : Reader Json) v = _
    constructor
    · intro read
      obtain ⟨xs, u, inner, read⟩ := ok_of_bind read
      obtain ⟨_, w, closed, done⟩ := ok_of_bind read
      cases done
      rw [bind_of _ inner, bind_of _ closed]
      rfl
    · intro read
      obtain ⟨xs, u, inner, read⟩ := ok_of_bind read
      obtain ⟨_, w, closed, done⟩ := ok_of_bind read
      cases done
      rw [bind_of _ inner, bind_of _ closed]
      rfl

theorem readArray_sound {js : List Json} (read : readArray fuel depth s = .ok (js, t))
    (stops : Stops t) : ∃ (before : Spaces) (text : Bytes), s = encode before.val ++ (text ++ t) ∧
      Stands depth text (.arr js) := by
  obtain ⟨before, u, rfl, -, taken⟩ := token_split s
  have bracket : ∃ v, u = 0x5B :: v := by
    unfold readArray at read
    rw [bind_of _ taken] at read
    generalize found : ahead u = first at read
    split at read
    · cases read
    · exact cons_of_mark found
    · exact (refuseType_not_ok read).elim
  obtain ⟨v, rfl⟩ := bracket
  exact stands_of_value ((readArray_bracket before v).mp read) stops

theorem readArray_complete {js : List Json} (stands : Stands depth text (.arr js))
    (enough : 2 * text.length ≤ fuel) (before : Spaces) (stops : Stops t) :
    readArray fuel depth (encode before.val ++ (text ++ t)) = .ok (js, t) := by
  have read := stands.value before stops (show 2 * text.length ≤ fuel + 1 by omega)
  obtain ⟨_, rfl, _, inside, items, rfl, rfl, -⟩ := stands.form
  rw [encode_ascii (by decide)] at read ⊢
  exact (readArray_bracket before (_ ++ t)).mpr read

/-! Values that may be null. -/

theorem stands_null (depth : Nat) : Stands depth (encode ['n', 'u', 'l', 'l']) .null :=
  ⟨_, rfl, .null depth⟩

theorem readOptional_sound {α : Type} {inner : Reader α} {a : Option α}
    (read : readOptional inner s = .ok (a, t)) :
    (∃ (before : Spaces), s = encode before.val ++ (encode ['n', 'u', 'l', 'l'] ++ t) ∧ a = none) ∨
      ∃ (before : Spaces) (u : Bytes) (x : α), s = encode before.val ++ u ∧
        inner u = .ok (x, t) ∧ a = some x := by
  obtain ⟨before, u, rfl, -, taken⟩ := token_split s
  unfold readOptional at read
  rw [bind_of _ taken] at read
  generalize found : ahead u = first at read
  split at read
  · obtain ⟨v, rfl⟩ := cons_of_mark found
    rw [bind_of _ (skip_cons _ v)] at read
    obtain ⟨_, w, letters, done⟩ := ok_of_bind read
    cases done
    rw [(literal_bytes (by simp)).mp letters]
    exact .inl ⟨before, rfl, rfl⟩
  · obtain ⟨x, taken, rfl⟩ := ok_of_map read
    exact .inr ⟨before, u, x, rfl, taken, rfl⟩

theorem readOptional_null {α : Type} {inner : Reader α} (before : Spaces) (t : Bytes) :
    readOptional inner (encode before.val ++ (encode ['n', 'u', 'l', 'l'] ++ t)) =
      .ok (none, t) := by
  have letters : literal ['u', 'l', 'l'] (encode ['u', 'l', 'l'] ++ t) = .ok ((), t) :=
    (literal_bytes (by simp)).mpr rfl
  have bytes : encode ['n', 'u', 'l', 'l'] ++ t = 0x6E :: (encode ['u', 'l', 'l'] ++ t) := rfl
  unfold readOptional
  rw [bytes, bind_of _ (token_byte (c := 'n') before rfl rfl _)]
  change (skip >>= fun _ => literal ['u', 'l', 'l'] >>= fun _ => pure none) (0x6E :: _) = _
  rw [bind_of _ (skip_cons _ _), bind_of _ letters]
  rfl

theorem readOptional_some {α : Type} {inner : Reader α} {x : α} {b : UInt8} (before : Spaces)
    (dark : Reader.isSpace b = false) (other : Char.ofUInt8 b ≠ 'n')
    (read : inner (b :: s) = .ok (x, t)) :
    readOptional inner (encode before.val ++ b :: s) = .ok (some x, t) := by
  unfold readOptional
  rw [bind_of _ (token_byte before dark rfl _)]
  generalize Char.ofUInt8 b = c at other
  generalize found : some c = first
  split
  · exact (other (Option.some.inj found)).elim
  · exact map_of some read

end Parley.Json.Grammar
