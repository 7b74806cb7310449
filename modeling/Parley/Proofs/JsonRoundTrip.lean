import Mathlib.Tactic.IntervalCases
import Parley.Proofs.Reading

/-! Reading undoes writing: a value is read back from its text, whatever follows it there. -/
namespace Parley.Json
open Reader Utf8

/-- A value without fractions, its numbers in a 64-bit word and at most `depth` brackets open at
once. -/
inductive Readable : Nat → Json → Prop
  | null (depth : Nat) : Readable depth .null
  | bool (depth : Nat) (b : Bool) : Readable depth (.bool b)
  | int {n : Int} (depth : Nat) (low : -0x8000000000000000 ≤ n) (high : n < wordLimit) :
    Readable depth (.int n)
  | str (depth : Nat) (s : String) : Readable depth (.str s)
  | arr {depth : Nat} {items : List Json} (all : ∀ j ∈ items, Readable depth j) :
    Readable (depth + 1) (.arr items)
  | obj {depth : Nat} {members : List (String × Json)} (all : ∀ m ∈ members, Readable depth m.2) :
    Readable (depth + 1) (.obj members)

section leaves

variable (fuel depth : Nat) (rest : Bytes)

theorem encode_quoted (s : List Char) :
    encode (quoted s) ++ rest = 0x22 :: (encode (s.flatMap escapeChar) ++ 0x22 :: rest) := by
  rw [quoted, List.cons_append, encode_cons, encode_append, List.append_assoc, List.append_assoc]
  rfl

theorem value_null : value (fuel + 1) depth (encode (chars .null) ++ rest) = .ok (.null, rest) := by
  rw [value.eq_def, chars]
  rfl

theorem value_bool (b : Bool) :
    value (fuel + 1) depth (encode (chars (.bool b)) ++ rest) = .ok (.bool b, rest) := by
  rw [value.eq_def]
  cases b with
  | true => rw [chars]; rfl
  | false => rw [chars]; rfl

theorem value_quote : value (fuel + 1) depth (0x22 :: rest) = (.str <$> string) rest := by
  rw [value.eq_def]
  rfl

theorem value_minus : value (fuel + 1) depth (0x2D :: rest) = number true rest := by
  rw [value.eq_def]
  rfl

theorem value_bracket :
    value (fuel + 1) (depth + 1) (0x5B :: rest) =
      (do let xs ← items fuel depth true; closeArray; pure (.arr xs) : Reader Json) rest := by
  rw [value.eq_def]
  rfl

theorem value_brace :
    value (fuel + 1) (depth + 1) (0x7B :: rest) =
      (do let ms ← members fuel depth true; closeObject; pure (.obj ms) : Reader Json) rest := by
  rw [value.eq_def]
  rfl

theorem value_digit {b : UInt8} (digit : isDigit b = true) :
    value (fuel + 1) depth (b :: rest) = number false (b :: rest) := by
  have range : 0x30 ≤ b.toNat ∧ b.toNat ≤ 0x39 := by
    simpa [isDigit, UInt8.le_iff_toNat_le] using digit
  rw [← UInt8.ofNat_toNat (x := b), value.eq_def]
  generalize b.toNat = n at range
  obtain ⟨low, high⟩ := range
  interval_cases n <;> rfl

theorem value_str (s : String) :
    value (fuel + 1) depth (encode (chars (.str s)) ++ rest) = .ok (.str s, rest) := by
  rw [chars, encode_quoted, value_quote]
  exact map_of Json.str (string_escaped s rest)

theorem value_int {n : Int} (low : -0x8000000000000000 ≤ n) (high : n < wordLimit)
    (ends : Ends rest) :
    value (fuel + 1) depth (encode (chars (.int n)) ++ rest) = .ok (.int n, rest) := by
  have limit : wordLimit = 0x10000000000000000 := rfl
  have small : n.natAbs < wordLimit := by omega
  rw [chars, Decimal.intText]
  split
  · next negative =>
    have whole : wholeNumber true n.natAbs = .int n := by
      simp only [wholeNumber, Bool.not_true, Bool.false_eq_true, if_false]
      rw [if_pos (by omega), show -(n.natAbs : Int) = n by omega]
    rw [← whole]
    exact (value_minus fuel depth _).trans (number_natText true small ends)
  · next natural =>
    have whole : wholeNumber false n.natAbs = .int n := by
      simp only [wholeNumber, Bool.not_false, if_true]
      rw [Int.natAbs_of_nonneg (by omega)]
    obtain ⟨d, bytes, split, digit⟩ := encode_natText n.natAbs
    have read := number_natText false small ends
    rw [split, List.cons_append] at read ⊢
    rw [value_digit fuel depth _ (digitByte digit).isDigit, read, whole]

end leaves

/-- A text that does not close the array it stands in. -/
inductive Opens : Bytes → Prop
  | intro {b : UInt8} {s : Bytes} (space : isSpace b = false) (close : Char.ofUInt8 b ≠ ']') :
    Opens (b :: s)

theorem opens_digit {d : Char} (digit : d.isDigit = true) (s : Bytes) :
    Opens (.ofNat d.toNat :: s) := by
  have byte := digitByte digit
  refine .intro byte.space ?_
  rw [byte.char]
  rintro rfl
  exact absurd digit (by decide)

theorem Readable.opens {depth : Nat} {j : Json} (readable : j.Readable depth) (rest : Bytes) :
    Opens (encode (chars j) ++ rest) := by
  cases readable with
  | null => rw [chars]; exact .intro rfl (by decide)
  | bool _ b => cases b <;> (rw [chars]; exact .intro rfl (by decide))
  | @int n _ low high =>
    rw [chars, Decimal.intText]
    split
    · exact .intro rfl (by decide)
    · obtain ⟨d, bytes, split, digit⟩ := encode_natText n.natAbs
      rw [split]
      exact opens_digit digit _
  | str _ s => rw [chars]; exact .intro rfl (by decide)
  | @arr _ items all => cases items <;> (rw [chars]; exact .intro rfl (by decide))
  | @obj _ members all => cases members <;> (rw [chars]; exact .intro rfl (by decide))

section punctuation

variable {s : Bytes}

theorem token_of_opens (opens : Opens s) : ∃ c, token s = .ok (some c, s) ∧ c ≠ ']' := by
  obtain ⟨space, close⟩ := opens
  refine ⟨_, ?_, close⟩
  simp [token, space]

theorem moreItems_first (opens : Opens s) : moreItems true s = .ok (true, s) := by
  obtain ⟨c, ahead, close⟩ := token_of_opens opens
  unfold moreItems
  rw [bind_of _ ahead]
  simp only [if_true]
  rfl

theorem moreItems_comma (opens : Opens s) : moreItems false (0x2C :: s) = .ok (true, s) := by
  obtain ⟨c, ahead, close⟩ := token_of_opens opens
  have comma : token (0x2C :: s) = .ok (some ',', 0x2C :: s) := rfl
  have taken : skip (0x2C :: s) = .ok ((), s) := rfl
  unfold moreItems
  rw [bind_of _ comma]
  change (skip >>= _) (0x2C :: s) = .ok (true, s)
  rw [bind_of _ taken, bind_of _ ahead]
  simp only
  rfl

theorem nextName_first (name : String) (s : Bytes) :
    nextName? true (encode (quoted name.toList) ++ s) = .ok (some name, s) := by
  have opened : ∀ t, nextName? true (0x22 :: t) = (some <$> string) t := fun _ => rfl
  rw [encode_quoted, opened, map_of some (string_escaped name s)]

theorem nextName_comma (name : String) (s : Bytes) :
    nextName? false (0x2C :: (encode (quoted name.toList) ++ s)) = .ok (some name, s) := by
  have opened : ∀ t, nextName? false (0x2C :: 0x22 :: t) = (some <$> string) t := fun _ => rfl
  rw [encode_quoted, opened, map_of some (string_escaped name s)]

theorem colon_of (s : Bytes) : colon (0x3A :: s) = .ok ((), s) :=
  rfl

end punctuation

section brackets

/-- The value is read back wherever its text stands, with twice as much fuel as the text is long. -/
def ReadsBack (depth : Nat) (j : Json) : Prop :=
  ∀ fuel rest, 2 * (chars j).length ≤ fuel → Ends rest →
    value fuel depth (encode (chars j) ++ rest) = .ok (j, rest)

variable {fuel depth : Nat} {s rest : Bytes} {j : Json}

theorem ReadsBack.leaf (written : chars j ≠ [])
    (read : ∀ fuel rest, Ends rest →
      value (fuel + 1) depth (encode (chars j) ++ rest) = .ok (j, rest)) : ReadsBack depth j := by
  intro fuel rest enough ends
  have positive := List.length_pos_iff.mpr written
  obtain ⟨fuel, rfl⟩ := Nat.exists_eq_add_of_le' (show 1 ≤ fuel by omega)
  exact read fuel rest ends

theorem encode_arr_cons (j : Json) (js : List Json) (rest : Bytes) :
    encode (chars (.arr (j :: js))) ++ rest =
      0x5B :: (encode (chars j) ++ (encode (itemChars js) ++ rest)) := by
  rw [chars, List.cons_append, encode_cons, encode_append, List.append_assoc, List.append_assoc]
  rfl

theorem encode_itemChars_cons (j : Json) (js : List Json) (rest : Bytes) :
    encode (itemChars (j :: js)) ++ rest =
      0x2C :: (encode (chars j) ++ (encode (itemChars js) ++ rest)) := by
  rw [itemChars, List.cons_append, encode_cons, encode_append, List.append_assoc,
    List.append_assoc]
  rfl

theorem ends_itemChars (items : List Json) (rest : Bytes) :
    Ends (encode (itemChars items) ++ rest) := by
  cases items with
  | nil => rw [itemChars]; exact .bracket rest
  | cons j js => rw [encode_itemChars_cons]; exact .comma _

theorem items_step {first : Bool} {js : List Json} {t u : Bytes}
    (more : moreItems first s = .ok (true, t)) (head : value fuel depth t = .ok (j, u))
    (tail : items fuel depth false u = .ok (js, rest)) :
    items (fuel + 1) depth first s = .ok (j :: js, rest) := by
  rw [items, bind_of _ more]
  simp only [if_true]
  rw [bind_of _ head, bind_of _ tail]
  rfl

theorem items_itemChars {js : List Json} (opens : ∀ j ∈ js, Readable depth j)
    (read : ∀ j ∈ js, ReadsBack depth j) (enough : 2 * (itemChars js).length ≤ fuel) :
    items fuel depth false (encode (itemChars js) ++ rest) = .ok (js, 0x5D :: rest) := by
  induction js generalizing fuel with
  | nil =>
    cases fuel with
    | zero => exact absurd enough (by simp [itemChars])
    | succ fuel => rw [itemChars]; rfl
  | cons j js ih =>
    simp only [itemChars, List.length_cons, List.length_append] at enough
    obtain ⟨fuel, rfl⟩ := Nat.exists_eq_add_of_le' (show 1 ≤ fuel by omega)
    rw [encode_itemChars_cons]
    apply items_step
    · exact moreItems_comma ((opens j List.mem_cons_self).opens _)
    · exact read j List.mem_cons_self fuel _ (by omega) (ends_itemChars js rest)
    · apply ih
      · exact fun k member => opens k (List.mem_cons_of_mem j member)
      · exact fun k member => read k (List.mem_cons_of_mem j member)
      · omega

/-- The items of an array, behind its opening bracket. -/
theorem items_arr {js : List Json} (opens : ∀ j ∈ js, Readable depth j)
    (read : ∀ j ∈ js, ReadsBack depth j) (enough : 2 * (chars (.arr js)).length ≤ fuel + 1)
    (rest : Bytes) :
    ∃ inside, encode (chars (.arr js)) ++ rest = 0x5B :: inside ∧
      items fuel depth true inside = .ok (js, 0x5D :: rest) := by
  cases js with
  | nil =>
    simp only [chars, List.length_cons, List.length_nil] at enough
    obtain ⟨fuel, rfl⟩ := Nat.exists_eq_add_of_le' (show 1 ≤ fuel by omega)
    refine ⟨0x5D :: rest, ?_, rfl⟩
    rw [chars]
    rfl
  | cons j js =>
    simp only [chars, List.length_cons, List.length_append] at enough
    obtain ⟨fuel, rfl⟩ := Nat.exists_eq_add_of_le' (show 1 ≤ fuel by omega)
    refine ⟨_, encode_arr_cons j js rest, ?_⟩
    apply items_step
    · exact moreItems_first ((opens j List.mem_cons_self).opens _)
    · exact read j List.mem_cons_self fuel _ (by omega) (ends_itemChars js rest)
    · apply items_itemChars
      · exact fun k member => opens k (List.mem_cons_of_mem j member)
      · exact fun k member => read k (List.mem_cons_of_mem j member)
      · omega

theorem value_arr {js : List Json} (opens : ∀ j ∈ js, Readable depth j)
    (read : ∀ j ∈ js, ReadsBack depth j) (written : chars (.arr js) ≠ []) :
    ReadsBack (depth + 1) (.arr js) := by
  intro fuel rest enough _
  have positive := List.length_pos_iff.mpr written
  obtain ⟨fuel, rfl⟩ := Nat.exists_eq_add_of_le' (show 1 ≤ fuel by omega)
  obtain ⟨inside, split, within⟩ := items_arr opens read enough rest
  rw [split, value_bracket, bind_of _ within]
  rfl

theorem encode_member (name : String) (j : Json) (tail : List Char) (rest : Bytes) :
    encode (quoted name.toList ++ ':' :: chars j ++ tail) ++ rest =
      encode (quoted name.toList) ++ (0x3A :: (encode (chars j) ++ (encode tail ++ rest))) := by
  rw [List.append_assoc, encode_append, List.append_assoc, List.cons_append, encode_cons,
    encode_append, List.append_assoc, List.append_assoc]
  rfl

theorem encode_obj_cons (name : String) (j : Json) (ms : List (String × Json)) (rest : Bytes) :
    encode (chars (.obj ((name, j) :: ms))) ++ rest =
      0x7B :: (encode (quoted name.toList)
        ++ (0x3A :: (encode (chars j) ++ (encode (memberChars ms) ++ rest)))) := by
  rw [chars, ← encode_member, List.cons_append, List.cons_append, encode_cons, List.append_assoc]
  rfl

theorem encode_memberChars_cons (name : String) (j : Json) (ms : List (String × Json))
    (rest : Bytes) :
    encode (memberChars ((name, j) :: ms)) ++ rest =
      0x2C :: (encode (quoted name.toList)
        ++ (0x3A :: (encode (chars j) ++ (encode (memberChars ms) ++ rest)))) := by
  rw [memberChars, ← encode_member, List.cons_append, List.cons_append, encode_cons, List.append_assoc]
  rfl

theorem ends_memberChars (ms : List (String × Json)) (rest : Bytes) :
    Ends (encode (memberChars ms) ++ rest) := by
  cases ms with
  | nil => rw [memberChars]; exact .brace rest
  | cons m ms => rw [encode_memberChars_cons]; exact .comma _

theorem members_step {first : Bool} {name : String} {ms : List (String × Json)} {t u v : Bytes}
    (more : nextName? first s = .ok (some name, t)) (parted : colon t = .ok ((), u))
    (head : value fuel depth u = .ok (j, v)) (tail : members fuel depth false v = .ok (ms, rest)) :
    members (fuel + 1) depth first s = .ok ((name, j) :: ms, rest) := by
  rw [members, bind_of _ more]
  dsimp only
  rw [bind_of _ parted, bind_of _ head, bind_of _ tail]
  rfl

theorem members_memberChars {ms : List (String × Json)} (read : ∀ m ∈ ms, ReadsBack depth m.2)
    (enough : 2 * (memberChars ms).length ≤ fuel) :
    members fuel depth false (encode (memberChars ms) ++ rest) = .ok (ms, 0x7D :: rest) := by
  induction ms generalizing fuel with
  | nil =>
    cases fuel with
    | zero => exact absurd enough (by simp [memberChars])
    | succ fuel => rw [memberChars]; rfl
  | cons m ms ih =>
    obtain ⟨name, j⟩ := m
    simp only [memberChars, List.length_cons, List.length_append] at enough
    obtain ⟨fuel, rfl⟩ := Nat.exists_eq_add_of_le' (show 1 ≤ fuel by omega)
    rw [encode_memberChars_cons]
    apply members_step
    · exact nextName_comma name _
    · exact colon_of _
    · exact read (name, j) List.mem_cons_self fuel _ (by dsimp only; omega) (ends_memberChars ms rest)
    · apply ih
      · exact fun m member => read m (List.mem_cons_of_mem _ member)
      · omega

theorem value_obj {ms : List (String × Json)} (read : ∀ m ∈ ms, ReadsBack depth m.2) :
    ReadsBack (depth + 1) (.obj ms) := by
  intro fuel rest enough _
  cases ms with
  | nil =>
    obtain ⟨fuel, rfl⟩ := Nat.exists_eq_add_of_le' (show 2 ≤ fuel by
      simp only [chars, List.length_cons] at enough; omega)
    rw [chars]
    exact value_brace (fuel + 1) depth _
  | cons m ms =>
    obtain ⟨name, j⟩ := m
    simp only [chars, List.length_cons, List.length_append] at enough
    obtain ⟨fuel, rfl⟩ := Nat.exists_eq_add_of_le' (show 2 ≤ fuel by omega)
    have inside : members (fuel + 1) depth true (encode (quoted name.toList)
        ++ (0x3A :: (encode (chars j) ++ (encode (memberChars ms) ++ rest)))) =
        .ok ((name, j) :: ms, 0x7D :: rest) := by
      apply members_step
      · exact nextName_first name _
      · exact colon_of _
      · exact read (name, j) List.mem_cons_self fuel _ (by dsimp only; omega) (ends_memberChars ms rest)
      · apply members_memberChars
        · exact fun m member => read m (List.mem_cons_of_mem _ member)
        · omega
    rw [encode_obj_cons, value_brace, bind_of _ inside]
    rfl

end brackets

theorem Readable.chars_ne_nil {depth : Nat} {j : Json} (readable : j.Readable depth) :
    chars j ≠ [] := by
  intro empty
  have opens := readable.opens []
  rw [empty] at opens
  cases opens

theorem Readable.readsBack {depth : Nat} {j : Json} (readable : j.Readable depth) :
    ReadsBack depth j := by
  have written := readable.chars_ne_nil
  induction readable with
  | null depth => exact .leaf written fun fuel rest _ => value_null fuel depth rest
  | bool depth b => exact .leaf written fun fuel rest _ => value_bool fuel depth rest b
  | int depth low high =>
    exact .leaf written fun fuel rest ends => value_int fuel depth rest low high ends
  | str depth s => exact .leaf written fun fuel rest _ => value_str fuel depth rest s
  | arr all ih => exact value_arr all (fun j member => ih j member (all j member).chars_ne_nil) written
  | obj all ih => exact value_obj fun m member => ih m member (all m member).chars_ne_nil

theorem parse_render {j : Json} (readable : j.Readable depthLimit) : parse j.render = .ok j := by
  have enough : 2 * (chars j).length ≤ fuelFor (encode (chars j)) := by
    have length := length_le_encode (chars j)
    unfold fuelFor
    omega
  have whole := readable.readsBack _ [] enough .nothing
  have done : finish [] = .ok ((), []) := rfl
  rw [List.append_nil] at whole
  unfold parse read StateT.run' ofString render
  rw [String.toList_ofList, bind_of _ whole, bind_of _ done]
  rfl

theorem render_injective {i j : Json} (left : i.Readable depthLimit) (right : j.Readable depthLimit)
    (same : i.render = j.render) : i = j := by
  have read := parse_render left
  rw [same, parse_render right] at read
  exact (Except.ok.inj read).symm

end Parley.Json
