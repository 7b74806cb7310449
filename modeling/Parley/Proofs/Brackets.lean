import Parley.Proofs.Passing

/-! Steps of the readers through the brackets of any bytes: from one item or member to the next, and
out of the array or object. -/
namespace Parley.Json.Grammar
open Reader Utf8

variable {s t : Bytes} {first : Bool}

/-- The white space up to the next item, with the comma that the first item has not. -/
def Leading (first : Bool) (lead : Bytes) (before : Spaces) : Prop :=
  if first then lead = encode before.val
  else ∃ inside : Spaces, lead = encode inside.val ++ 0x2C :: encode before.val

theorem Leading.joined {lead : Bytes} {before : Spaces} (leading : Leading first lead before) :
    ∃ inside : Spaces, ∀ text texts rest, lead ++ (text ++ (joined false texts ++ rest)) =
      encode inside.val ++ (joined first ((encode before.val ++ text) :: texts) ++ rest) := by
  cases first with
  | true =>
    refine ⟨blank, fun text texts rest => ?_⟩
    rw [show lead = encode before.val from leading, joined_cons, encode_blank]
    simp
  | false =>
    obtain ⟨inside, rfl⟩ := leading
    exact ⟨inside, fun text texts rest => by simp [Grammar.joined]⟩

theorem joined_leading (first : Bool) (inside before : Spaces) (text : Bytes) (texts : List Bytes)
    (rest : Bytes) : ∃ lead before', Leading first lead before' ∧
      encode inside.val ++ (joined first ((encode before.val ++ text) :: texts) ++ rest) =
        lead ++ (text ++ (joined false texts ++ rest)) := by
  cases first with
  | true =>
    refine ⟨_, inside.append before, rfl, ?_⟩
    rw [joined_cons, Spaces.encode_append]
    simp
  | false =>
    refine ⟨_, before, ⟨inside, rfl⟩, ?_⟩
    simp [joined]

theorem skip_cons (b : UInt8) (s : Bytes) : skip (b :: s) = .ok ((), s) :=
  rfl

theorem moreItems_split {more : Bool} (read : moreItems first s = .ok (more, t)) :
    match more with
    | true => ∃ lead before, Leading first lead before ∧ s = lead ++ t
    | false => ∃ (inside : Spaces) (rest : Bytes),
        s = encode inside.val ++ 0x5D :: rest ∧ t = 0x5D :: rest := by
  obtain ⟨inside, u, rfl, -, taken⟩ := token_split s
  unfold moreItems at read
  rw [bind_of _ taken] at read
  generalize found : ahead u = ahead at read
  split at read
  case h_1 => cases read
  case h_2 =>
    cases read
    obtain ⟨rest, rfl⟩ := cons_of_mark found
    exact ⟨inside, rest, rfl, rfl⟩
  case h_3 c _ =>
    cases first with
    | true =>
      cases read
      exact ⟨_, inside, rfl, rfl⟩
    | false =>
      simp only [Bool.false_eq_true, if_false] at read
      split at read
      · next comma =>
        subst comma
        obtain ⟨v, rfl⟩ := cons_of_mark found
        obtain ⟨before, w, rfl, -, taken⟩ := token_split v
        rw [bind_of _ (skip_cons _ _), bind_of _ taken] at read
        generalize Grammar.ahead w = ahead at read
        split at read
        case h_1 => cases read
        case h_2 => cases read
        case h_3 =>
          cases read
          exact ⟨_, before, ⟨inside, rfl⟩, by simp⟩
      · cases read

theorem moreItems_leading {lead : Bytes} {before : Spaces} (leading : Leading first lead before)
    {text : Bytes} (opens : Json.Opens text) (rest : Bytes) :
    moreItems first (lead ++ (text ++ rest)) = .ok (true, text ++ rest) := by
  obtain ⟨b, bs, rfl, space, close⟩ := Opens.byte opens
  unfold moreItems
  cases first with
  | true =>
    rw [show lead = encode before.val from leading, List.cons_append,
      bind_of _ (token_byte before space rfl _)]
    generalize Char.ofUInt8 b = c at close
    simp only [if_true]
    rfl
  | false =>
    obtain ⟨inside, rfl⟩ := leading
    have token' := token_byte before space rfl (bs ++ rest)
    rw [List.append_assoc, List.cons_append, bind_of _ (token_byte inside (c := ',') rfl rfl _)]
    generalize Char.ofUInt8 b = c at close token'
    change (skip >>= _) (0x2C :: (encode before.val ++ b :: (bs ++ rest))) = _
    rw [bind_of _ (skip_cons _ _), bind_of _ token']
    simp only
    rfl

theorem moreItems_bracket (inside : Spaces) (rest : Bytes) :
    moreItems first (encode inside.val ++ 0x5D :: rest) = .ok (false, 0x5D :: rest) := by
  unfold moreItems
  rw [bind_of _ (token_byte inside (c := ']') rfl rfl rest)]
  rfl

theorem name_bytes {name : Option String} (found : ahead s = some '"')
    (read : (do skip; some <$> string : Reader (Option String)) s = .ok (name, t)) :
    ∃ q : Quoted, s = encode q.chars ++ t ∧ name = some q.value := by
  obtain ⟨v, rfl⟩ := cons_of_mark found
  obtain ⟨_, w, skipped, read⟩ := ok_of_bind read
  cases skipped
  obtain ⟨name, inner, rfl⟩ := ok_of_map read
  obtain ⟨q, split, rfl⟩ := string_bytes.mp inner
  exact ⟨q, split, rfl⟩

theorem nextName?_split {name : Option String} (read : nextName? first s = .ok (name, t)) :
    match name with
    | some name => ∃ (lead : Bytes) (before : Spaces) (q : Quoted),
        Leading first lead before ∧ s = lead ++ (encode q.chars ++ t) ∧ name = q.value
    | none => ∃ (inside : Spaces) (rest : Bytes),
        s = encode inside.val ++ 0x7D :: rest ∧ t = 0x7D :: rest := by
  obtain ⟨inside, u, rfl, -, taken⟩ := token_split s
  unfold nextName? at read
  rw [bind_of _ taken] at read
  generalize found : ahead u = ahead at read
  split at read
  case h_1 => cases read
  case h_2 =>
    cases read
    obtain ⟨rest, rfl⟩ := cons_of_mark found
    exact ⟨inside, rest, rfl, rfl⟩
  case h_3 c _ =>
    cases first with
    | true =>
      simp only [if_true] at read
      split at read
      · next quote =>
        subst quote
        obtain ⟨q, rfl, rfl⟩ := name_bytes found read
        exact ⟨_, inside, q, rfl, rfl, rfl⟩
      · cases read
    | false =>
      simp only [Bool.false_eq_true, if_false] at read
      split at read
      · next comma =>
        subst comma
        obtain ⟨v, rfl⟩ := cons_of_mark found
        obtain ⟨before, w, rfl, -, taken⟩ := token_split v
        rw [bind_of _ (skip_cons _ _), bind_of _ taken] at read
        generalize found : Grammar.ahead w = ahead at read
        split at read
        case h_1 => cases read
        case h_2 =>
          obtain ⟨q, rfl, rfl⟩ := name_bytes found read
          exact ⟨_, before, q, ⟨inside, rfl⟩, by simp, rfl⟩
        case h_3 => cases read
        case h_4 => cases read
      · cases read

theorem nextName?_leading {lead : Bytes} {before : Spaces} (leading : Leading first lead before)
    (q : Quoted) (rest : Bytes) :
    nextName? first (lead ++ (encode q.chars ++ rest)) = .ok (some q.value, rest) := by
  have name : (do skip; some <$> string : Reader (Option String))
      (0x22 :: (encode (q.inside ++ ['"']) ++ rest)) = .ok (some q.value, rest) :=
    map_of some (string_quoted q rest)
  unfold nextName?
  rw [quoted_bytes]
  cases first with
  | true =>
    rw [show lead = encode before.val from leading]
    exact (bind_of _ (token_byte before (c := '"') rfl rfl _)).trans name
  | false =>
    obtain ⟨inside, rfl⟩ := leading
    rw [List.append_assoc, List.cons_append, bind_of _ (token_byte inside (c := ',') rfl rfl _)]
    change (skip >>= _) (0x2C :: (encode before.val ++ _)) = _
    rw [bind_of _ (skip_cons _ _)]
    exact (bind_of _ (token_byte before (c := '"') rfl rfl _)).trans name

theorem nextName?_brace (inside : Spaces) (rest : Bytes) :
    nextName? first (encode inside.val ++ 0x7D :: rest) = .ok (none, 0x7D :: rest) := by
  unfold nextName?
  rw [bind_of _ (token_byte inside (c := '\x7d') rfl rfl rest)]
  rfl

theorem closeArray_iff : closeArray s = .ok ((), t) ↔
    ∃ inside : Spaces, s = encode inside.val ++ 0x5D :: t := by
  constructor
  · intro read
    obtain ⟨inside, u, rfl, -, taken⟩ := token_split s
    unfold closeArray at read
    rw [bind_of _ taken] at read
    generalize found : ahead u = ahead at read
    split at read
    · cases read
    · obtain ⟨v, rfl⟩ := cons_of_mark found
      cases read
      exact ⟨inside, rfl⟩
    · obtain ⟨_, v, -, read⟩ := ok_of_bind read
      obtain ⟨_, w, -, read⟩ := ok_of_bind read
      split at read <;> cases read
    · cases read
  · rintro ⟨inside, rfl⟩
    unfold closeArray
    rw [bind_of _ (token_byte inside (c := ']') rfl rfl t)]
    rfl

theorem closeObject_brace (t : Bytes) : closeObject (0x7D :: t) = .ok ((), t) :=
  rfl

end Parley.Json.Grammar
