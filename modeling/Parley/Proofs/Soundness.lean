import Parley.Proofs.Numerals
import Parley.Proofs.Spellings

/-! What the reader takes is a text of the grammar, and stands for what the reader makes of it. -/
namespace Parley.Json.Grammar
open Reader Utf8

section monad

variable {α β : Type} {x : Reader α} {f : α → Reader β} {s t : Bytes} {b : β}

theorem ok_of_bind (read : (x >>= f) s = .ok (b, t)) :
    ∃ a u, x s = .ok (a, u) ∧ f a u = .ok (b, t) := by
  cases first : x s with
  | error e =>
    change (x s >>= fun p => f p.1 p.2) = _ at read
    rw [first] at read
    cases read
  | ok r => exact ⟨r.1, r.2, rfl, by rwa [bind_of f first] at read⟩

theorem ok_of_map {g : α → β} (read : (g <$> x) s = .ok (b, t)) :
    ∃ a, x s = .ok (a, t) ∧ g a = b := by
  obtain ⟨a, u, first, rest⟩ := ok_of_bind (f := fun a => pure (g a)) read
  cases rest
  exact ⟨a, first, rfl⟩

end monad

/-- Separated texts, with a comma before the first too unless they come first. -/
def listed (first : Bool) (texts : List (List Char)) : List Char :=
  if first then separated texts else texts.flatMap fun text => ',' :: text

theorem separated_cons (text : List Char) (texts : List (List Char)) :
    separated (text :: texts) = text ++ listed false texts := by
  induction texts generalizing text with
  | nil => simp [separated, listed]
  | cons next texts ih =>
    have rest := ih next
    unfold separated listed at rest ⊢
    rw [List.intercalate_cons_cons, rest]
    simp

/-- A value was taken off the front of the text. -/
def TakesValue (depth : Nat) (cs : List Char) (j : Json) (t : Bytes) : Prop :=
  ∃ (before : Spaces) (text rest : List Char), cs = before.val ++ (text ++ rest) ∧
    Spells depth text j ∧ t = encode rest

/-- Items were taken, up to the bracket that closes the array. -/
def TakesItems (depth : Nat) (first : Bool) (cs : List Char) (js : List Json) (t : Bytes) : Prop :=
  ∃ (inside : Spaces) (is : List Item) (rest : List Char),
    cs = inside.val ++ (listed first (is.map Item.chars) ++ ']' :: rest) ∧
    (∀ i ∈ is, Spells depth i.text i.value) ∧ is.map Item.value = js ∧ t = encode (']' :: rest)

/-- Members were taken, up to the brace that closes the object. -/
def TakesMembers (depth : Nat) (first : Bool) (cs : List Char) (ms : List (String × Json))
    (t : Bytes) : Prop :=
  ∃ (inside : Spaces) (is : List Member) (rest : List Char),
    cs = inside.val ++ (listed first (is.map Member.chars) ++ '\x7d' :: rest) ∧
    (∀ m ∈ is, Spells depth m.item.text m.item.value) ∧
    is.map (fun m => (m.name.value, m.item.value)) = ms ∧ t = encode ('\x7d' :: rest)

variable {fuel depth : Nat} {first : Bool} {cs : List Char} {j : Json} {js : List Json}
  {ms : List (String × Json)} {t : Bytes}

theorem literal_sound {c : Char} {ls : List Char} {meant : Json}
    (ascii : (c :: ls).all (·.toNat < 0x80)) (found : ahead (encode cs) = some c)
    (read : (do skip; literal ls; pure meant : Reader Json) (encode cs) = .ok (j, t)) :
    ∃ rest, cs = c :: ls ++ rest ∧ meant = j ∧ t = encode rest := by
  simp only [List.all_eq_true, decide_eq_true_eq] at ascii
  obtain ⟨first, behind⟩ := List.forall_mem_cons.mp ascii
  obtain ⟨rest, rfl⟩ := ahead_some found first
  rw [bind_of _ (skip_ascii first _)] at read
  obtain ⟨_, u, letters, done⟩ := ok_of_bind read
  obtain ⟨rest, rfl, rfl⟩ := (literal_iff behind).mp letters
  cases done
  exact ⟨rest, rfl, rfl, rfl⟩

theorem array_sound
    (items : ∀ js t, items fuel depth true (encode cs) = .ok (js, t) →
      TakesItems depth true cs js t)
    (read : (do let js ← Json.items fuel depth true; closeArray; pure (.arr js) : Reader Json)
      (encode cs) = .ok (j, t)) :
    ∃ text rest, '[' :: cs = text ++ rest ∧ Spells (depth + 1) text j ∧ t = encode rest := by
  obtain ⟨js, u, inner, read⟩ := ok_of_bind read
  obtain ⟨inside, is, rest, rfl, all, rfl, rfl⟩ := items _ _ inner
  have closed : closeArray (encode (']' :: rest)) = .ok ((), encode rest) := rfl
  rw [bind_of _ closed] at read
  cases read
  exact ⟨_, rest, by simp [listed], .arr inside all, rfl⟩

theorem object_sound
    (members : ∀ ms t, members fuel depth true (encode cs) = .ok (ms, t) →
      TakesMembers depth true cs ms t)
    (read : (do let ms ← Json.members fuel depth true; closeObject; pure (.obj ms) : Reader Json)
      (encode cs) = .ok (j, t)) :
    ∃ text rest, '\x7b' :: cs = text ++ rest ∧ Spells (depth + 1) text j ∧ t = encode rest := by
  obtain ⟨ms, u, inner, read⟩ := ok_of_bind read
  obtain ⟨inside, is, rest, rfl, all, rfl, rfl⟩ := members _ _ inner
  have closed : closeObject (encode ('\x7d' :: rest)) = .ok ((), encode rest) := rfl
  rw [bind_of _ closed] at read
  cases read
  exact ⟨_, rest, by simp [listed], .obj inside all, rfl⟩

/-- One case for each character that a value may begin with. -/
theorem value_sound
    (items : ∀ depth cs js t, items fuel depth true (encode cs) = .ok (js, t) →
      TakesItems depth true cs js t)
    (members : ∀ depth cs ms t, members fuel depth true (encode cs) = .ok (ms, t) →
      TakesMembers depth true cs ms t)
    (read : value (fuel + 1) depth (encode cs) = .ok (j, t)) : TakesValue depth cs j t := by
  obtain ⟨before, behind, rfl, dropped⟩ := split_spaces cs
  suffices taken : ∃ text rest, behind = text ++ rest ∧ Spells depth text j ∧ t = encode rest by
    obtain ⟨text, rest, rfl, spells, same⟩ := taken
    exact ⟨before, text, rest, rfl, spells, same⟩
  rw [value.eq_def] at read
  dsimp only at read
  rw [bind_of _ (token_encode _), dropped] at read
  generalize found : ahead (encode behind) = first at read
  split at read
  case h_1 => cases read
  case h_2 =>
    obtain ⟨rest, rfl, rfl, same⟩ := literal_sound (by decide) found read
    exact ⟨_, rest, rfl, .null depth, same⟩
  case h_3 =>
    obtain ⟨rest, rfl, rfl, same⟩ := literal_sound (by decide) found read
    exact ⟨_, rest, rfl, .true depth, same⟩
  case h_4 =>
    obtain ⟨rest, rfl, rfl, same⟩ := literal_sound (by decide) found read
    exact ⟨_, rest, rfl, .false depth, same⟩
  case h_5 =>
    obtain ⟨behind, rfl⟩ := ahead_some found (by decide)
    rw [bind_of _ (skip_ascii (by decide) _)] at read
    obtain ⟨n, rest, negative, rfl, value, same⟩ := number_sound read
    refine ⟨n.chars, rest, ?_, .number depth n value, same⟩
    rw [Numeral.chars, if_pos negative, List.cons_append]
  case h_6 =>
    obtain ⟨behind, rfl⟩ := ahead_some found (by decide)
    rw [bind_of _ (skip_ascii (by decide) _)] at read
    obtain ⟨name, inner, rfl⟩ := ok_of_map read
    obtain ⟨q, rest, split, rfl, same⟩ := string_iff.mp inner
    exact ⟨q.chars, rest, split, .str depth q, same⟩
  case h_7 =>
    obtain ⟨behind, rfl⟩ := ahead_some found (by decide)
    cases depth with
    | zero => cases read
    | succ depth =>
      dsimp only at read
      rw [bind_of _ (skip_ascii (by decide) _)] at read
      exact array_sound (items depth _) read
  case h_8 =>
    obtain ⟨behind, rfl⟩ := ahead_some found (by decide)
    cases depth with
    | zero => cases read
    | succ depth =>
      dsimp only at read
      rw [bind_of _ (skip_ascii (by decide) _)] at read
      exact object_sound (members depth _) read
  case h_9 c _ _ _ _ _ _ _ =>
    split at read
    · obtain ⟨n, rest, positive, rfl, value, same⟩ := number_sound read
      refine ⟨n.chars, rest, ?_, .number depth n value, same⟩
      rw [Numeral.chars, if_neg (by simp [positive])]
    · cases read

/-- The white space up to the next item, with the comma that the first item has not. -/
def Leads (first : Bool) (lead : List Char) (before : Spaces) : Prop :=
  if first then lead = before.val else ∃ inside : Spaces, lead = inside.val ++ ',' :: before.val

theorem Leads.listed {lead : List Char} {before : Spaces} (leads : Leads first lead before) :
    ∃ inside : Spaces, ∀ text texts rest, lead ++ (text ++ (listed false texts ++ rest)) =
      inside.val ++ (listed first ((before.val ++ text) :: texts) ++ rest) := by
  cases first with
  | true =>
    refine ⟨⟨[], List.forall_mem_nil _⟩, fun text texts rest => ?_⟩
    rw [show lead = before.val from leads, show Grammar.listed true = separated from rfl,
      separated_cons]
    simp
  | false =>
    obtain ⟨inside, rfl⟩ := leads
    exact ⟨inside, fun text texts rest => by simp [Grammar.listed]⟩

theorem moreItems_sound {more : Bool} (read : moreItems first (encode cs) = .ok (more, t)) :
    match more with
    | true => ∃ lead before rest, Leads first lead before ∧ cs = lead ++ rest ∧ t = encode rest
    | false => ∃ (inside : Spaces) (rest : List Char),
        cs = inside.val ++ ']' :: rest ∧ t = encode (']' :: rest) := by
  obtain ⟨inside, behind, rfl, dropped⟩ := split_spaces cs
  unfold moreItems at read
  rw [bind_of _ (token_encode _), dropped] at read
  generalize found : ahead (encode behind) = ahead at read
  split at read
  case h_1 => cases read
  case h_2 =>
    cases read
    obtain ⟨rest, rfl⟩ := ahead_some found (by decide)
    exact ⟨inside, rest, rfl, rfl⟩
  case h_3 c _ =>
    cases first with
    | true =>
      cases read
      exact ⟨inside.val, inside, behind, rfl, rfl, rfl⟩
    | false =>
      simp only [Bool.false_eq_true, if_false] at read
      split at read
      · next comma =>
        subst comma
        obtain ⟨behind, rfl⟩ := ahead_some found (by decide)
        obtain ⟨before, rest, rfl, dropped⟩ := split_spaces behind
        rw [bind_of _ (skip_ascii (by decide) _), bind_of _ (token_encode _), dropped] at read
        generalize ahead (encode rest) = ahead at read
        split at read
        case h_1 => cases read
        case h_2 => cases read
        case h_3 =>
          cases read
          exact ⟨inside.val ++ ',' :: before.val, before, rest, ⟨inside, rfl⟩, by simp, rfl⟩
      · cases read

theorem string_sound {name : Option String} (found : ahead (encode cs) = some '"')
    (read : (do skip; some <$> string : Reader (Option String)) (encode cs) = .ok (name, t)) :
    ∃ (q : Quoted) (rest : List Char), cs = q.chars ++ rest ∧ name = some q.value ∧
      t = encode rest := by
  obtain ⟨behind, rfl⟩ := ahead_some found (by decide)
  rw [bind_of _ (skip_ascii (by decide) _)] at read
  obtain ⟨name, inner, rfl⟩ := ok_of_map read
  obtain ⟨q, rest, split, rfl, same⟩ := string_iff.mp inner
  exact ⟨q, rest, split, rfl, same⟩

theorem nextName?_sound {name : Option String}
    (read : nextName? first (encode cs) = .ok (name, t)) :
    match name with
    | some name => ∃ (lead : List Char) (before : Spaces) (q : Quoted) (rest : List Char),
        Leads first lead before ∧ cs = lead ++ (q.chars ++ rest) ∧ name = q.value ∧ t = encode rest
    | none => ∃ (inside : Spaces) (rest : List Char),
        cs = inside.val ++ '\x7d' :: rest ∧ t = encode ('\x7d' :: rest) := by
  obtain ⟨inside, behind, rfl, dropped⟩ := split_spaces cs
  unfold nextName? at read
  rw [bind_of _ (token_encode _), dropped] at read
  generalize found : ahead (encode behind) = ahead at read
  split at read
  case h_1 => cases read
  case h_2 =>
    cases read
    obtain ⟨rest, rfl⟩ := ahead_some found (by decide)
    exact ⟨inside, rest, rfl, rfl⟩
  case h_3 c _ =>
    cases first with
    | true =>
      simp only [if_true] at read
      split at read
      · next quote =>
        subst quote
        obtain ⟨q, rest, rfl, rfl, same⟩ := string_sound found read
        exact ⟨inside.val, inside, q, rest, rfl, rfl, rfl, same⟩
      · cases read
    | false =>
      simp only [Bool.false_eq_true, if_false] at read
      split at read
      · next comma =>
        subst comma
        obtain ⟨behind, rfl⟩ := ahead_some found (by decide)
        obtain ⟨before, rest, rfl, dropped⟩ := split_spaces behind
        rw [bind_of _ (skip_ascii (by decide) _), bind_of _ (token_encode _), dropped] at read
        generalize found : Grammar.ahead (encode rest) = ahead at read
        split at read
        case h_1 => cases read
        case h_2 =>
          obtain ⟨q, rest, rfl, rfl, same⟩ := string_sound found read
          refine ⟨inside.val ++ ',' :: before.val, before, q, rest, ⟨inside, rfl⟩, ?_, rfl, same⟩
          simp
        case h_3 => cases read
        case h_4 => cases read
      · cases read

theorem colon_sound (read : colon (encode cs) = .ok ((), t)) :
    ∃ (inside : Spaces) (rest : List Char), cs = inside.val ++ ':' :: rest ∧ t = encode rest := by
  obtain ⟨inside, behind, rfl, dropped⟩ := split_spaces cs
  unfold colon at read
  rw [bind_of _ (token_encode _), dropped] at read
  generalize found : ahead (encode behind) = ahead at read
  split at read
  case h_1 =>
    obtain ⟨rest, rfl⟩ := ahead_some found (by decide)
    rw [skip_ascii (by decide)] at read
    cases read
    exact ⟨inside, rest, rfl, rfl⟩
  case h_2 => cases read
  case h_3 => cases read

def Spaces.append (a b : Spaces) : Spaces :=
  ⟨a.val ++ b.val, List.forall_mem_append.mpr ⟨a.2, b.2⟩⟩

theorem items_sound
    (value : ∀ cs j t, value fuel depth (encode cs) = .ok (j, t) → TakesValue depth cs j t)
    (items : ∀ cs js t, items fuel depth false (encode cs) = .ok (js, t) →
      TakesItems depth false cs js t)
    (read : Json.items (fuel + 1) depth first (encode cs) = .ok (js, t)) :
    TakesItems depth first cs js t := by
  rw [Json.items] at read
  obtain ⟨more, u, begun, read⟩ := ok_of_bind read
  have next := moreItems_sound begun
  cases more with
  | false =>
    cases read
    obtain ⟨inside, rest, rfl, same⟩ := next
    refine ⟨inside, [], rest, ?_, List.forall_mem_nil _, rfl, same⟩
    cases first <;> rfl
  | true =>
    obtain ⟨lead, before, rest, leads, rfl, rfl⟩ := next
    simp only [if_true] at read
    obtain ⟨j, u, taken, read⟩ := ok_of_bind read
    obtain ⟨more, text, rest, rfl, spells, rfl⟩ := value _ _ _ taken
    obtain ⟨js', u, taken, read⟩ := ok_of_bind read
    obtain ⟨after, is, rest, rfl, all, rfl, rfl⟩ := items _ _ _ taken
    cases read
    obtain ⟨inside, same⟩ := leads.listed
    refine ⟨inside, ⟨Spaces.append before more, text, j, after⟩ :: is, rest, ?_, ?_, rfl, rfl⟩
    · simpa [Item.chars, Spaces.append] using
        same (more.val ++ (text ++ after.val)) (is.map Item.chars) (']' :: rest)
    · exact List.forall_mem_cons.mpr ⟨spells, all⟩

theorem members_sound
    (value : ∀ cs j t, value fuel depth (encode cs) = .ok (j, t) → TakesValue depth cs j t)
    (members : ∀ cs ms t, members fuel depth false (encode cs) = .ok (ms, t) →
      TakesMembers depth false cs ms t)
    (read : Json.members (fuel + 1) depth first (encode cs) = .ok (ms, t)) :
    TakesMembers depth first cs ms t := by
  rw [Json.members] at read
  obtain ⟨name, u, begun, read⟩ := ok_of_bind read
  have next := nextName?_sound begun
  cases name with
  | none =>
    cases read
    obtain ⟨inside, rest, rfl, same⟩ := next
    refine ⟨inside, [], rest, ?_, List.forall_mem_nil _, rfl, same⟩
    cases first <;> rfl
  | some name =>
    obtain ⟨lead, before, q, rest, leads, rfl, rfl, rfl⟩ := next
    dsimp only at read
    obtain ⟨_, u, taken, read⟩ := ok_of_bind read
    obtain ⟨behind, rest, rfl, rfl⟩ := colon_sound taken
    obtain ⟨j, u, taken, read⟩ := ok_of_bind read
    obtain ⟨more, text, rest, rfl, spells, rfl⟩ := value _ _ _ taken
    obtain ⟨ms', u, taken, read⟩ := ok_of_bind read
    obtain ⟨after, is, rest, rfl, all, rfl, rfl⟩ := members _ _ _ taken
    cases read
    obtain ⟨inside, same⟩ := leads.listed
    refine ⟨inside, ⟨before, q, behind, more, text, j, after⟩ :: is, rest, ?_, ?_, rfl, rfl⟩
    · simpa [Member.chars, Item.chars] using
        same (q.chars ++ (behind.val ++ ':' :: (more.val ++ (text ++ after.val))))
          (is.map Member.chars) ('\x7d' :: rest)
    · exact List.forall_mem_cons.mpr ⟨spells, all⟩

theorem reader_sound (fuel : Nat) :
    (∀ depth cs j t, value fuel depth (encode cs) = .ok (j, t) → TakesValue depth cs j t) ∧
    (∀ depth first cs js t, items fuel depth first (encode cs) = .ok (js, t) →
      TakesItems depth first cs js t) ∧
    (∀ depth first cs ms t, members fuel depth first (encode cs) = .ok (ms, t) →
      TakesMembers depth first cs ms t) := by
  induction fuel with
  | zero =>
    refine ⟨?_, ?_, ?_⟩
    · intro depth cs j t read
      rw [value.eq_def] at read
      cases read
    · intro depth first cs js t read
      rw [items] at read
      cases read
    · intro depth first cs ms t read
      rw [members] at read
      cases read
  | succ fuel ih =>
    obtain ⟨value, items, members⟩ := ih
    refine ⟨?_, ?_, ?_⟩
    · intro depth cs j t
      exact value_sound (fun depth => items depth true) (fun depth => members depth true)
    · intro depth first cs js t
      exact items_sound (value depth) (items depth false)
    · intro depth first cs ms t
      exact members_sound (value depth) (members depth false)

theorem finish_sound (read : finish (encode cs) = .ok ((), t)) :
    ∃ after : Spaces, cs = after.val := by
  obtain ⟨after, rest, rfl, dropped⟩ := split_spaces cs
  unfold finish at read
  rw [bind_of _ (token_encode _), dropped] at read
  cases found : ahead (encode rest) with
  | none =>
    obtain rfl := ahead_none found
    exact ⟨after, List.append_nil _⟩
  | some c =>
    rw [found] at read
    cases read

/-- What is read is a text of the grammar. -/
theorem isText_of_parse {raw : String} (read : parse raw = .ok j) : IsText raw.toList j := by
  unfold parse Json.read ofString StateT.run' at read
  cases whole : (do let j ← value (fuelFor (encode raw.toList)) depthLimit; finish; pure j :
      Reader Json) (encode raw.toList) with
  | error f =>
    rw [whole] at read
    cases read
  | ok r =>
    rw [whole] at read
    cases read
    obtain ⟨j, u, taken, rest⟩ := ok_of_bind whole
    obtain ⟨before, text, behind, split, spells, rfl⟩ := (reader_sound _).1 _ _ _ _ taken
    obtain ⟨_, v, finished, done⟩ := ok_of_bind rest
    obtain ⟨after, rfl⟩ := finish_sound finished
    cases done
    exact ⟨⟨before, text, _, after⟩, split.symm, rfl, spells⟩

end Parley.Json.Grammar
