import Parley.Proofs.JsonRoundTrip
import Parley.Proofs.Soundness

/-! Every text of the grammar is read, as what it stands for. -/
namespace Parley.Json.Grammar
open Reader Utf8

variable {fuel depth : Nat} {first : Bool} {text rest : List Char} {j : Json}

/-- No number goes on there. -/
def Follows (cs : List Char) : Prop :=
  ∀ c ∈ cs.head?, c.isDigit = false ∧ c ≠ '.' ∧ c ≠ 'e' ∧ c ≠ 'E'

theorem Follows.ends (follows : Follows rest) (n : Numeral) : n.EndsBefore rest where
  closed :=
    { digits := fun c first => (follows c first).1
      exponent := fun _ c first => (follows c first).2.2 }
  fraction _ _ c first := (follows c first).2.1

theorem follows_mark {c : Char} (cs : List Char) (mark : c = ',' ∨ c = ']' ∨ c = '\x7d') :
    Follows (c :: cs) := by
  intro d first
  obtain rfl := Option.some.inj first
  rcases mark with rfl | rfl | rfl <;> decide

theorem Follows.spaces (follows : Follows rest) (before : Spaces) :
    Follows (before.val ++ rest) := by
  obtain ⟨before, blank⟩ := before
  cases before with
  | nil => exact follows
  | cons c before =>
    intro d first
    obtain rfl := Option.some.inj first
    have space := blank c List.mem_cons_self
    simp only [isSpace, Bool.or_eq_true, decide_eq_true_eq] at space
    rcases space with ((rfl | rfl) | rfl) | rfl <;> decide

theorem follows_listed (texts : List (List Char)) {c : Char} (close : c = ']' ∨ c = '\x7d') :
    Follows (listed false texts ++ c :: rest) := by
  cases texts with
  | nil => exact follows_mark rest (.inr close)
  | cons text texts => exact follows_mark _ (.inl rfl)

/-- The text is not empty, and starts like a value. -/
def Opens (text : List Char) : Prop :=
  ∃ c cs, text = c :: cs ∧ c.toNat < 0x80 ∧ isSpace c = false ∧ c ≠ ']'

theorem opens_digits (ds : Digits) (cs : List Char) : Opens (ds.chars ++ cs) := by
  obtain ⟨d, rest, split, digit, ascii⟩ := ds.cons
  refine ⟨d, rest ++ cs, by rw [split]; rfl, ascii, ?_, ?_⟩
  · by_contra space
    simp only [isSpace, Bool.not_eq_false, Bool.or_eq_true, decide_eq_true_eq] at space
    rcases space with ((rfl | rfl) | rfl) | rfl <;> cases digit
  · rintro rfl
    cases digit

theorem Spells.opens (spells : Spells depth text j) : Opens text := by
  cases spells with
  | null | true | false => exact ⟨_, _, rfl, by decide⟩
  | number depth n value =>
    unfold Numeral.chars
    split
    · exact ⟨_, _, rfl, by decide⟩
    · exact opens_digits n.whole _
  | str depth q => exact ⟨_, _, rfl, by decide⟩
  | arr inside all => exact ⟨_, _, rfl, by decide⟩
  | obj inside all => exact ⟨_, _, rfl, by decide⟩

theorem Opens.append (opens : Opens text) {more : List Char} : Opens (text ++ more) := by
  obtain ⟨c, cs, rfl, rest⟩ := opens
  exact ⟨c, cs ++ more, rfl, rest⟩

theorem Opens.length (opens : Opens text) : 0 < text.length := by
  obtain ⟨c, cs, rfl, -⟩ := opens
  exact Nat.succ_pos _

theorem token_mark (inside : Spaces) {c : Char} (ascii : c.toNat < 0x80)
    (dark : isSpace c = false) (rest : List Char) :
    token (encode (inside.val ++ c :: rest)) = .ok (some c, encode (c :: rest)) := by
  have stop : ∀ d ∈ (c :: rest).head?, isSpace d = false := by
    intro d first
    obtain rfl := Option.some.inj first
    exact dark
  rw [token_encode, dropWhile_spaces inside stop, ahead_ascii ascii]

theorem value_spaces (opens : Opens text) (before : Spaces) (rest : List Char) :
    value (fuel + 1) depth (encode (before.val ++ (text ++ rest))) =
      value (fuel + 1) depth (encode (text ++ rest)) := by
  obtain ⟨c, cs, rfl, ascii, dark, -⟩ := opens
  have bare : token (encode (c :: (cs ++ rest))) = .ok (some c, encode (c :: (cs ++ rest))) :=
    token_mark ⟨[], List.forall_mem_nil _⟩ ascii dark (cs ++ rest)
  rw [value.eq_def]
  dsimp only
  rw [List.cons_append, bind_of _ (token_mark before ascii dark _), bind_of _ bare]

theorem moreItems_leads {lead : List Char} {before : Spaces} (leads : Leads first lead before)
    (opens : Opens text) (rest : List Char) :
    moreItems first (encode (lead ++ (text ++ rest))) = .ok (true, encode (text ++ rest)) := by
  obtain ⟨c, cs, rfl, ascii, dark, bracket⟩ := opens
  unfold moreItems
  cases first with
  | true =>
    rw [show lead = before.val from leads, List.cons_append,
      bind_of _ (token_mark before ascii dark _)]
    simp only [if_true]
    rfl
  | false =>
    obtain ⟨inside, rfl⟩ := leads
    rw [List.append_assoc, List.cons_append, bind_of _ (token_mark inside (by decide) rfl _)]
    change (skip >>= _) (encode (',' :: (before.val ++ c :: (cs ++ rest)))) = _
    rw [bind_of _ (skip_ascii (by decide) _), bind_of _ (token_mark before ascii dark _)]
    simp only
    rfl

theorem moreItems_close (inside : Spaces) (rest : List Char) :
    moreItems first (encode (inside.val ++ ']' :: rest)) = .ok (false, encode (']' :: rest)) := by
  unfold moreItems
  rw [bind_of _ (token_mark inside (by decide) rfl rest)]
  rfl

theorem nextName?_leads {lead : List Char} {before : Spaces} (leads : Leads first lead before)
    (q : Quoted) (rest : List Char) :
    nextName? first (encode (lead ++ (q.chars ++ rest))) = .ok (some q.value, encode rest) := by
  have name : (do skip; some <$> string : Reader (Option String)) (encode (q.chars ++ rest)) =
      .ok (some q.value, encode rest) := by
    rw [Quoted.chars, List.cons_append, bind_of _ (skip_ascii (by decide) _)]
    exact map_of some (string_iff.mpr ⟨q, rest, by simp [Quoted.chars], rfl, rfl⟩)
  unfold nextName?
  cases first with
  | true =>
    rw [show lead = before.val from leads]
    exact (bind_of _ (token_mark before (by decide) rfl _)).trans name
  | false =>
    obtain ⟨inside, rfl⟩ := leads
    rw [List.append_assoc, List.cons_append, bind_of _ (token_mark inside (by decide) rfl _)]
    change (skip >>= _) (encode (',' :: (before.val ++ (q.chars ++ rest)))) = _
    rw [bind_of _ (skip_ascii (by decide) _)]
    exact (bind_of _ (token_mark before (by decide) rfl _)).trans name

theorem nextName?_close (inside : Spaces) (rest : List Char) :
    nextName? first (encode (inside.val ++ '\x7d' :: rest)) =
      .ok (none, encode ('\x7d' :: rest)) := by
  unfold nextName?
  rw [bind_of _ (token_mark inside (by decide) rfl rest)]
  rfl

theorem colon_spaces (inside : Spaces) (rest : List Char) :
    colon (encode (inside.val ++ ':' :: rest)) = .ok ((), encode rest) := by
  unfold colon
  rw [bind_of _ (token_mark inside (by decide) rfl rest)]
  rfl

theorem listed_leads (first : Bool) (inside before : Spaces) (text : List Char)
    (texts : List (List Char)) (rest : List Char) : ∃ lead before', Leads first lead before' ∧
      inside.val ++ (listed first ((before.val ++ text) :: texts) ++ rest) =
        lead ++ (text ++ (listed false texts ++ rest)) := by
  cases first with
  | true =>
    refine ⟨_, inside.append before, rfl, ?_⟩
    rw [show listed true = separated from rfl, separated_cons]
    simp [Spaces.append]
  | false =>
    refine ⟨_, before, ⟨inside, rfl⟩, ?_⟩
    simp [listed]

theorem length_listed (first : Bool) (text : List Char) (texts : List (List Char)) :
    text.length + (listed false texts).length ≤ (listed first (text :: texts)).length := by
  cases first with
  | true => simp [show listed true = separated from rfl, separated_cons]
  | false => simp [listed]

/-- The text is read wherever it stands, with twice as much fuel as it is long. -/
def Reads (depth : Nat) (text : List Char) (j : Json) : Prop :=
  ∀ fuel (before : Spaces) rest, 2 * text.length ≤ fuel → Follows rest →
    value fuel depth (encode (before.val ++ (text ++ rest))) = .ok (j, encode rest)

theorem items_listed {is : List Item} (rest : List Char)
    (reads : ∀ i ∈ is, Opens i.text ∧ Reads depth i.text i.value) (inside : Spaces)
    (enough : 2 * (listed first (is.map Item.chars)).length < fuel) :
    items fuel depth first
        (encode (inside.val ++ (listed first (is.map Item.chars) ++ ']' :: rest))) =
      .ok (is.map Item.value, encode (']' :: rest)) := by
  induction is generalizing fuel first inside with
  | nil =>
    obtain ⟨fuel, rfl⟩ := Nat.exists_eq_add_of_le' (show 1 ≤ fuel by omega)
    have none : listed first [] = [] := by cases first <;> rfl
    rw [items, List.map_nil, none, List.nil_append, bind_of _ (moreItems_close inside rest)]
    rfl
  | cons i is ih =>
    obtain ⟨⟨opens, read⟩, others⟩ := List.forall_mem_cons.mp reads
    obtain ⟨fuel, rfl⟩ := Nat.exists_eq_add_of_le' (show 1 ≤ fuel by omega)
    have size := length_listed first i.chars (is.map Item.chars)
    have length : i.text.length ≤ i.chars.length := by simp [Item.chars]; omega
    have positive := opens.length
    rw [List.map_cons] at enough
    obtain ⟨lead, before, leads, same⟩ := listed_leads first inside i.before
      (i.text ++ i.after.val) (is.map Item.chars) (']' :: rest)
    rw [List.map_cons, Item.chars, same]
    apply items_step
    · exact moreItems_leads leads opens.append _
    · rw [List.append_assoc]
      refine read fuel ⟨[], List.forall_mem_nil _⟩ _ ?_ ?_
      · omega
      · exact (follows_listed _ (.inl rfl)).spaces i.after
    · exact ih others i.after (by omega)

theorem members_listed {is : List Member} (rest : List Char)
    (reads : ∀ m ∈ is, Opens m.item.text ∧ Reads depth m.item.text m.item.value) (inside : Spaces)
    (enough : 2 * (listed first (is.map Member.chars)).length < fuel) :
    members fuel depth first
        (encode (inside.val ++ (listed first (is.map Member.chars) ++ '\x7d' :: rest))) =
      .ok (is.map fun m => (m.name.value, m.item.value), encode ('\x7d' :: rest)) := by
  induction is generalizing fuel first inside with
  | nil =>
    obtain ⟨fuel, rfl⟩ := Nat.exists_eq_add_of_le' (show 1 ≤ fuel by omega)
    have none : listed first [] = [] := by cases first <;> rfl
    rw [members, List.map_nil, none, List.nil_append, bind_of _ (nextName?_close inside rest)]
    rfl
  | cons m is ih =>
    obtain ⟨⟨opens, read⟩, others⟩ := List.forall_mem_cons.mp reads
    obtain ⟨fuel, rfl⟩ := Nat.exists_eq_add_of_le' (show 1 ≤ fuel by omega)
    have size := length_listed first m.chars (is.map Member.chars)
    have length : m.item.text.length + 1 ≤ m.chars.length := by
      simp [Member.chars, Item.chars]
      omega
    rw [List.map_cons] at enough
    obtain ⟨lead, before, leads, same⟩ := listed_leads first inside m.before
      (m.name.chars ++ (m.after.val ++ ':' :: m.item.chars)) (is.map Member.chars) ('\x7d' :: rest)
    rw [List.map_cons, Member.chars, same, List.append_assoc, List.append_assoc, List.cons_append,
      Item.chars, List.append_assoc, List.append_assoc]
    apply members_step
    · exact nextName?_leads leads m.name _
    · exact colon_spaces m.after _
    · refine read fuel m.item.before _ ?_ ?_
      · omega
      · exact (follows_listed _ (.inr rfl)).spaces m.item.after
    · exact ih others m.item.after (by omega)

theorem Reads.leaf (opens : Opens text)
    (read : ∀ fuel rest, Follows rest →
      value (fuel + 1) depth (encode (text ++ rest)) = .ok (j, encode rest)) :
    Reads depth text j := by
  intro fuel before rest enough follows
  have positive := opens.length
  obtain ⟨fuel, rfl⟩ := Nat.exists_eq_add_of_le' (show 1 ≤ fuel by omega)
  rw [value_spaces opens]
  exact read fuel rest follows

theorem value_numeral (n : Numeral) (value : n.value? = some j) (follows : Follows rest) :
    Json.value (fuel + 1) depth (encode (n.chars ++ rest)) = .ok (j, encode rest) := by
  have read := (number_iff n (follows.ends n)).mpr ⟨value, rfl⟩
  unfold Numeral.chars
  split
  · next negative =>
    rw [negative] at read
    rw [List.cons_append, encode_ascii (by decide)]
    exact (value_minus fuel depth _).trans read
  · next positive =>
    rw [Bool.not_eq_true] at positive
    rw [positive] at read
    obtain ⟨d, ds, split, digit, ascii⟩ := n.whole.cons
    rw [Numeral.unsigned, split, List.cons_append, List.cons_append, encode_ascii ascii] at read ⊢
    rw [value_digit fuel depth _ (digitByte digit).isDigit, read]

theorem value_quoted (q : Quoted) (rest : List Char) :
    value (fuel + 1) depth (encode (q.chars ++ rest)) = .ok (.str q.value, encode rest) := by
  have read : string (encode (q.inside ++ '"' :: rest)) = .ok (q.value, encode rest) :=
    string_iff.mpr ⟨q, rest, by simp [Quoted.chars], rfl, rfl⟩
  rw [Quoted.chars, List.cons_append, List.append_assoc, encode_ascii (by decide)]
  exact (value_quote fuel depth _).trans (map_of Json.str read)

theorem reads_array (inside : Spaces) {is : List Item}
    (reads : ∀ i ∈ is, Opens i.text ∧ Reads depth i.text i.value) :
    Reads (depth + 1) ('[' :: (inside.val ++ (separated (is.map Item.chars) ++ [']'])))
      (.arr (is.map Item.value)) := by
  intro fuel before rest enough follows
  have opens : Opens ('[' :: (inside.val ++ (separated (is.map Item.chars) ++ [']']))) :=
    ⟨_, _, rfl, by decide⟩
  have positive := opens.length
  obtain ⟨fuel, rfl⟩ := Nat.exists_eq_add_of_le' (show 1 ≤ fuel by omega)
  have room : 2 * (listed true (is.map Item.chars)).length < fuel := by
    simp [listed] at enough ⊢
    omega
  have items := items_listed rest reads inside room
  have closed : closeArray (encode (']' :: rest)) = .ok ((), encode rest) := rfl
  rw [value_spaces opens, List.cons_append, encode_ascii (by decide), List.append_assoc,
    List.append_assoc]
  refine (value_bracket fuel depth _).trans ?_
  refine (bind_of _ items).trans ?_
  rw [bind_of _ closed]
  rfl

theorem reads_object (inside : Spaces) {ms : List Member}
    (reads : ∀ m ∈ ms, Opens m.item.text ∧ Reads depth m.item.text m.item.value) :
    Reads (depth + 1)
      ('\x7b' :: (inside.val ++ (separated (ms.map Member.chars) ++ ['\x7d'])))
      (.obj (ms.map fun m => (m.name.value, m.item.value))) := by
  intro fuel before rest enough follows
  have opens : Opens ('\x7b' :: (inside.val ++ (separated (ms.map Member.chars) ++ ['\x7d']))) :=
    ⟨_, _, rfl, by decide⟩
  have positive := opens.length
  obtain ⟨fuel, rfl⟩ := Nat.exists_eq_add_of_le' (show 1 ≤ fuel by omega)
  have room : 2 * (listed true (ms.map Member.chars)).length < fuel := by
    simp [listed] at enough ⊢
    omega
  have members := members_listed rest reads inside room
  have closed : closeObject (encode ('\x7d' :: rest)) = .ok ((), encode rest) := rfl
  rw [value_spaces opens, List.cons_append, encode_ascii (by decide), List.append_assoc,
    List.append_assoc]
  refine (value_brace fuel depth _).trans ?_
  refine (bind_of _ members).trans ?_
  rw [bind_of _ closed]
  rfl

theorem Spells.reads (spells : Spells depth text j) : Reads depth text j := by
  have opens := spells.opens
  induction spells with
  | null depth => exact .leaf opens fun fuel rest _ => by rw [value.eq_def]; rfl
  | true depth => exact .leaf opens fun fuel rest _ => by rw [value.eq_def]; rfl
  | false depth => exact .leaf opens fun fuel rest _ => by rw [value.eq_def]; rfl
  | number depth n value => exact .leaf opens fun fuel rest => value_numeral n value
  | str depth q => exact .leaf opens fun fuel rest _ => value_quoted q rest
  | arr inside all ih =>
    exact reads_array inside fun i member =>
      ⟨(all i member).opens, ih i member (all i member).opens⟩
  | obj inside all ih =>
    exact reads_object inside fun m member =>
      ⟨(all m member).opens, ih m member (all m member).opens⟩

theorem finish_spaces (after : Spaces) : finish (encode after.val) = .ok ((), []) := by
  have dropped : (after.val ++ []).dropWhile isSpace = [] := dropWhile_spaces after nofun
  rw [List.append_nil] at dropped
  unfold finish
  rw [bind_of _ (token_encode _), dropped]
  rfl

theorem follows_nil : Follows [] :=
  nofun

/-- Every text of the grammar is read. -/
theorem parse_of_isText {raw : String} (spelled : IsText raw.toList j) : parse raw = .ok j := by
  obtain ⟨i, same, rfl, spells⟩ := spelled
  have size : i.text.length ≤ (encode raw.toList).length := by
    have length := length_le_encode raw.toList
    rw [← same] at length ⊢
    simp [Item.chars] at length ⊢
    omega
  have taken := spells.reads (fuelFor (encode raw.toList)) i.before i.after.val
    (by unfold fuelFor; omega) (by simpa using follows_nil.spaces i.after)
  rw [show i.before.val ++ (i.text ++ i.after.val) = raw.toList from same] at taken
  unfold parse Json.read StateT.run' ofString
  rw [bind_of _ taken, bind_of _ (finish_spaces i.after)]
  rfl

/-- The reader takes the texts of the grammar, and no others. -/
theorem parse_iff {raw : String} : parse raw = .ok j ↔ IsText raw.toList j :=
  ⟨isText_of_parse, parse_of_isText⟩

end Parley.Json.Grammar
