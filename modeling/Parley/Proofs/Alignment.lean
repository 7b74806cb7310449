import Mathlib.Data.List.Forall2
import Parley.Proofs.TypedReaders

/-! A text determines where its values end. What stands before a value of a list or record, and the
value itself, are the same whatever stands behind. -/
namespace Parley.Json.Grammar
open Reader Utf8

variable {s t t' : Bytes}

/-! White space, values and strings. -/

/-- The text does not go on with white space. -/
def Dark (t : Bytes) : Prop :=
  ∀ b ∈ t.head?, Reader.isSpace b = false

theorem cons_dark {b : UInt8} (space : Reader.isSpace b = false) (t : Bytes) : Dark (b :: t) := by
  intro c first
  obtain rfl := Option.some.inj first
  exact space

theorem opens_dark (opens : Json.Opens s) : Dark s := by
  obtain ⟨b, rest, rfl, space, -⟩ := Opens.byte opens
  exact cons_dark space rest

theorem Skims.ahead {text : Bytes} (skims : Skims text) (t : Bytes) : Json.Opens (text ++ t) := by
  cases skims.opens with
  | intro space close => exact .intro space close

theorem Skims.dark {text : Bytes} (skims : Skims text) (t : Bytes) : Dark (text ++ t) :=
  opens_dark (skims.ahead t)

theorem spaces_aligned {before before' : Spaces} (dark : Dark t) (dark' : Dark t')
    (same : encode before.val ++ t = encode before'.val ++ t') : before = before' ∧ t = t' := by
  have left := token_before before dark
  rw [same, token_before before' dark'] at left
  obtain rfl := (Prod.mk.inj (Except.ok.inj left)).2
  exact ⟨Subtype.ext (encode_injective (List.append_cancel_right same)), rfl⟩

/-- Behind white space stands one byte only. -/
theorem spaces_ne {before : Spaces} {b c : UInt8} (space : Reader.isSpace b = false)
    (space' : Reader.isSpace c = false) (other : b ≠ c) (s t : Bytes) :
    encode before.val ++ b :: s ≠ c :: t := by
  intro same
  rw [show (c :: t : Bytes) = encode blank.val ++ c :: t from rfl] at same
  obtain ⟨-, clash⟩ := spaces_aligned (cons_dark space s) (cons_dark space' t) same
  exact other (List.cons.inj clash).1

theorem skims_aligned {text text' : Bytes} {before before' : Spaces} (skims : Skims text)
    (skims' : Skims text') (stops : Stops t) (stops' : Stops t')
    (same : encode before.val ++ (text ++ t) = encode before'.val ++ (text' ++ t')) :
    before = before' ∧ text = text' ∧ t = t' := by
  have left := skims.skipped (2 * text.length + 2 * text'.length) before t (by omega) stops
  have right := skims'.skipped (2 * text.length + 2 * text'.length) before' t' (by omega) stops'
  rw [same, right] at left
  cases left
  obtain ⟨lead, behind⟩ := spaces_aligned (skims.dark _) (skims'.dark _) same
  exact ⟨lead, List.append_cancel_right behind, rfl⟩

theorem quoted_aligned {name name' : Bytes} (passes : PassesQuoted name)
    (passes' : PassesQuoted name') (same : name ++ t = name' ++ t') : name = name' ∧ t = t' := by
  obtain ⟨raw, rfl, passes⟩ := passes
  obtain ⟨raw', rfl, passes'⟩ := passes'
  have left := passes.passContent t
  simp only [List.cons_append, List.append_assoc, List.nil_append, List.cons.injEq,
    true_and] at same
  rw [same, passes'.passContent t'] at left
  obtain rfl := (Prod.mk.inj (Except.ok.inj left)).2
  rw [List.append_cancel_right same]
  exact ⟨rfl, rfl⟩

theorem Quoted.value_eq {q q' : Quoted} (same : encode q.chars = encode q'.chars) :
    q.value = q'.value := by
  have left := string_quoted q []
  have right := string_quoted q' []
  have bytes := quoted_bytes q []
  rw [same, quoted_bytes] at bytes
  rw [(List.cons.inj bytes).2] at right
  rw [right] at left
  exact (Prod.mk.inj (Except.ok.inj left)).1.symm

/-! Lists of values and of members. -/

/-- Texts with a comma behind each. -/
def led (texts : List Bytes) : Bytes :=
  texts.flatMap fun text => text ++ [0x2C]

theorem joined_false {texts : List Bytes} (some : texts ≠ []) :
    joined false texts = 0x2C :: joined true texts := by
  obtain ⟨text, texts, rfl⟩ := List.exists_cons_of_ne_nil some
  rw [joined_cons]
  rfl

theorem joined_led (texts : List Bytes) (text : Bytes) (behind : List Bytes) :
    joined true (texts ++ text :: behind) = led texts ++ (text ++ joined false behind) := by
  induction texts with
  | nil => exact joined_cons text behind
  | cons first texts ih =>
    rw [List.cons_append, joined_cons, joined_false (by simp), ih]
    simp [led]

/-- A comma or a bracket. -/
def Marked (t : Bytes) : Prop :=
  ∃ b rest, t = b :: rest ∧ (b = 0x2C ∨ b = 0x5D ∨ b = 0x7D)

theorem Marked.dark (marked : Marked t) : Dark t := by
  obtain ⟨b, rest, rfl, rfl | rfl | rfl⟩ := marked
  · exact cons_dark rfl rest
  · exact cons_dark rfl rest
  · exact cons_dark rfl rest

theorem Marked.stops (marked : Marked t) : Stops t := by
  obtain ⟨b, rest, rfl, mark⟩ := marked
  exact stops_mark mark rest

/-- Texts of a kind, in lists that this bracket closes. A text determines where it ends, and none
starts with the bracket. -/
structure Delimited {α : Type} (bytes : α → Bytes) (Sound : α → Prop) (close : UInt8) : Prop where
  closes : close = 0x5D ∨ close = 0x7D
  opens : ∀ {a : α}, Sound a → ∀ {t z : Bytes}, bytes a ++ t ≠ close :: z
  boundary : ∀ {a a' : α}, Sound a → Sound a' → ∀ {t t' : Bytes}, Marked t → Marked t' →
    bytes a ++ t = bytes a' ++ t' → a = a' ∧ t = t'

section lists

variable {α : Type} {bytes : α → Bytes} {Sound : α → Prop} {close : UInt8}

theorem Delimited.marked (D : Delimited bytes Sound close) (texts : List Bytes) (z : Bytes) :
    Marked (joined false texts ++ close :: z) := by
  cases texts with
  | nil => exact ⟨_, z, rfl, .inr D.closes⟩
  | cons text texts => exact ⟨_, _, rfl, .inl rfl⟩

/-- The texts before a place are the first texts of the list. -/
theorem Delimited.aligned (D : Delimited bytes Sound close) {as as' : List α} {y z : Bytes}
    (all : ∀ a ∈ as, Sound a) (all' : ∀ a ∈ as', Sound a)
    (same : led (as.map bytes) ++ y = joined true (as'.map bytes) ++ close :: z) :
    ∃ bs, as' = as ++ bs ∧ y = joined true (bs.map bytes) ++ close :: z := by
  induction as generalizing as' with
  | nil => exact ⟨as', rfl, same⟩
  | cons a as ih =>
    obtain ⟨here, rest⟩ := List.forall_mem_cons.mp all
    have split : led ((a :: as).map bytes) ++ y =
        bytes a ++ 0x2C :: (led (as.map bytes) ++ y) := by
      simp [led]
    rw [split] at same
    cases as' with
    | nil =>
      rw [List.map_nil, joined_nil] at same
      exact (D.opens here same).elim
    | cons a' as' =>
      obtain ⟨here', rest'⟩ := List.forall_mem_cons.mp all'
      rw [List.map_cons, joined_cons, List.append_assoc] at same
      obtain ⟨rfl, behind⟩ := D.boundary here here' ⟨_, _, rfl, .inl rfl⟩ (D.marked _ z) same
      cases as' with
      | nil =>
        obtain ⟨rfl, -⟩ := List.cons.inj behind
        rcases D.closes with clash | clash <;> cases clash
      | cons next as' =>
        rw [joined_false (by simp), List.cons_append] at behind
        obtain ⟨bs, split, tail⟩ := ih rest rest' (List.cons.inj behind).2
        exact ⟨bs, by rw [split, List.cons_append], tail⟩

end lists

theorem delimited_pieces : Delimited Piece.bytes (fun p => Skims p.text) 0x5D where
  closes := .inl rfl
  opens := by
    intro p skims t z same
    obtain ⟨b, rest, split, dark, bracket⟩ := Opens.byte skims.opens
    rw [Piece.bytes, split, List.append_assoc, List.append_assoc] at same
    exact spaces_ne dark rfl (fun clash => bracket (by rw [clash]; rfl)) _ z same
  boundary := by
    intro p p' skims skims' t t' marked marked' same
    obtain ⟨before, text, after⟩ := p
    obtain ⟨before', text', after'⟩ := p'
    simp only [Piece.bytes, List.append_assoc] at same
    obtain ⟨rfl, rfl, behind⟩ := skims_aligned skims skims' (marked.stops.spaces after)
      (marked'.stops.spaces after') same
    obtain ⟨rfl, rest⟩ := spaces_aligned marked.dark marked'.dark behind
    exact ⟨rfl, rest⟩

theorem delimited_entries :
    Delimited Entry.bytes (fun e => PassesQuoted e.name ∧ Skims e.piece.text) 0x7D where
  closes := .inr rfl
  opens := by
    rintro e ⟨⟨raw, name, -⟩, -⟩ t z same
    simp only [Entry.bytes, List.append_assoc, name, List.cons_append] at same
    exact spaces_ne rfl rfl (by decide) _ z same
  boundary := by
    rintro ⟨before, name, after, p⟩ ⟨before', name', after', p'⟩ ⟨passes, skims⟩
      ⟨passes', skims'⟩ t t' marked marked' same
    simp only [Entry.bytes, List.append_assoc, List.cons_append] at same
    obtain ⟨rfl, named⟩ := spaces_aligned (Skims.str passes |>.dark _)
      (Skims.str passes' |>.dark _) same
    obtain ⟨rfl, colon⟩ := quoted_aligned passes passes' named
    obtain ⟨rfl, valued⟩ := spaces_aligned (cons_dark rfl _) (cons_dark rfl _) colon
    obtain ⟨rfl, rest⟩ :=
      delimited_pieces.boundary skims skims' marked marked' (List.cons.inj valued).2
    exact ⟨rfl, rest⟩

section places

variable {lead before : Spaces} {y z : Bytes} {elements : List Piece}

theorem opens_ne_bracket (opens : Json.Opens s) (inside : Spaces) :
    encode lead.val ++ s ≠ encode inside.val ++ 0x5D :: z := by
  intro same
  obtain ⟨-, rfl⟩ := spaces_aligned (opens_dark opens) (cons_dark rfl z) same
  cases opens with
  | intro space close => exact close rfl

theorem led_ne_bracket (sound : ∀ p ∈ elements, Skims p.text) (opens : Json.Opens s)
    (inside : Spaces) :
    led (elements.map Piece.bytes) ++ (encode before.val ++ s) ≠
      encode inside.val ++ 0x5D :: z := by
  cases elements with
  | nil => exact opens_ne_bracket opens inside
  | cons p elements =>
    have split : led ((p :: elements).map Piece.bytes) ++ (encode before.val ++ s) =
        encode p.before.val ++ (p.text ++ (encode p.after.val ++
          0x2C :: (led (elements.map Piece.bytes) ++ (encode before.val ++ s)))) := by
      simp [led, Piece.bytes]
    rw [split]
    exact opens_ne_bracket ((sound p List.mem_cons_self).ahead _) inside

theorem value_aligned {p : Piece} (opens : Json.Opens s) (skims : Skims p.text)
    (same : encode before.val ++ s = p.bytes ++ t) :
    p.before = before ∧ s = p.text ++ (encode p.after.val ++ t) := by
  rw [Piece.bytes, List.append_assoc, List.append_assoc] at same
  obtain ⟨lead, value⟩ := spaces_aligned (opens_dark opens) (skims.dark _) same
  exact ⟨lead.symm, value⟩

/-! The member, or the item, that the place behind others leads to. -/

theorem members_aligned {entries : List Entry} {lead trail : Spaces} {name : Quoted}
    {members : List Assignment} (sound : ∀ e ∈ entries, PassesQuoted e.name ∧ Skims e.piece.text)
    (skims : ∀ a ∈ members, Skims a.piece.text) (opens : Json.Opens s)
    (same : led (entries.map Entry.bytes) ++ (encode lead.val ++ (encode name.chars ++
        (encode trail.val ++ 0x3A :: (encode before.val ++ s)))) =
      joined true (members.map (·.entry.bytes)) ++ 0x7D :: z) :
    ∃ (first : List Assignment) (q : Quoted) (text : Bytes) (after : Spaces)
      (behind : List Assignment),
      members = first ++ ⟨lead, q, trail, before, text, after⟩ :: behind ∧
      first.map Assignment.entry = entries ∧ encode q.chars = encode name.chars ∧
      s = text ++ (encode after.val ++
        (joined false (behind.map (·.entry.bytes)) ++ 0x7D :: z)) := by
  rw [show (fun a : Assignment => a.entry.bytes) = Entry.bytes ∘ Assignment.entry from rfl,
    ← List.map_map] at same
  have all : ∀ e ∈ members.map Assignment.entry, PassesQuoted e.name ∧ Skims e.piece.text := by
    intro e member
    obtain ⟨a, within, rfl⟩ := List.mem_map.mp member
    exact ⟨a.name.passes, skims a within⟩
  obtain ⟨rest, split, tail⟩ := delimited_entries.aligned sound all same
  obtain ⟨first, others, rfl, rfl, rfl⟩ := List.map_eq_append_iff.mp split
  cases others with
  | nil =>
    rw [List.map_nil, List.map_nil, joined_nil, quoted_bytes] at tail
    exact (spaces_ne rfl rfl (by decide) _ z tail).elim
  | cons a behind =>
    obtain ⟨lead', q, trail', p⟩ := a
    rw [List.map_cons, List.map_cons, joined_cons, Assignment.entry, Entry.bytes] at tail
    simp only [List.append_assoc, List.cons_append] at tail
    obtain ⟨rfl, named⟩ := spaces_aligned (Skims.str name.passes |>.dark _)
      (Skims.str q.passes |>.dark _) tail
    obtain ⟨spelled, colon⟩ := quoted_aligned name.passes q.passes named
    obtain ⟨rfl, valued⟩ := spaces_aligned (cons_dark rfl _) (cons_dark rfl _) colon
    obtain ⟨rfl, value⟩ := value_aligned opens
      (skims _ (List.mem_append_right _ List.mem_cons_self)) (List.cons.inj valued).2
    refine ⟨first, q, p.text, p.after, behind, rfl, rfl, spelled.symm, ?_⟩
    rw [List.map_map] at value
    exact value

theorem items_aligned {items : List Piece} (sound : ∀ p ∈ elements, Skims p.text)
    (skims : ∀ p ∈ items, Skims p.text) (opens : Json.Opens s)
    (same : led (elements.map Piece.bytes) ++ (encode before.val ++ s) =
      joined true (items.map Piece.bytes) ++ 0x5D :: z) :
    ∃ (text : Bytes) (after : Spaces) (behind : List Piece),
      items = elements ++ ⟨before, text, after⟩ :: behind ∧
      s = text ++ (encode after.val ++ (joined false (behind.map Piece.bytes) ++ 0x5D :: z)) := by
  obtain ⟨others, rfl, tail⟩ := delimited_pieces.aligned sound skims same
  cases others with
  | nil =>
    rw [List.map_nil, joined_nil] at tail
    exact (opens_ne_bracket opens blank tail).elim
  | cons p behind =>
    rw [List.map_cons, joined_cons, List.append_assoc] at tail
    obtain ⟨rfl, value⟩ := value_aligned opens
      (skims _ (List.mem_append_right _ List.mem_cons_self)) tail
    exact ⟨p.text, p.after, behind, rfl, value⟩

end places

/-! Arrays and records without white space of their own: their first text has it. -/

theorem joined_pieces (inside : Spaces) {pieces : List Piece} (some : pieces ≠ []) :
    ∃ pieces' : List Piece, pieces'.map Piece.text = pieces.map Piece.text ∧
      joined true (pieces'.map Piece.bytes) =
        encode inside.val ++ joined true (pieces.map Piece.bytes) := by
  obtain ⟨p, pieces, rfl⟩ := List.exists_cons_of_ne_nil some
  refine ⟨⟨inside.append p.before, p.text, p.after⟩ :: pieces, rfl, ?_⟩
  simp only [List.map_cons, joined_cons, Piece.bytes, Spaces.encode_append, List.append_assoc]

theorem joined_members (inside : Spaces) {members : List Assignment} (some : members ≠ []) :
    ∃ members' : List Assignment, members'.map Assignment.pair = members.map Assignment.pair ∧
      joined true (members'.map (·.entry.bytes)) =
        encode inside.val ++ joined true (members.map (·.entry.bytes)) := by
  obtain ⟨a, members, rfl⟩ := List.exists_cons_of_ne_nil some
  refine ⟨⟨inside.append a.before, a.name, a.after, a.piece⟩ :: members, rfl, ?_⟩
  simp only [List.map_cons, joined_cons, Assignment.entry, Entry.bytes, Spaces.encode_append,
    List.append_assoc]

/-- An array is the texts of its items. -/
theorem stands_arr_iff {depth : Nat} {text : Bytes} {js : List Json} :
    Stands (depth + 1) text (.arr js) ↔ ∃ (inside : Spaces) (pieces : List Piece),
      text = 0x5B :: (encode inside.val ++ (joined true (pieces.map Piece.bytes) ++ [0x5D])) ∧
        List.Forall₂ (Stands depth) (pieces.map Piece.text) js := by
  have bytes : ∀ (inside : Spaces) (items : List Item),
      encode ('[' :: (inside.val ++ (separated (items.map Item.chars) ++ [']']))) =
        0x5B :: (encode inside.val ++
          (joined true ((items.map Item.piece).map Piece.bytes) ++ [0x5D])) := by
    intro inside items
    have same : (items.map Item.chars).map encode = (items.map Item.piece).map Piece.bytes := by
      simp only [List.map_map]
      exact List.map_congr_left fun i _ => i.bytes_piece.symm
    rw [encode_ascii (by decide), encode_closed, same]
    rfl
  constructor
  · intro stands
    obtain ⟨_, rfl, below, inside, items, same, rfl, rfl, all⟩ := stands.form
    obtain rfl := Nat.succ.inj same
    refine ⟨inside, items.map Item.piece, bytes inside items, ?_⟩
    rw [List.map_map, List.forall₂_map_left_iff, List.forall₂_map_right_iff, List.forall₂_same]
    exact fun i member => ⟨i.text, rfl, all i member⟩
  · rintro ⟨inside, pieces, rfl, all⟩
    suffices spelled : ∃ items : List Item, items.map Item.piece = pieces ∧
        items.map Item.value = js ∧ ∀ i ∈ items, Spells depth i.text i.value by
      obtain ⟨items, rfl, rfl, spelled⟩ := spelled
      rw [← bytes]
      exact ⟨_, rfl, .arr inside spelled⟩
    rw [List.forall₂_map_left_iff] at all
    induction all with
    | nil => exact ⟨[], rfl, rfl, List.forall_mem_nil _⟩
    | @cons p j pieces js stands _ ih =>
      obtain ⟨cs, text, spells⟩ := stands
      obtain ⟨items, rfl, rfl, spelled⟩ := ih
      refine ⟨⟨p.before, cs, j, p.after⟩ :: items, ?_, rfl, List.forall_mem_cons.mpr
        ⟨spells, spelled⟩⟩
      rw [List.map_cons, Item.piece, ← text]

theorem stands_unique {depth : Nat} {text : Bytes} {j k : Json} (left : Stands depth text j)
    (right : Stands depth text k) : j = k := by
  have one := left.value blank stops_nil (Nat.le_refl _)
  rw [right.value blank stops_nil (Nat.le_refl _)] at one
  exact (Prod.mk.inj (Except.ok.inj one)).1.symm

theorem skims_of_stands {depth : Nat} {pieces : List Piece} {js : List Json}
    (all : List.Forall₂ (Stands depth) (pieces.map Piece.text) js) :
    ∀ p ∈ pieces, Skims p.text := by
  rw [List.forall₂_map_left_iff] at all
  induction all with
  | nil => exact List.forall_mem_nil _
  | cons stands _ ih => exact List.forall_mem_cons.mpr ⟨stands.skims, ih⟩

theorem forall₂_split {α β : Type} {R : α → β → Prop} {as behind : List α} {a : α} {bs : List β}
    (all : List.Forall₂ R (as ++ a :: behind) bs) : ∃ (earlier : List β) (b : β) (later : List β),
      bs = earlier ++ b :: later ∧ List.Forall₂ R as earlier ∧ R a b ∧
        List.Forall₂ R behind later := by
  induction as generalizing bs with
  | nil =>
    obtain ⟨b, later, here, rest, rfl⟩ := List.forall₂_cons_left_iff.mp all
    exact ⟨[], b, later, rfl, .nil, here, rest⟩
  | cons first as ih =>
    obtain ⟨c, bs, here, rest, rfl⟩ := List.forall₂_cons_left_iff.mp all
    obtain ⟨earlier, b, later, rfl, before, there, last⟩ := ih rest
    exact ⟨c :: earlier, b, later, rfl, .cons here before, there, last⟩

end Parley.Json.Grammar
