import Parley.Proofs.Fields

/-! Reading a record takes a text of it just when a draft fits the texts that it gives to names, and
makes that draft. -/
namespace Parley.Json.Grammar
open Reader Utf8

variable {s t : Bytes} {first : Bool}

section reading

variable {σ : Type} {S : Schema σ} {fuel : Nat} {d d' : σ}

theorem bind_not_ok {α β : Type} {x : Reader α} {f : α → Reader β} {r : β × Bytes}
    (never : ∀ a u, f a u ≠ .ok r) : (x >>= f) s ≠ .ok r := by
  intro read
  obtain ⟨a, u, -, read⟩ := ok_of_bind read
  exact never a u read

theorem refuseType_not_ok {α : Type} {expected : String} {r : α × Bytes} :
    refuseType expected s ≠ .ok r := by
  have scalar : ∀ {β γ : Type} {x : Reader β} {y : Reader γ} {f : γ → Fault} {s : Bytes},
      (do let _ ← x; refuse (f (← y)) : Reader α) s ≠ .ok r :=
    bind_not_ok fun _ _ => bind_not_ok fun _ _ => nofun
  have number : ∀ (negative : Bool) (s : Bytes), (do
      refuseType.ofNumber (fun found => (refuse (.wrongType found expected) : Reader α))
        (← number negative) : Reader α) s ≠ .ok r := by
    refine fun negative s => bind_not_ok fun j u read => ?_
    unfold refuseType.ofNumber at read
    split at read <;> cases read
  intro read
  unfold refuseType at read
  rw [bind_of _ (peek_eq s)] at read
  generalize ahead s = first at read
  dsimp only at read
  split at read
  · exact scalar read
  · exact scalar read
  · exact scalar read
  · exact bind_not_ok (fun _ u => number true u) read
  · exact scalar read
  · cases read
  · cases read
  · split at read
    · exact number false s read
    · cases read
  · cases read

theorem refuseInObject_not_ok {α : Type} {f : Fault} {r : α × Bytes} :
    refuseInObject f s ≠ .ok r := by
  have refused : ∀ u, (refuse f : Reader α) u ≠ .ok r := nofun
  refine bind_not_ok fun next u read => ?_
  split at read
  · exact bind_not_ok (fun _ => refused) read
  · exact refused u read

theorem field_read {a : Slot σ} (read : (a.field fuel).read d s = .ok (d', t)) :
    ∃ x, a.read fuel s = .ok (x, t) ∧ d' = a.set d x := by
  obtain ⟨x, u, taken, done⟩ := ok_of_bind (f := fun x => pure (a.set d x)) read
  cases done
  exact ⟨x, taken, rfl⟩

/-- Members were taken, up to the brace that closes the record, and filled the draft. -/
def TakesFields (S : Schema σ) (first : Bool) (d : σ) (s : Bytes) (d' : σ) (t : Bytes) : Prop :=
  ∃ (inside : Spaces) (members : List Assignment) (rest : Bytes),
    s = encode inside.val ++ (joined first (members.map (·.entry.bytes)) ++ 0x7D :: rest) ∧
    t = 0x7D :: rest ∧ S.Fills d (members.map Assignment.pair) d' ∧
    ∀ a ∈ S.slots, a.required = true → (a.get d').isSome = true

/-- A member is taken before others. What it does to the draft depends on its name. -/
theorem TakesFields.cons {q : Quoted} {lead u text v : Bytes} {before after inner : Spaces} {d₁ : σ}
    (leading : Leading first lead before)
    (value : u = encode after.val ++ 0x3A :: (encode inner.val ++ (text ++ v)))
    (fills : ∀ texts, S.Fills d₁ texts d' → S.Fills d ((q.value, text) :: texts) d')
    (others : TakesFields S false d₁ v d' t) :
    TakesFields S first d (lead ++ (encode q.chars ++ u)) d' t := by
  obtain ⟨trail, members, rest, rfl, rfl, filled, complete⟩ := others
  obtain ⟨inside, same⟩ := leading.joined
  refine ⟨inside, ⟨before, q, after, inner, text, trail⟩ :: members, rest, ?_, rfl, fills _ filled,
    complete⟩
  have split := same (encode q.chars ++ (encode after.val ++ 0x3A :: (encode inner.val ++
    (text ++ encode trail.val)))) (members.map (·.entry.bytes)) (0x7D :: rest)
  simp only [List.append_assoc, List.cons_append] at split
  rw [value, split]
  simp [Assignment.entry, Entry.bytes, Piece.bytes]

theorem readMembers_sound {k : Nat}
    (read : readMembers (S.fields fuel) k first d s = .ok (d', t)) :
    TakesFields S first d s d' t := by
  induction k generalizing first d s with
  | zero =>
    rw [readMembers] at read
    cases read
  | succ k ih =>
    rw [readMembers] at read
    obtain ⟨name, u, named, read⟩ := ok_of_bind read
    have next := nextName?_split named
    cases name with
    | none =>
      obtain ⟨inside, rest, rfl, rfl⟩ := next
      dsimp only at read
      cases missing : (S.fields fuel).find? fun f => f.required && !f.isSet d with
      | some f =>
        rw [missing] at read
        exact (refuseInObject_not_ok read).elim
      | none =>
        rw [missing] at read
        cases read
        refine ⟨inside, [], rest, ?_, rfl, .nil _, (Schema.find_missing _ fuel).mp missing⟩
        rw [List.map_nil, joined_nil]
        rfl
    | some name =>
      obtain ⟨lead, before, q, leading, rfl, rfl⟩ := next
      dsimp only at read
      cases found : (S.fields fuel).find? fun f => f.name = q.value with
      | none =>
        rw [found] at read
        obtain ⟨_, v, taken, behind⟩ := ok_of_bind read
        obtain ⟨after, rfl⟩ := colon_bytes.mp taken
        obtain ⟨_, w, passed, last⟩ := ok_of_bind behind
        obtain ⟨inner, text, rfl, skims⟩ := skims_of_skipValue passed
        refine .cons leading rfl (fun texts => .ignored (fun known => ?_) skims) (ih last)
        obtain ⟨a, member, name⟩ := List.mem_map.mp known
        have here := Schema.find_known member fuel
        rw [name, found] at here
        cases here
      | some f =>
        rw [found] at read
        obtain ⟨a, member, rfl⟩ := List.mem_map.mp (List.mem_of_find?_eq_some found)
        have name : a.name = q.value := by simpa [Slot.field] using List.find?_some found
        dsimp only at read
        split at read
        · exact (refuseInObject_not_ok read).elim
        · next unset =>
          have fresh : a.get d = none := by simpa [Slot.field] using unset
          obtain ⟨_, v, taken, behind⟩ := ok_of_bind read
          obtain ⟨after, rfl⟩ := colon_bytes.mp taken
          obtain ⟨d₁, w, field, last⟩ := ok_of_bind behind
          obtain ⟨x, value, rfl⟩ := field_read field
          -- What stands behind the value ends it, so the value is sound.
          obtain ⟨trail, members, rest, split, -⟩ := ih last
          have stops : Stops w := by
            rw [split]
            exact (stops_joined _ (.inr rfl)).spaces trail
          obtain ⟨inner, text, rfl, means⟩ := a.sound value stops
          refine .cons leading rfl (fun texts filled => ?_) (ih last)
          rw [← name]
          exact .known member fresh means filled

theorem field_reads {a : Slot σ} {x : a.Held} {text : Bytes} (means : a.Means text x)
    (enough : 2 * text.length ≤ fuel) (before : Spaces) (stops : Stops t) (d : σ) :
    (a.field fuel).read d (encode before.val ++ (text ++ t)) = .ok (a.set d x, t) := by
  refine (bind_of (fun x => pure (a.set d x)) (a.complete means enough before stops)).trans ?_
  rfl

theorem readMembers_complete {k : Nat} {members : List Assignment} (inside : Spaces) (rest : Bytes)
    (fills : S.Fills d (members.map Assignment.pair) d')
    (complete : ∀ a ∈ S.slots, a.required = true → (a.get d').isSome = true)
    (enough : 2 * (joined first (members.map (·.entry.bytes))).length < k)
    (room : 2 * (joined first (members.map (·.entry.bytes))).length ≤ fuel) :
    readMembers (S.fields fuel) k first d
        (encode inside.val ++ (joined first (members.map (·.entry.bytes)) ++ 0x7D :: rest)) =
      .ok (d', 0x7D :: rest) := by
  induction members generalizing k first inside d with
  | nil =>
    obtain ⟨k, rfl⟩ := Nat.exists_eq_add_of_le' (show 1 ≤ k by omega)
    cases fills
    rw [List.map_nil, joined_nil, List.nil_append, readMembers,
      bind_of _ (nextName?_brace inside rest)]
    dsimp only
    rw [(Schema.find_missing d' fuel).mpr complete]
    rfl
  | cons m members ih =>
    obtain ⟨k, rfl⟩ := Nat.exists_eq_add_of_le' (show 1 ≤ k by omega)
    have size := length_joined first m.entry.bytes (members.map (·.entry.bytes))
    have length : m.piece.text.length < m.entry.bytes.length := m.entry.length_text
    rw [List.map_cons] at enough room
    have stops : Stops (encode m.piece.after.val ++
        (joined false (members.map (·.entry.bytes)) ++ 0x7D :: rest)) :=
      (stops_joined _ (.inr rfl)).spaces m.piece.after
    obtain ⟨lead, before, leading, same⟩ := joined_leading first inside m.before
      (encode m.name.chars ++ (encode m.after.val ++ 0x3A :: m.piece.bytes))
      (members.map (·.entry.bytes)) (0x7D :: rest)
    have bytes : m.entry.bytes = encode m.before.val ++
        (encode m.name.chars ++ (encode m.after.val ++ 0x3A :: m.piece.bytes)) := rfl
    have colon : ∀ u, colon (encode m.after.val ++ 0x3A :: u) = .ok ((), u) :=
      fun u => colon_bytes.mpr ⟨m.after, rfl⟩
    rw [List.map_cons, bytes, same, List.append_assoc, readMembers,
      bind_of _ (nextName?_leading leading m.name _)]
    dsimp only
    rw [List.append_assoc, List.cons_append]
    rw [List.map_cons] at fills
    generalize pair : m.pair = p at fills
    cases fills with
    | ignored unknown skims fills =>
      subst pair
      have read := skims.skipped k m.piece.before _ (by dsimp only [Assignment.pair]; omega) stops
      have ignored : (S.fields fuel).find? (fun f => f.name = m.name.value) = none :=
        Schema.find_unknown unknown fuel
      rw [ignored]
      dsimp only
      rw [bind_of _ (colon _), Piece.bytes, List.append_assoc, List.append_assoc]
      refine (bind_of _ read).trans ?_
      exact ih m.piece.after fills (by omega) (by omega)
    | @known _ _ a text x _ member fresh means fills =>
      obtain ⟨name, rfl⟩ := Prod.mk.inj pair
      have read := field_reads means (show 2 * m.piece.text.length ≤ fuel by omega) m.piece.before
        stops d
      rw [name, Schema.find_known member fuel]
      have unset : (a.field fuel).isSet d = false := by
        rw [show (a.field fuel).isSet d = (a.get d).isSome from rfl, fresh]
        rfl
      dsimp only
      rw [unset, if_neg Bool.false_ne_true, bind_of _ (colon _), Piece.bytes, List.append_assoc,
        List.append_assoc, bind_of _ read]
      exact ih m.piece.after fills (by omega) (by omega)

/-- Values in the order of the fields. An array may end early if the fields it leaves out need not
be there. -/
inductive InOrder : List (Slot σ) → σ → List Bytes → σ → Prop
  | done (d : σ) : InOrder [] d [] d
  | short {a : Slot σ} {slots : List (Slot σ)} {d d' : σ} (optional : a.required = false)
    (rest : InOrder slots d [] d') : InOrder (a :: slots) d [] d'
  | given {a : Slot σ} {slots : List (Slot σ)} {d d' : σ} {x : a.Held} {text : Bytes}
    {texts : List Bytes} (means : a.Means text x) (rest : InOrder slots (a.set d x) texts d') :
    InOrder (a :: slots) d (text :: texts) d'

/-- At the bracket there is no white space and no item. -/
theorem bracket_ahead {rest u : Bytes} {inside : Spaces} {texts : List Bytes}
    (same : 0x5D :: rest = encode inside.val ++ (joined false texts ++ 0x5D :: u)) :
    texts = [] ∧ rest = u := by
  have spaces := bytes_of_spaces inside
  cases bytes : encode inside.val with
  | cons b bs =>
    rw [bytes] at same
    obtain ⟨rfl, -⟩ := List.cons.inj same
    cases spaces 0x5D (by rw [bytes]; exact List.mem_cons_self)
  | nil =>
    rw [bytes] at same
    cases texts with
    | nil => exact ⟨rfl, (List.cons.inj same).2⟩
    | cons text texts => cases same

theorem readInOrder_sound {expected : String} {size index : Nat} {slots : List (Slot σ)} {u : Bytes}
    (read : readInOrder expected size index (slots.map fun a => a.field fuel) d s = .ok (d', t))
    (closed : closeArray t = .ok ((), u)) :
    ∃ (inside : Spaces) (pieces : List Piece),
      s = encode inside.val ++ (joined (index == 0) (pieces.map Piece.bytes) ++ 0x5D :: u) ∧
      pieces.length ≤ slots.length ∧ InOrder slots d (pieces.map Piece.text) d' := by
  induction slots generalizing index d s with
  | nil =>
    cases read
    obtain ⟨inside, rfl⟩ := closeArray_iff.mp closed
    refine ⟨inside, [], ?_, Nat.le_refl 0, .done d'⟩
    rw [List.map_nil, joined_nil]
    rfl
  | cons a slots ih =>
    rw [List.map_cons, readInOrder] at read
    obtain ⟨more, v, begun, behind⟩ := ok_of_bind read
    have next := moreItems_split begun
    cases more with
    | true =>
      obtain ⟨lead, before, leading, rfl⟩ := next
      simp only [if_true] at behind
      obtain ⟨d₁, w, field, last⟩ := ok_of_bind behind
      obtain ⟨x, value, rfl⟩ := field_read field
      obtain ⟨after, pieces, rfl, short, ordered⟩ := ih last
      obtain ⟨inner, text, rfl, means⟩ := a.sound value ((stops_joined _ (.inl rfl)).spaces after)
      obtain ⟨inside, same⟩ := leading.joined
      refine ⟨inside, ⟨before.append inner, text, after⟩ :: pieces, ?_, Nat.succ_le_succ short,
        .given means ordered⟩
      have split := same (encode inner.val ++ (text ++ encode after.val)) (pieces.map Piece.bytes)
        (0x5D :: u)
      simp only [List.append_assoc] at split
      rw [show (index + 1 == 0) = false from rfl, split]
      simp [Piece.bytes, Spaces.encode_append]
    | false =>
      obtain ⟨inside, rest, rfl, rfl⟩ := next
      simp only [Bool.false_eq_true, if_false] at behind
      rw [show (a.field fuel).required = a.required from rfl] at behind
      cases optional : a.required with
      | true =>
        rw [optional, if_pos rfl] at behind
        obtain ⟨_, v, -, last⟩ := ok_of_bind behind
        cases last
      | false =>
        rw [optional, if_neg Bool.false_ne_true] at behind
        obtain ⟨inner, pieces, same, -, ordered⟩ := ih behind
        obtain ⟨none, rfl⟩ := bracket_ahead same
        obtain rfl := List.map_eq_nil_iff.mp none
        refine ⟨inside, [], ?_, Nat.zero_le _, .short optional ordered⟩
        rw [List.map_nil, joined_nil]
        rfl

theorem readInOrder_complete {expected : String} {size index : Nat} {slots : List (Slot σ)}
    {pieces : List Piece} (inside : Spaces) (u : Bytes)
    (ordered : InOrder slots d (pieces.map Piece.text) d')
    (room : 2 * (joined (index == 0) (pieces.map Piece.bytes)).length ≤ fuel) :
    ∃ t, readInOrder expected size index (slots.map fun a => a.field fuel) d
        (encode inside.val ++ (joined (index == 0) (pieces.map Piece.bytes) ++ 0x5D :: u)) =
      .ok (d', t) ∧ closeArray t = .ok ((), u) := by
  induction slots generalizing index d inside pieces with
  | nil =>
    generalize texts : pieces.map Piece.text = ts at ordered
    cases ordered
    obtain rfl := List.map_eq_nil_iff.mp texts
    rw [List.map_nil, List.map_nil, joined_nil]
    exact ⟨_, rfl, closeArray_iff.mpr ⟨inside, rfl⟩⟩
  | cons a slots ih =>
    rw [List.map_cons]
    generalize texts : pieces.map Piece.text = ts at ordered
    cases ordered with
    | short optional ordered =>
      obtain rfl := List.map_eq_nil_iff.mp texts
      rw [List.map_nil, joined_nil, List.nil_append, readInOrder,
        bind_of _ (moreItems_bracket inside u)]
      simp only [Bool.false_eq_true, if_false]
      rw [show (a.field fuel).required = a.required from rfl, optional, if_neg Bool.false_ne_true]
      have behind : ∃ t, readInOrder expected size (index + 1) (slots.map fun a => a.field fuel) d
          (encode blank.val ++ (joined (index + 1 == 0) ([].map Piece.bytes) ++ 0x5D :: u)) =
            .ok (d', t) ∧ closeArray t = .ok ((), u) := ih blank ordered (Nat.zero_le _)
      exact behind
    | @given _ _ _ _ x text ts means ordered =>
      cases pieces with
      | nil => cases texts
      | cons p pieces =>
        obtain ⟨rfl, rfl⟩ := List.cons.inj texts
        have size := length_joined (index == 0) p.bytes (pieces.map Piece.bytes)
        have length := p.length_text
        rw [List.map_cons] at room
        obtain ⟨lead, before, leading, same⟩ := joined_leading (index == 0) inside p.before
          (p.text ++ encode p.after.val) (pieces.map Piece.bytes) (0x5D :: u)
        have stops : Stops (encode p.after.val ++ (joined false (pieces.map Piece.bytes) ++
            0x5D :: u)) := (stops_joined _ (.inl rfl)).spaces p.after
        have read := field_reads means (show 2 * p.text.length ≤ fuel by omega) blank stops d
        rw [encode_blank, List.nil_append] at read
        have later : 2 * (joined (index + 1 == 0) (pieces.map Piece.bytes)).length ≤ fuel := by
          rw [show (index + 1 == 0) = false from rfl]
          omega
        obtain ⟨t, behind, closed⟩ := ih p.after ordered later
        refine ⟨t, ?_, closed⟩
        rw [List.map_cons, Piece.bytes, same, readInOrder, List.append_assoc,
          bind_of _ (moreItems_leading leading (a.skims means).opens _)]
        simp only [if_true]
        rw [bind_of _ read]
        exact behind

theorem InOrder.fills {slots : List (Slot σ)} {texts : List Bytes}
    (ordered : InOrder slots d texts d') (known : ∀ a ∈ slots, a ∈ S.slots) (distinct : (slots.map Slot.name).Nodup)
    (fresh : ∀ a ∈ slots, a.get d = none) :
    S.Fills d ((slots.map Slot.name).zip texts) d' ∧
      ∀ a ∈ slots, a.required = true → (a.get d').isSome = true := by
  induction ordered with
  | done d => exact ⟨.nil d, List.forall_mem_nil _⟩
  | @short a slots d d' optional _ ih =>
    obtain ⟨here, others⟩ := List.forall_mem_cons.mp known
    obtain ⟨none, rest⟩ := List.forall_mem_cons.mp fresh
    obtain ⟨fills, complete⟩ := ih others (List.nodup_cons.mp distinct).2 rest
    rw [List.zip_nil_right] at fills ⊢
    refine ⟨fills, List.forall_mem_cons.mpr ⟨fun required => ?_, complete⟩⟩
    rw [optional] at required
    cases required
  | @given a slots d d' x text texts means _ ih =>
    obtain ⟨here, others⟩ := List.forall_mem_cons.mp known
    obtain ⟨none, rest⟩ := List.forall_mem_cons.mp fresh
    obtain ⟨absent, distinct⟩ := List.nodup_cons.mp distinct
    have unset : ∀ b ∈ slots, b.get (a.set d x) = Option.none := by
      intro b member
      rw [S.frame a here b (others b member) fun same => absent ?_, rest b member]
      exact List.mem_map.mpr ⟨b, member, same.symm⟩
    obtain ⟨fills, complete⟩ := ih others distinct unset
    refine ⟨.known here none means fills, List.forall_mem_cons.mpr ⟨fun _ => ?_, complete⟩⟩
    rcases fills.given here with ⟨kept, -⟩ | ⟨clash, -⟩
    · rw [kept, a.get_set]
      rfl
    · rw [a.get_set] at clash
      cases clash

theorem inOrder_of_fills {slots : List (Slot σ)} {texts : List Bytes}
    (fills : S.Fills d ((slots.map Slot.name).zip texts) d')
    (short : texts.length ≤ slots.length) (known : ∀ a ∈ slots, a ∈ S.slots)
    (distinct : (slots.map Slot.name).Nodup) (fresh : ∀ a ∈ slots, a.get d = none)
    (complete : ∀ a ∈ slots, a.required = true → (a.get d').isSome = true) :
    InOrder slots d texts d' := by
  induction slots generalizing texts d with
  | nil =>
    obtain rfl := List.eq_nil_of_length_eq_zero (Nat.le_zero.mp short)
    cases fills
    exact .done d'
  | cons a slots ih =>
    obtain ⟨here, others⟩ := List.forall_mem_cons.mp known
    obtain ⟨none, rest⟩ := List.forall_mem_cons.mp fresh
    obtain ⟨absent, unequal⟩ := List.nodup_cons.mp distinct
    obtain ⟨first, further⟩ := List.forall_mem_cons.mp complete
    cases texts with
    | nil =>
      rw [List.zip_nil_right] at fills
      have same : d' = d := by cases fills; rfl
      subst same
      have optional : a.required = false := by
        by_contra required
        have some := first (by simpa using required)
        rw [none] at some
        cases some
      refine .short optional (ih ?_ (Nat.zero_le _) others unequal rest further)
      rw [List.zip_nil_right]
      exact .nil _
    | cons text texts =>
      rw [List.map_cons, List.zip_cons_cons] at fills
      generalize pair : (a.name, text) = p at fills
      cases fills with
      | ignored unknown _ _ =>
        subst pair
        exact (unknown (List.mem_map.mpr ⟨a, here, rfl⟩)).elim
      | @known _ _ b _ x _ member _ means fills =>
        obtain ⟨name, rfl⟩ := Prod.mk.inj pair
        obtain rfl := Schema.slot_eq here member name
        refine .given means (ih fills (Nat.le_of_succ_le_succ short) others unequal ?_ further)
        intro b within
        rw [S.frame a here b (others b within) fun same => absent ?_, rest b within]
        exact List.mem_map.mpr ⟨b, within, same.symm⟩

/-! Whole records. -/

variable {start : σ}

theorem Schema.Fills.others {texts : List (String × Bytes)} (fills : S.Fills d texts d') :
    ∀ p ∈ texts, p.1 ∉ S.names → Skims p.2 := by
  induction fills with
  | nil d => exact List.forall_mem_nil _
  | ignored _ skims _ ih => exact List.forall_mem_cons.mpr ⟨fun _ => skims, ih⟩
  | known member _ _ _ ih =>
    refine List.forall_mem_cons.mpr ⟨fun unknown => (unknown ?_).elim, ih⟩
    exact List.mem_map.mpr ⟨_, member, rfl⟩

theorem fits_iff_fills {texts : List (String × Bytes)} (fresh : ∀ a ∈ S.slots, a.get start = none) :
    S.Fits texts d ↔ S.Fills start texts d ∧
      ∀ a ∈ S.slots, a.required = true → (a.get d).isSome = true := by
  constructor
  · intro fits
    refine ⟨Schema.fills_of_given (fun a member => ?_) fits.others, fits.required⟩
    exact (Slot.given_of_none (fresh a member)).mpr (fits.each a member)
  · rintro ⟨fills, complete⟩
    refine ⟨fun a member => ?_, complete, fills.others⟩
    exact (Slot.given_of_none (fresh a member)).mp (fills.given member)

theorem readRecord_sound {expected : String} {k depth : Nat}
    (fresh : ∀ a ∈ S.slots, a.get start = none)
    (read : readRecord expected (S.fields fuel) k depth start s = .ok (d, t)) :
    ∃ (before : Spaces) (text : Bytes) (texts : List (String × Bytes)),
      s = encode before.val ++ (text ++ t) ∧ RecordText S.names text texts ∧ S.Fits texts d := by
  obtain ⟨before, u, rfl, -, taken⟩ := token_split s
  suffices record : ∃ text texts, u = text ++ t ∧ RecordText S.names text texts ∧ S.Fits texts d by
    obtain ⟨text, texts, rfl, record⟩ := record
    exact ⟨before, text, texts, rfl, record⟩
  unfold readRecord at read
  rw [bind_of _ taken] at read
  generalize found : ahead u = ahead at read
  split at read
  · cases read
  · obtain ⟨v, rfl⟩ := cons_of_mark found
    split at read
    · cases read
    · rw [bind_of _ (skip_cons _ v)] at read
      obtain ⟨d₁, w, inner, behind⟩ := ok_of_bind read
      obtain ⟨_, x, closed, done⟩ := ok_of_bind behind
      cases done
      obtain ⟨inside, pieces, rfl, short, ordered⟩ := readInOrder_sound inner closed
      refine ⟨_, _, ?_, .arr inside pieces (by rwa [Schema.names, List.length_map]), ?_⟩
      · simp
      · exact (fits_iff_fills fresh).mpr (ordered.fills (fun _ member => member) S.distinct fresh)
  · obtain ⟨v, rfl⟩ := cons_of_mark found
    split at read
    · cases read
    · rw [bind_of _ (skip_cons _ v)] at read
      obtain ⟨d₁, w, inner, behind⟩ := ok_of_bind read
      obtain ⟨inside, members, rest, rfl, rfl, fills, complete⟩ := readMembers_sound inner
      rw [bind_of _ (closeObject_brace rest)] at behind
      cases behind
      refine ⟨_, _, ?_, .obj inside members, (fits_iff_fills fresh).mpr ⟨fills, complete⟩⟩
      simp
  · exact (refuseType_not_ok read).elim

theorem readRecord_complete {expected : String} {k depth : Nat} {text : Bytes}
    {texts : List (String × Bytes)} (fresh : ∀ a ∈ S.slots, a.get start = none)
    (record : RecordText S.names text texts) (fits : S.Fits texts d) (opened : depth ≠ 0)
    (enough : 2 * text.length ≤ k) (room : 2 * text.length ≤ fuel) (before : Spaces) (t : Bytes) :
    readRecord expected (S.fields fuel) k depth start (encode before.val ++ (text ++ t)) =
      .ok (d, t) := by
  obtain ⟨fills, complete⟩ := (fits_iff_fills fresh).mp fits
  unfold readRecord
  cases record with
  | obj inside members =>
    have size := length_enclosed 0x7B 0x7D (encode inside.val)
      (joined true (members.map (·.entry.bytes)))
    have read : readMembers (S.fields fuel) k true start (encode inside.val ++
        (joined true (members.map (·.entry.bytes)) ++ 0x7D :: t)) = .ok (d, 0x7D :: t) :=
      readMembers_complete inside t fills complete (by omega) (by omega)
    rw [List.cons_append, bind_of _ (token_byte (c := '\x7b') before rfl rfl _)]
    change (if depth = 0 then _ else _ : Reader σ) _ = _
    rw [if_neg opened, bind_of _ (skip_cons _ _), List.append_assoc, List.append_assoc,
      List.singleton_append, bind_of _ read, bind_of _ (closeObject_brace t)]
    rfl
  | arr inside pieces short =>
    have ordered := inOrder_of_fills fills (by simpa [Schema.names] using short)
      (fun _ member => member) S.distinct fresh complete
    have size := length_enclosed 0x5B 0x5D (encode inside.val)
      (joined true (pieces.map Piece.bytes))
    have read : ∃ u, readInOrder expected (S.fields fuel).length 0 (S.fields fuel) start
        (encode inside.val ++ (joined true (pieces.map Piece.bytes) ++ 0x5D :: t)) =
          .ok (d, u) ∧ closeArray u = .ok ((), t) :=
      readInOrder_complete inside t ordered (by rw [beq_self_eq_true]; omega)
    obtain ⟨u, read, closed⟩ := read
    rw [List.cons_append, bind_of _ (token_byte (c := '[') before rfl rfl _)]
    change (if depth = 0 then _ else _ : Reader σ) _ = _
    rw [if_neg opened, bind_of _ (skip_cons _ _), List.append_assoc, List.append_assoc,
      List.singleton_append]
    refine (bind_of _ read).trans ?_
    rw [bind_of _ closed]
    rfl

end reading

end Parley.Json.Grammar
