import Parley.Proofs.RawStrings

/-! Readers on any bytes. A reader takes whole characters, and of what stands behind them it looks
at one byte at most; so what it does with a text of characters it does before other bytes too. -/
namespace Parley.Json.Grammar
open Reader Utf8

variable {α β : Type} {s t : Bytes}

/-- What the reader takes here is characters, and it takes them before every text that begins with
the same byte as the one behind them. -/
def Local (r : Reader α) (s : Bytes) : Prop :=
  ∀ a t, r s = .ok (a, t) → ∃ cs, s = encode cs ++ t ∧
    ∀ t', t'.head? = t.head? → r (encode cs ++ t') = .ok (a, t')

section combinators

variable {x : Reader α} {f : α → Reader β}

theorem Local.bind (first : Local x s) (rest : ∀ a u, x s = .ok (a, u) → Local (f a) u) :
    Local (x >>= f) s := by
  intro b t read
  obtain ⟨a, u, taken, read⟩ := ok_of_bind read
  obtain ⟨ds, rfl, reads'⟩ := rest a u taken b t read
  obtain ⟨cs, rfl, reads⟩ := first a _ taken
  refine ⟨cs ++ ds, by rw [encode_append, List.append_assoc], fun t' same => ?_⟩
  have ahead : (encode ds ++ t').head? = (encode ds ++ t).head? := by
    cases encode ds with
    | nil => exact same
    | cons b bs => rfl
  rw [encode_append, List.append_assoc, bind_of f (reads _ ahead)]
  exact reads' t' same

theorem local_pure (a : α) : Local (pure a) s := by
  intro b t read
  cases read
  exact ⟨[], rfl, fun t' _ => rfl⟩

theorem Local.map (g : α → β) (first : Local x s) : Local (g <$> x) s := by
  intro b t read
  obtain ⟨a, taken, rfl⟩ := ok_of_map read
  obtain ⟨cs, rfl, reads⟩ := first a t taken
  exact ⟨cs, rfl, fun t' same => map_of g (reads t' same)⟩

theorem local_error {f : Bytes → Failure} : Local (fun s => .error (f s) : Reader α) s :=
  nofun

theorem local_refuse {f : Fault} : Local (refuse f : Reader α) s :=
  local_error

theorem local_refuseNext {f : Fault} : Local (refuseNext f : Reader α) s :=
  local_error

end combinators

/-! What single bytes are asked for. -/

section bytes

variable {f : Option Char → Reader β} {c : Char}

theorem local_peek (rest : Local (f (ahead s)) s) : Local (peek >>= f) s := by
  intro b t read
  rw [bind_of f (peek_eq s)] at read
  obtain ⟨cs, rfl, reads⟩ := rest b t read
  refine ⟨cs, rfl, fun t' same => ?_⟩
  have seen : ahead (encode cs ++ t') = ahead (encode cs ++ t) := by
    unfold ahead
    cases encode cs with
    | nil => exact congrArg _ same
    | cons b bs => rfl
  rw [bind_of f (peek_eq _), seen]
  exact reads t' same

theorem local_skip (found : ahead s = some c) (ascii : c.toNat < 0x80) : Local skip s := by
  intro _ t read
  obtain ⟨u, rfl⟩ := cons_of_ahead found ascii
  rw [skip_char ascii] at read
  cases read
  exact ⟨[c], rfl, fun t' _ => skip_char ascii t'⟩

theorem local_token (rest : ∀ u, Local (f (ahead u)) u) : Local (token >>= f) s := by
  obtain ⟨before, u, rfl, stop, taken⟩ := token_split s
  intro b t read
  rw [bind_of f taken] at read
  obtain ⟨cs, rfl, reads⟩ := rest u b t read
  refine ⟨before.val ++ cs, by rw [encode_append, List.append_assoc], fun t' same => ?_⟩
  have head : (encode cs ++ t').head? = (encode cs ++ t).head? := by
    cases encode cs with
    | nil => exact same
    | cons b bs => rfl
  have seen : ahead (encode cs ++ t') = ahead (encode cs ++ t) :=
    congrArg (Option.map Char.ofUInt8) head
  rw [encode_append, List.append_assoc, bind_of f (token_before before (by rwa [head])), seen]
  exact reads t' same

theorem local_digits : Local digits s := by
  intro values t read
  obtain ⟨ds, u, all, rfl, stop⟩ := digits_split s
  rw [digits_before all stop] at read
  cases read
  refine ⟨ds, rfl, fun t' same => digits_before all fun c found => stop c ?_⟩
  rwa [ahead, ← same]

theorem local_literal {ls : List Char} (ascii : ∀ c ∈ ls, c.toNat < 0x80) :
    Local (literal ls) s :=
  fun _ _ read => ⟨ls, (literal_bytes ascii).mp read, fun _ _ => (literal_bytes ascii).mpr rfl⟩

theorem local_string : Local string s := by
  intro name t read
  obtain ⟨q, split, rfl⟩ := string_bytes.mp read
  rw [quoted_bytes] at split
  exact ⟨_, (List.cons.inj split).2, fun t' _ => string_quoted q t'⟩

end bytes

/-! Numbers. -/

section numbers

variable {negative : Bool} {significand : Nat} {shift : Int}

theorem local_scaled : Local (scaled negative significand shift) s := by
  unfold scaled
  split
  · exact local_pure _
  · exact local_refuse

theorem local_exponentDigits {below : Bool} :
    Local (exponentDigits negative significand shift below) s := by
  unfold exponentDigits
  refine local_peek ?_
  split
  · exact local_refuse
  · split
    · refine local_digits.bind fun ds u _ => ?_
      split
      · exact local_scaled
      · split
        · exact local_pure _
        · exact local_error
    · intro _ _ read
      cases read

theorem local_exponentPart {c : Char} (found : ahead s = some c) (ascii : c.toNat < 0x80) :
    Local (exponentPart negative significand shift) s := by
  unfold exponentPart
  refine (local_skip found ascii).bind fun _ u _ => local_peek ?_
  generalize found : ahead u = first
  dsimp only
  split
  · exact (local_skip found (by decide)).bind fun _ _ _ => local_exponentDigits
  · exact (local_skip found (by decide)).bind fun _ _ _ => local_exponentDigits
  · exact local_exponentDigits

theorem local_fractionPart (found : ahead s = some '.') :
    Local (fractionPart negative significand shift) s := by
  unfold fractionPart
  refine (local_skip found (by decide)).bind fun _ u _ => local_digits.bind fun ds u _ => ?_
  split
  · refine local_peek ?_
    split
    · exact local_refuseNext
    · exact local_refuseNext
  · refine local_peek ?_
    generalize found : ahead u = first
    split
    · exact local_exponentPart found (by decide)
    · exact local_exponentPart found (by decide)
    · exact local_scaled

theorem local_number : Local (number negative) s := by
  unfold number
  refine local_peek ?_
  split
  · exact local_refuse
  · split
    · refine local_digits.bind fun ds u _ => ?_
      split
      · exact local_error
      · refine local_peek ?_
        generalize found : ahead u = first
        split
        · exact local_fractionPart found
        · exact local_exponentPart found (by decide)
        · exact local_exponentPart found (by decide)
        · split
          · exact local_pure _
          · exact local_scaled
    · intro _ _ read
      cases read

end numbers

/-! Arrays and objects. -/

section brackets

variable {first : Bool}

theorem local_moreItems : Local (moreItems first) s := by
  unfold moreItems
  refine local_token fun u => ?_
  generalize found : ahead u = next
  split
  · exact local_refuseNext
  · exact local_pure _
  · split
    · exact local_pure _
    · split
      · next comma =>
        refine (local_skip found (by rw [comma]; decide)).bind fun _ u _ => local_token fun u => ?_
        split
        · exact local_refuseNext
        · exact local_refuseNext
        · exact local_pure _
      · exact local_refuseNext

theorem local_name (found : ahead s = some '"') :
    Local (do skip; some <$> string : Reader (Option String)) s :=
  (local_skip found (by decide)).bind fun _ _ _ => local_string.map some

theorem local_nextName? : Local (nextName? first) s := by
  unfold nextName?
  refine local_token fun u => ?_
  generalize found : ahead u = next
  split
  · exact local_refuseNext
  · exact local_pure _
  · split
    · split
      · next quote => exact local_name (by rw [found, quote])
      · exact local_refuseNext
    · split
      · next comma =>
        refine (local_skip found (by rw [comma]; decide)).bind fun _ u _ => local_token fun u => ?_
        generalize found : ahead u = next
        split
        · exact local_refuseNext
        · exact local_name found
        · exact local_refuseNext
        · exact local_refuseNext
      · exact local_refuseNext

theorem local_colon : Local colon s := by
  unfold colon
  refine local_token fun u => ?_
  generalize found : ahead u = next
  split
  · exact local_skip found (by decide)
  · exact local_refuseNext
  · exact local_refuseNext

theorem local_closeArray : Local closeArray s := by
  unfold closeArray
  refine local_token fun u => ?_
  generalize found : ahead u = next
  split
  · exact local_refuseNext
  · exact local_skip found (by decide)
  · refine (local_skip found (by decide)).bind fun _ u _ => local_token fun u => ?_
    split
    · exact local_refuseNext
    · exact local_refuseNext
  · exact local_refuseNext

theorem local_closeObject : Local closeObject s := by
  unfold closeObject
  refine local_token fun u => ?_
  generalize found : ahead u = next
  split
  · exact local_refuseNext
  · exact local_skip found (by decide)
  · exact local_refuseNext
  · exact local_refuseNext

end brackets

/-- What is read of a value of any kind. -/
theorem reader_local (fuel : Nat) :
    (∀ depth s, Local (value fuel depth) s) ∧ (∀ depth first s, Local (items fuel depth first) s) ∧
      (∀ depth first s, Local (members fuel depth first) s) := by
  have literal : ∀ {c : Char} {ls : List Char} {j : Json} {s : Bytes}, ahead s = some c →
      (c :: ls).all (·.toNat < 0x80) → Local (do skip; literal ls; pure j : Reader Json) s := by
    intro c ls j s found ascii
    simp only [List.all_eq_true, decide_eq_true_eq] at ascii
    obtain ⟨first, behind⟩ := List.forall_mem_cons.mp ascii
    exact (local_skip found first).bind fun _ _ _ =>
      (local_literal behind).bind fun _ _ _ => local_pure j
  induction fuel with
  | zero =>
    refine ⟨fun depth s => ?_, fun depth first s => ?_, fun depth first s => ?_⟩
    · rw [value.eq_def]
      exact local_refuse
    · rw [items]
      exact local_refuse
    · rw [members]
      exact local_refuse
  | succ fuel ih =>
    obtain ⟨value_local, items_local, members_local⟩ := ih
    refine ⟨fun depth s => ?_, fun depth first s => ?_, fun depth first s => ?_⟩
    · rw [value.eq_def]
      refine local_token fun u => ?_
      generalize found : ahead u = first
      split
      · exact local_refuseNext
      · exact literal found (by decide)
      · exact literal found (by decide)
      · exact literal found (by decide)
      · exact (local_skip found (by decide)).bind fun _ _ _ => local_number
      · exact (local_skip found (by decide)).bind fun _ _ _ => local_string.map Json.str
      · cases depth with
        | zero => exact local_refuseNext
        | succ depth =>
          exact (local_skip found (by decide)).bind fun _ _ _ =>
            (items_local depth true _).bind fun js _ _ =>
              local_closeArray.bind fun _ _ _ => local_pure _
      · cases depth with
        | zero => exact local_refuseNext
        | succ depth =>
          exact (local_skip found (by decide)).bind fun _ _ _ =>
            (members_local depth true _).bind fun ms _ _ =>
              local_closeObject.bind fun _ _ _ => local_pure _
      · split
        · exact local_number
        · exact local_refuseNext
    · rw [items]
      refine local_moreItems.bind fun more u _ => ?_
      split
      · exact (value_local depth _).bind fun j _ _ =>
          (items_local depth false _).bind fun js _ _ => local_pure _
      · exact local_pure _
    · rw [members]
      refine local_nextName?.bind fun name u _ => ?_
      split
      · exact local_colon.bind fun _ _ _ => (value_local depth _).bind fun j _ _ =>
          (members_local depth false _).bind fun ms _ _ => local_pure _
      · exact local_pure _

/-! Values. -/

/-- The bytes are the text of the value. -/
def Stands (depth : Nat) (text : Bytes) (j : Json) : Prop :=
  ∃ cs, text = encode cs ∧ Spells depth cs j

/-- What may stand behind a value in a text: white space, a comma or a closing bracket. -/
def Stops (t : Bytes) : Prop :=
  ∀ b ∈ t.head?, Reader.isSpace b = true ∨ b = 0x2C ∨ b = 0x5D ∨ b = 0x7D

theorem stops_nil : Stops [] :=
  nofun

theorem stops_mark {b : UInt8} (mark : b = 0x2C ∨ b = 0x5D ∨ b = 0x7D) (t : Bytes) :
    Stops (b :: t) := by
  intro c first
  obtain rfl := Option.some.inj first
  exact .inr mark

theorem Stops.spaces (stops : Stops t) (before : Spaces) : Stops (encode before.val ++ t) := by
  have blank := bytes_of_spaces before
  cases bytes : encode before.val with
  | nil => exact stops
  | cons b bs =>
    intro c first
    obtain rfl := Option.some.inj first
    exact .inl (blank b (by rw [bytes]; exact List.mem_cons_self))

/-- The byte behind a value is a character that no number goes on with. -/
theorem Stops.char (stops : Stops t) :
    ∃ cs : List Char, (encode cs).head? = t.head? ∧ Follows cs := by
  cases t with
  | nil => exact ⟨[], rfl, nofun⟩
  | cons b t =>
    have range : b = 0x20 ∨ b = 0x09 ∨ b = 0x0A ∨ b = 0x0D ∨ b = 0x2C ∨ b = 0x5D ∨ b = 0x7D := by
      have cases := stops b rfl
      simp only [Reader.isSpace, Bool.or_eq_true, decide_eq_true_eq] at cases
      tauto
    refine ⟨[Char.ofUInt8 b], ?_, fun c first => ?_⟩
    · rw [← List.map_singleton, encode_ofUInt8]
      · rfl
      · simp only [List.forall_mem_singleton]
        rcases range with rfl | rfl | rfl | rfl | rfl | rfl | rfl <;> decide
    · obtain rfl := Option.some.inj first
      rcases range with rfl | rfl | rfl | rfl | rfl | rfl | rfl <;> decide

section values

variable {fuel depth : Nat} {j : Json} {text : Bytes}

theorem stands_of_value (read : value fuel depth s = .ok (j, t)) (stops : Stops t) :
    ∃ (before : Spaces) (text : Bytes), s = encode before.val ++ (text ++ t) ∧
      Stands depth text j := by
  obtain ⟨cs, rfl, reads⟩ := (reader_local fuel).1 depth s j t read
  obtain ⟨behind, head, -⟩ := stops.char
  have taken := reads _ head
  rw [← encode_append] at taken
  obtain ⟨before, text, rest, split, spells, same⟩ := (reader_sound fuel).1 _ _ _ _ taken
  obtain rfl := encode_injective same
  rw [← List.append_assoc] at split
  obtain rfl := List.append_cancel_right split
  exact ⟨before, encode text, by rw [encode_append, List.append_assoc], text, rfl, spells⟩

theorem Stands.value (stands : Stands depth text j) (before : Spaces) (stops : Stops t)
    (enough : 2 * text.length ≤ fuel) :
    value fuel depth (encode before.val ++ (text ++ t)) = .ok (j, t) := by
  obtain ⟨cs, rfl, spells⟩ := stands
  obtain ⟨behind, head, follows⟩ := stops.char
  have length := length_le_encode cs
  have read := spells.reads fuel before behind (by omega) follows
  obtain ⟨taken, split, reads⟩ := (reader_local fuel).1 depth _ j _ read
  rw [← List.append_assoc, encode_append] at split
  rw [← List.append_assoc, ← encode_append, List.append_cancel_right split]
  exact reads t head.symm

end values

end Parley.Json.Grammar
