import Parley.Proofs.Alignment
import Parley.Proofs.Bodies

/-! An element of the choices replaced by another. The rest of the body is read as before, and the
response changes in the choice of that element only. -/
namespace Parley

open Json Json.Grammar

namespace Response

/-! Where the choices stand. -/

/-- A body up to the value of its choices. What stands before it is passed over loosely: whether the
body is decoded does not matter here. -/
inductive Opening
  | members (entries : List Entry) (lead : Spaces) (name : Quoted) (trail : Spaces)
    (sound : ∀ e ∈ entries, PassesQuoted e.name ∧ Skims e.piece.text)
    (named : name.value = "choices")
  | items (pieces : List Piece) (four : pieces.length = 4) (sound : ∀ p ∈ pieces, Skims p.text)

def Opening.bytes : Opening → Bytes
  | members entries lead name trail _ _ =>
    0x7B :: (led (entries.map Entry.bytes) ++ (Utf8.encode lead.val ++
      (Utf8.encode name.chars ++ (Utf8.encode trail.val ++ [0x3A]))))
  | items pieces _ _ => 0x5B :: led (pieces.map Piece.bytes)

section openings

theorem bracket_opens (y : Bytes) : Json.Opens (0x5B :: y) :=
  .intro rfl (by decide)

variable {b : Spaces} {y r : Bytes}

/-- What stands behind the opening is a text of the choices, and any other may stand there. -/
def Opening.Leads (o : Opening) (b : Spaces) (y r : Bytes) (texts : List (String × Bytes)) : Prop :=
  ∃ (before : List (String × Bytes)) (chosen : Bytes) (behind : List (String × Bytes))
    (tail : Bytes), texts = before ++ ("choices", chosen) :: behind ∧
    0x5B :: y = chosen ++ (tail ++ r) ∧ ∀ other : Bytes,
      RecordText Draft.names (o.bytes ++ (Utf8.encode b.val ++ (other ++ tail)))
        (before ++ ("choices", other) :: behind)

theorem leads_members {entries : List Entry} {lead trail : Spaces} {name : Quoted}
    {members : List Assignment} (sound : ∀ e ∈ entries, PassesQuoted e.name ∧ Skims e.piece.text)
    (named : name.value = "choices") (skims : ∀ p ∈ members.map Assignment.pair, Skims p.2)
    (same : (Opening.members entries lead name trail sound named).bytes ++
        (Utf8.encode b.val ++ 0x5B :: y) =
      0x7B :: (joined true (members.map (·.entry.bytes)) ++ [0x7D]) ++ r) :
    (Opening.members entries lead name trail sound named).Leads b y r
      (members.map Assignment.pair) := by
  simp only [Opening.bytes, List.cons_append, List.append_assoc, List.nil_append,
    List.cons.injEq, true_and] at same
  obtain ⟨before, q, chosen, after, behind, rfl, rfl, spelled, value⟩ :=
    members_aligned sound (fun a member => skims a.pair (List.mem_map_of_mem member))
      (bracket_opens y) same
  have value_eq : q.value = "choices" := (Quoted.value_eq spelled).trans named
  refine ⟨before.map Assignment.pair, chosen, behind.map Assignment.pair,
    Utf8.encode after.val ++ (joined false (behind.map (·.entry.bytes)) ++ [0x7D]), ?_, ?_,
    fun other => ?_⟩
  · rw [List.map_append, List.map_cons, Assignment.pair, value_eq]
  · simpa using value
  · have written : RecordText Draft.names _ _ :=
      .obj blank (before ++ ⟨lead, q, trail, b, other, after⟩ :: behind)
    rw [List.map_append, List.map_cons, List.map_append, List.map_cons, joined_led,
      Assignment.pair, value_eq] at written
    refine Eq.mp (congrArg (RecordText Draft.names · _) ?_) written
    simp [Opening.bytes, Assignment.entry, Entry.bytes, Piece.bytes, spelled, encode_blank,
      Function.comp_def]

theorem leads_items {pieces items : List Piece} (four : pieces.length = 4)
    (sound : ∀ p ∈ pieces, Skims p.text) (short : items.length ≤ Draft.names.length)
    (skims : ∀ p ∈ Draft.names.zip (items.map Piece.text), Skims p.2)
    (same : (Opening.items pieces four sound).bytes ++ (Utf8.encode b.val ++ 0x5B :: y) =
      0x5B :: (joined true (items.map Piece.bytes) ++ [0x5D]) ++ r) :
    (Opening.items pieces four sound).Leads b y r
      (Draft.names.zip (items.map Piece.text)) := by
  simp only [Opening.bytes, List.cons_append, List.append_assoc, List.nil_append,
    List.cons.injEq, true_and] at same
  obtain ⟨chosen, after, behind, rfl, value⟩ :=
    items_aligned sound (skims_of_zip short skims) (bracket_opens y) same
  -- The choices are the fifth of the values.
  have zipped : ∀ other, Draft.names.zip ((pieces ++ ⟨b, other, after⟩ :: behind).map Piece.text) =
      ["id", "object", "created", "model"].zip (pieces.map Piece.text) ++
        ("choices", other) :: ["usage"].zip (behind.map Piece.text) := by
    intro other
    rw [List.map_append, List.map_cons, show Draft.names =
      ["id", "object", "created", "model"] ++ ["choices", "usage"] from rfl,
      List.zip_append (by rw [List.length_map, four]; rfl)]
    rfl
  refine ⟨_, chosen, _, Utf8.encode after.val ++ (joined false (behind.map Piece.bytes) ++ [0x5D]),
    zipped chosen, ?_, fun other => ?_⟩
  · simpa using value
  · have written : RecordText Draft.names _ _ :=
      .arr blank (pieces ++ ⟨b, other, after⟩ :: behind) (by simpa using short)
    rw [zipped, List.map_append, List.map_cons, joined_led] at written
    refine Eq.mp (congrArg (RecordText Draft.names · _) ?_) written
    simp [Opening.bytes, Piece.bytes, encode_blank]

theorem Opening.leads (o : Opening) {text : Bytes} {texts : List (String × Bytes)}
    (record : RecordText Draft.names text texts) (skims : ∀ p ∈ texts, Skims p.2)
    (given : texts ≠ []) (same : o.bytes ++ (Utf8.encode b.val ++ 0x5B :: y) = text ++ r) :
    o.Leads b y r texts := by
  cases o with
  | members entries lead name trail sound named =>
    cases record with
    | arr inside pieces short => cases same
    | obj inside members =>
      have some : members ≠ [] := fun none => given (by rw [none]; rfl)
      obtain ⟨members, pairs, bytes⟩ := joined_members inside some
      rw [← pairs] at skims ⊢
      rw [← List.append_assoc (Utf8.encode inside.val), ← bytes] at same
      exact leads_members sound named skims same
  | items pieces four sound =>
    cases record with
    | obj inside members => cases same
    | arr inside items short =>
      have some : items ≠ [] := fun none => given (by rw [none]; rfl)
      obtain ⟨items', texts, bytes⟩ := joined_pieces inside some
      have length : items'.length = items.length := by
        simpa using congrArg List.length texts
      rw [← texts] at skims ⊢
      rw [← List.append_assoc (Utf8.encode inside.val), ← bytes] at same
      exact leads_items four sound (length.trans_le short) skims same

end openings

/-- Choices may be replaced: nothing else that the draft holds depends on their text. -/
theorem Draft.Holds.replace {before behind : List (String × Bytes)} {text other : Bytes}
    {d : Draft} {js ks : List Json} (holds : d.Holds (before ++ ("choices", text) :: behind))
    (given : d.choices = some js) (means : IsArray other ks) :
    { d with choices := some ks }.Holds (before ++ ("choices", other) :: behind) where
  id := (one_other (by decide)).mpr ((one_other (by decide)).mp holds.id)
  object := (one_other (by decide)).mpr ((one_other (by decide)).mp holds.object)
  created := (one_other (by decide)).mpr ((one_other (by decide)).mp holds.created)
  model := (one_other (by decide)).mpr ((one_other (by decide)).mp holds.model)
  choices := by
    have one := holds.choices
    rw [given] at one
    exact one_here.mpr ⟨(one_here.mp one).1, means⟩
  given := rfl
  usage := (one_other (by decide)).mpr ((one_other (by decide)).mp holds.usage)
  others := by
    have others := holds.others
    simp only [List.forall_mem_append, List.forall_mem_cons] at others ⊢
    exact ⟨others.1, fun unknown => (unknown (by decide)).elim, others.2.2⟩

/-! Where an element stands. -/

/-- An element of the choices stands inside two brackets. -/
def elementDepth : Nat := depthLimit - 2

/-- The body around an element of its choices: what opens the choices, the elements before it, and
all that stands behind it. -/
structure Place where
  start : Spaces
  opening : Opening
  lead : Spaces
  elements : List Piece
  sound : ∀ p ∈ elements, Skims p.text
  before : Spaces
  after : Bytes
  stops : Stops after

namespace Place

def fill (p : Place) (v : Bytes) : Bytes :=
  Utf8.encode p.start.val ++ (p.opening.bytes ++ (Utf8.encode p.lead.val ++
    0x5B :: (led (p.elements.map Piece.bytes) ++ (Utf8.encode p.before.val ++ (v ++ p.after)))))

/-- The other elements stand for these values. -/
structure Around (p : Place) (earlier later : List Json) : Prop where
  earlier : List.Forall₂ (Stands elementDepth) (p.elements.map Piece.text) earlier
  later : ∃ (trail : Spaces) (pieces : List Piece) (rest : Bytes),
    p.after = Utf8.encode trail.val ++ (joined false (pieces.map Piece.bytes) ++ 0x5D :: rest) ∧
      List.Forall₂ (Stands elementDepth) (pieces.map Piece.text) later

end Place

section elements

variable {elements : List Piece} {before : Spaces} {v w after : Bytes} {j k : Json}

/-- An array with the element is an array with any other in its place. -/
theorem array_replace {chosen rest : Bytes} {js : List Json}
    (sound : ∀ p ∈ elements, Skims p.text) (stops : Stops after) (here : Stands elementDepth v j)
    (there : Stands elementDepth w k) (array : IsArray chosen js)
    (same : 0x5B :: (led (elements.map Piece.bytes) ++ (Utf8.encode before.val ++ (v ++ after))) =
      chosen ++ rest) :
    ∃ (trail : Spaces) (behind : List Piece) (earlier later : List Json) (other : Bytes),
      after = Utf8.encode trail.val ++ (joined false (behind.map Piece.bytes) ++ 0x5D :: rest) ∧
      js = earlier ++ j :: later ∧
      List.Forall₂ (Stands elementDepth) (elements.map Piece.text) earlier ∧
      List.Forall₂ (Stands elementDepth) (behind.map Piece.text) later ∧
      0x5B :: (led (elements.map Piece.bytes) ++ (Utf8.encode before.val ++ (w ++ after))) =
        other ++ rest ∧ IsArray other (earlier ++ k :: later) := by
  obtain ⟨inside, pieces, rfl, all⟩ := stands_arr_iff.mp array
  simp only [List.cons_append, List.append_assoc, List.nil_append, List.cons.injEq,
    true_and] at same
  have some : pieces ≠ [] := by
    rintro rfl
    rw [List.map_nil, joined_nil] at same
    exact led_ne_bracket sound (here.skims.ahead _) inside same
  obtain ⟨pieces, texts, bytes⟩ := joined_pieces inside some
  rw [← List.append_assoc (Utf8.encode inside.val), ← bytes] at same
  rw [← texts] at all
  have skims := skims_of_stands all
  obtain ⟨text, trail, behind, rfl, value⟩ :=
    items_aligned sound skims (here.skims.ahead _) same
  have both : Utf8.encode blank.val ++ (v ++ after) = Utf8.encode blank.val ++ (text ++ _) := value
  obtain ⟨-, rfl, rfl⟩ := skims_aligned here.skims
    (skims _ (List.mem_append_right _ List.mem_cons_self)) stops
    ((stops_joined _ (.inl rfl)).spaces trail) both
  rw [List.map_append, List.map_cons] at all
  obtain ⟨earlier, i, later, rfl, first, middle, last⟩ := forall₂_split all
  obtain rfl := stands_unique here middle
  refine ⟨trail, behind, earlier, later, _, rfl, rfl, first, last, ?_, stands_arr_iff.mpr
    ⟨blank, elements ++ ⟨before, w, trail⟩ :: behind, rfl, ?_⟩⟩
  · rw [List.map_append, List.map_cons, joined_led]
    simp [Piece.bytes, encode_blank]
  · rw [List.map_append, List.map_cons]
    exact List.rel_append first (.cons there last)

end elements

theorem Opening.dark (o : Opening) (t : Bytes) : Dark (o.bytes ++ t) := by
  cases o with
  | members => exact cons_dark rfl _
  | items => exact cons_dark rfl _

/-- What is written with the element is written with any other in its place. -/
theorem Written.replace {p : Place} {v w : Bytes} {j k : Json} {d : Draft}
    (here : Stands elementDepth v j) (there : Stands elementDepth w k)
    (written : Written (p.fill v) d) : ∃ earlier later, p.Around earlier later ∧
      d.choices = some (earlier ++ j :: later) ∧
      Written (p.fill w) { d with choices := some (earlier ++ k :: later) } := by
  obtain ⟨start, close, text, texts, same, record, holds⟩ := written
  have skims := (Draft.fits_iff.mpr holds).skims
  obtain ⟨js, given⟩ := Option.isSome_iff_exists.mp holds.given
  have chosen := holds.choices
  rw [given] at chosen
  have some : texts ≠ [] := by
    rintro rfl
    obtain ⟨text, clash, -⟩ := chosen
    cases clash
  obtain ⟨rfl, opened⟩ := spaces_aligned (p.opening.dark _) ((record.skims skims).dark _) same
  obtain ⟨before, chosen', behind, tail, rfl, value, other⟩ :=
    p.opening.leads record skims some opened
  obtain ⟨trail, pieces, earlier, later, array, after, rfl, first, last, bytes, means⟩ :=
    array_replace p.sound p.stops here there (one_here.mp chosen).2 value
  refine ⟨earlier, later, ⟨first, trail, pieces, _, after, last⟩, given, p.start, close, _, _, ?_,
    other array, holds.replace given means⟩
  rw [Place.fill, bytes]
  simp

/-- The message of an element that is a choice of the assistant's. -/
def assistantMessageOf? (j : Json) : Option Message :=
  ((Choice.ofJson? j).map (·.message)).filter fun m => m.role = .assistant

theorem assistantMessage?_of {r : Response} {js : List Json}
    (choices : r.choices = js.filterMap Choice.ofJson?) :
    r.assistantMessage? = js.findSome? assistantMessageOf? := by
  unfold assistantMessage?
  rw [choices]
  clear choices
  induction js with
  | nil => rfl
  | cons j js ih =>
    rw [List.filterMap_cons, List.findSome?_cons, assistantMessageOf?]
    cases Choice.ofJson? j with
    | none => exact ih
    | some c =>
      rw [List.map_cons, List.find?_cons, Option.map_some, Option.filter_some]
      cases decide (c.message.role = .assistant) with
      | true => rfl
      | false => exact ih

/-- The choices with the element between the others. -/
def choicesAround (earlier later : List Json) (j : Json) : List Choice :=
  earlier.filterMap Choice.ofJson? ++
    ((Choice.ofJson? j).toList ++ later.filterMap Choice.ofJson?)

theorem filterMap_around (earlier later : List Json) (j : Json) :
    (earlier ++ j :: later).filterMap Choice.ofJson? = choicesAround earlier later j := by
  rw [List.filterMap_append, List.filterMap_cons, choicesAround]
  cases Choice.ofJson? j <;> rfl

theorem toResponse_around (d : Draft) (earlier later : List Json) (j : Json) :
    { d with choices := some (earlier ++ j :: later) }.toResponse =
      { d.toResponse with choices := choicesAround earlier later j } := by
  rw [← filterMap_around]
  rfl

/-- An element of the choices may be replaced by any other value: the body is decoded as before or
refused as before, and the response differs in that element's choice only. -/
theorem choices_independent (p : Place) {v w : Bytes} {j k : Json}
    (here : Stands elementDepth v j) (there : Stands elementDepth w k) :
    ((∃ r, decode (p.fill v) = .ok r) ↔ ∃ r, decode (p.fill w) = .ok r) ∧
    ∀ r, decode (p.fill v) = .ok r → ∃ earlier later, p.Around earlier later ∧
      r.choices = choicesAround earlier later j ∧
      decode (p.fill w) = .ok { r with choices := choicesAround earlier later k } ∧
      r.assistantMessage? = (earlier ++ j :: later).findSome? assistantMessageOf? := by
  refine ⟨⟨?_, ?_⟩, fun r decoded => ?_⟩
  · rintro ⟨r, decoded⟩
    obtain ⟨d, written, -⟩ := decode_iff.mp decoded
    obtain ⟨_, _, -, -, replaced⟩ := written.replace here there
    exact ⟨_, decode_iff.mpr ⟨_, replaced, rfl⟩⟩
  · rintro ⟨r, decoded⟩
    obtain ⟨d, written, -⟩ := decode_iff.mp decoded
    obtain ⟨_, _, -, -, replaced⟩ := written.replace there here
    exact ⟨_, decode_iff.mpr ⟨_, replaced, rfl⟩⟩
  · obtain ⟨d, written, rfl⟩ := decode_iff.mp decoded
    obtain ⟨earlier, later, around, given, replaced⟩ := written.replace here there
    have choices : d.toResponse.choices = (earlier ++ j :: later).filterMap Choice.ofJson? := by
      rw [Draft.toResponse, given]
      rfl
    refine ⟨earlier, later, around, ?_, ?_, assistantMessage?_of choices⟩
    · rw [choices, filterMap_around]
    · exact decode_iff.mpr ⟨_, replaced, (toResponse_around d earlier later k).symm⟩

/-- The first of two choices, the second of which is the assistant's. -/
def firstOfTwo : Place where
  start := blank
  opening := .members [] blank ⟨"choices".toList, "choices".toList, spelled_plain (by simp)⟩ blank
    (List.forall_mem_nil _) rfl
  lead := blank
  elements := []
  sound := List.forall_mem_nil _
  before := blank
  after := Utf8.ofString ",[0,[\"assistant\",\"hi\"]]]\x7d"
  stops := by
    intro b first
    obtain rfl : 0x2C = b := Option.some.inj first
    exact .inr (.inl rfl)

theorem choices_independent_firstOfTwo :
    let v := Utf8.encode ['n', 'u', 'l', 'l']
    let w := Utf8.encode ['t', 'r', 'u', 'e']
    Stands elementDepth v .null ∧ Stands elementDepth w (.bool true) ∧
    (((∃ r, decode (firstOfTwo.fill v) = .ok r) ↔ ∃ r, decode (firstOfTwo.fill w) = .ok r) ∧
      ∀ r, decode (firstOfTwo.fill v) = .ok r → ∃ earlier later, firstOfTwo.Around earlier later ∧
        r.choices = choicesAround earlier later .null ∧
        decode (firstOfTwo.fill w) =
          .ok { r with choices := choicesAround earlier later (.bool true) } ∧
        r.assistantMessage? = (earlier ++ .null :: later).findSome? assistantMessageOf?) ∧
    (decode (firstOfTwo.fill v)).toOption.map (·.choices) =
      some [⟨0, .assistant "hi", none⟩] :=
  ⟨⟨_, rfl, .null _⟩, ⟨_, rfl, .true _⟩,
    choices_independent firstOfTwo ⟨_, rfl, .null _⟩ ⟨_, rfl, .true _⟩, by decide +kernel⟩

end Response

end Parley
