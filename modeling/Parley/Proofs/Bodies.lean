import Parley.Chat.Decoding
import Parley.Proofs.Maps
import Parley.Proofs.TypedReaders

/-! Which bodies are responses. A body is decoded just when it is, in white space, the text of a
record that has choices and whose other fields are of their types. -/
namespace Parley

open Json Json.Grammar

namespace Json.Grammar

theorem skims_of_zip {names : List String} {pieces : List Piece}
    (short : pieces.length ≤ names.length)
    (all : ∀ p ∈ names.zip (pieces.map Piece.text), Skims p.2) : ∀ p ∈ pieces, Skims p.text := by
  intro p member
  have within : p.text ∈ (names.zip (pieces.map Piece.text)).map Prod.snd := by
    rw [List.map_snd_zip (by simpa using short)]
    exact List.mem_map_of_mem member
  obtain ⟨q, here, same⟩ := List.mem_map.mp within
  rw [← same]
  exact all q here

theorem RecordText.skims {names : List String} {text : Bytes} {texts : List (String × Bytes)}
    (record : RecordText names text texts) (all : ∀ p ∈ texts, Skims p.2) : Skims text := by
  cases record with
  | obj inside members =>
    rw [show (fun a : Assignment => a.entry.bytes) = Entry.bytes ∘ Assignment.entry from rfl,
      ← List.map_map]
    refine .obj inside (fun e member => ?_) fun e member => ?_
    · obtain ⟨a, within, rfl⟩ := List.mem_map.mp member
      exact a.name.passes
    · obtain ⟨a, within, rfl⟩ := List.mem_map.mp member
      exact all a.pair (List.mem_map_of_mem within)
  | arr inside pieces short => exact .arr inside (skims_of_zip short all)

/-- All texts of a record that a draft fits are of the loose grammar. -/
theorem Schema.Fits.skims {σ : Type} {S : Schema σ} {texts : List (String × Bytes)} {d : σ}
    (fits : S.Fits texts d) : ∀ p ∈ texts, Skims p.2 := by
  intro p member
  by_cases known : p.1 ∈ S.names
  · obtain ⟨a, within, name⟩ := List.mem_map.mp known
    have one := fits.each a within
    cases held : a.get d with
    | none =>
      rw [held] at one
      exact (one p member name.symm).elim
    | some x =>
      rw [held] at one
      obtain ⟨text, only, means⟩ := one
      have here : p ∈ texts.filter (·.1 = a.name) :=
        List.mem_filter.mpr ⟨member, decide_eq_true name.symm⟩
      rw [only] at here
      obtain rfl := List.mem_singleton.mp here
      exact a.skims means
  · exact fits.others p member known

theorem finish_bytes {s t : Bytes} (read : finish s = .ok ((), t)) :
    ∃ after : Spaces, s = Utf8.encode after.val := by
  obtain ⟨after, u, rfl, -, taken⟩ := token_split s
  unfold finish at read
  rw [bind_of _ taken] at read
  cases u with
  | nil => exact ⟨after, List.append_nil _⟩
  | cons b u => cases read

/-- What is read is followed by white space only. -/
theorem read_whole {α : Type} {x : Reader α} {s : Bytes} {a : α} :
    (do let a ← x; finish; pure a : Reader α).run' s = .ok a ↔
      ∃ after : Spaces, x s = .ok (a, Utf8.encode after.val) := by
  unfold StateT.run'
  constructor
  · intro read
    cases whole : (do let a ← x; finish; pure a : Reader α) s with
    | error f =>
      rw [whole] at read
      cases read
    | ok r =>
      rw [whole] at read
      cases read
      obtain ⟨a, rest, taken, behind⟩ := ok_of_bind whole
      obtain ⟨_, u, finished, done⟩ := ok_of_bind behind
      cases done
      obtain ⟨after, rfl⟩ := finish_bytes finished
      exact ⟨after, taken⟩
  · rintro ⟨after, taken⟩
    rw [bind_of _ taken, bind_of _ (finish_spaces after)]
    rfl

end Json.Grammar

/-! The texts of the fields' values. -/

/-- A field's value stands inside one bracket. -/
def fieldDepth : Nat := depthLimit - 1

def IsString (text : Bytes) (s : String) : Prop :=
  Stands fieldDepth text (.str s)

def IsSigned (text : Bytes) (n : Int) : Prop :=
  Stands fieldDepth text (.int n) ∧ -0x8000000000000000 ≤ n ∧ n ≤ 0x7FFFFFFFFFFFFFFF

def IsUnsigned (text : Bytes) (n : Nat) : Prop :=
  Stands fieldDepth text (.int n) ∧ n ≤ 0xFFFFFFFFFFFFFFFF

def IsArray (text : Bytes) (items : List Json) : Prop :=
  Stands fieldDepth text (.arr items)

section slots

variable {σ : Type} (name : String)

def stringSlot (get : σ → Option String) (set : σ → String → σ)
    (get_set : ∀ d x, get (set d x) = some x) : Slot σ where
  name := name
  required := false
  Held := String
  get := get
  set := set
  read _ := readString
  Means := IsString
  get_set := get_set
  sound read _ := readString_sound read fieldDepth
  complete means _ before t _ := readString_complete means before t
  skims means := means.skims

def signedSlot (get : σ → Option Int) (set : σ → Int → σ)
    (get_set : ∀ d x, get (set d x) = some x) : Slot σ where
  name := name
  required := false
  Held := Int
  get := get
  set := set
  read _ := readSigned
  Means := IsSigned
  get_set := get_set
  sound read stops := readInt_sound read stops fieldDepth
  complete means _ before _ stops := readInt_complete means.1 means.2.1 means.2.2 before stops
  skims means := means.1.skims

theorem readUnsigned_sound {s t : Bytes} {n : Nat} (read : readUnsigned s = .ok (n, t))
    (stops : Stops t) : ∃ (before : Spaces) (text : Bytes),
      s = Utf8.encode before.val ++ (text ++ t) ∧ IsUnsigned text n := by
  obtain ⟨k, u, taken, done⟩ := ok_of_bind (f := fun k : Int => pure k.toNat) read
  cases done
  obtain ⟨before, text, same, stands, least, most⟩ := readInt_sound taken stops fieldDepth
  refine ⟨before, text, same, ?_, by omega⟩
  rwa [Int.toNat_of_nonneg least]

theorem readUnsigned_complete {t text : Bytes} {n : Nat} (means : IsUnsigned text n)
    (before : Spaces) (stops : Stops t) :
    readUnsigned (Utf8.encode before.val ++ (text ++ t)) = .ok (n, t) := by
  obtain ⟨stands, most⟩ := means
  have read : readInt 0 0xFFFFFFFFFFFFFFFF "u64" (Utf8.encode before.val ++ (text ++ t)) =
      .ok ((n : Int), t) :=
    readInt_complete stands (Int.natCast_nonneg n) (by omega) before stops
  exact bind_of (fun k : Int => pure k.toNat) read

def unsignedSlot (get : σ → Option Nat) (set : σ → Nat → σ)
    (get_set : ∀ d x, get (set d x) = some x) : Slot σ where
  name := name
  required := false
  Held := Nat
  get := get
  set := set
  read _ := readUnsigned
  Means := IsUnsigned
  get_set := get_set
  sound := readUnsigned_sound
  complete means _ before _ stops := readUnsigned_complete means before stops
  skims means := means.1.skims

end slots

/-! The usage of a response. -/

namespace Usage.Draft

def names : List String :=
  ["prompt_tokens", "completion_tokens", "total_tokens"]

/-- The draft holds what the texts say. -/
structure Holds (texts : List (String × Bytes)) (d : Draft) : Prop where
  promptTokens : One texts "prompt_tokens" IsUnsigned d.promptTokens
  completionTokens : One texts "completion_tokens" IsUnsigned d.completionTokens
  totalTokens : One texts "total_tokens" IsUnsigned d.totalTokens
  others : ∀ p ∈ texts, p.1 ∉ names → Skims p.2

def promptTokensSlot : Slot Draft :=
  unsignedSlot "prompt_tokens" (·.promptTokens) (fun d x => { d with promptTokens := some x })
    fun _ _ => rfl

def completionTokensSlot : Slot Draft :=
  unsignedSlot "completion_tokens" (·.completionTokens)
    (fun d x => { d with completionTokens := some x }) fun _ _ => rfl

def totalTokensSlot : Slot Draft :=
  unsignedSlot "total_tokens" (·.totalTokens) (fun d x => { d with totalTokens := some x })
    fun _ _ => rfl

def schema : Schema Draft where
  slots := [promptTokensSlot, completionTokensSlot, totalTokensSlot]
  distinct := by decide
  frame := by
    intro a first b second other d x
    simp only [List.mem_cons, List.not_mem_nil, or_false] at first second
    rcases first with rfl | rfl | rfl <;> rcases second with rfl | rfl | rfl <;>
      first | rfl | exact (other rfl).elim
  ext d d' same := by
    simp only [List.forall_mem_cons] at same
    obtain ⟨prompt, completion, total, -⟩ := same
    obtain ⟨_, _, _⟩ := d
    obtain ⟨_, _, _⟩ := d'
    obtain rfl : _ = _ := prompt
    obtain rfl : _ = _ := completion
    obtain rfl : _ = _ := total
    rfl

theorem fields_eq (fuel : Nat) : fields = schema.fields fuel :=
  rfl

theorem fits_iff {texts : List (String × Bytes)} {d : Draft} :
    schema.Fits texts d ↔ d.Holds texts := by
  constructor
  · rintro ⟨each, -, others⟩
    simp only [schema, List.forall_mem_cons] at each
    obtain ⟨prompt, completion, total, -⟩ := each
    exact ⟨prompt, completion, total, others⟩
  · rintro ⟨prompt, completion, total, others⟩
    refine ⟨?_, ?_, others⟩
    · simp only [schema, List.forall_mem_cons]
      exact ⟨prompt, completion, total, List.forall_mem_nil _⟩
    · simp only [schema, List.forall_mem_cons]
      exact ⟨nofun, nofun, nofun, List.forall_mem_nil _⟩

theorem fresh : ∀ a ∈ schema.slots, a.get {} = none := by
  simp only [schema, List.forall_mem_cons]
  exact ⟨rfl, rfl, rfl, List.forall_mem_nil _⟩

end Usage.Draft

/-- The text of a usage, or of none. -/
def IsUsage (text : Bytes) : Option Usage → Prop
  | none => Stands fieldDepth text .null
  | some u => ∃ texts d, RecordText Usage.Draft.names text texts ∧ Usage.Draft.Holds texts d ∧
      u.promptTokens = d.promptTokens.getD 0 ∧ u.completionTokens = d.completionTokens.getD 0 ∧
      u.totalTokens = d.totalTokens.getD 0

theorem readUsage_sound {fuel : Nat} {s t : Bytes} {u : Option Usage}
    (read : readOptional (Usage.read fuel fieldDepth) s = .ok (u, t)) :
    ∃ (before : Spaces) (text : Bytes), s = Utf8.encode before.val ++ (text ++ t) ∧
      IsUsage text u := by
  rcases readOptional_sound read with ⟨before, rfl, rfl⟩ | ⟨before, v, x, rfl, record, rfl⟩
  · exact ⟨before, _, rfl, stands_null fieldDepth⟩
  · obtain ⟨d, w, taken, done⟩ := ok_of_bind (f := fun d : Usage.Draft => pure d.toUsage) record
    cases done
    rw [Usage.Draft.fields_eq fuel] at taken
    obtain ⟨inner, text, texts, rfl, record, fits⟩ := readRecord_sound Usage.Draft.fresh taken
    refine ⟨before.append inner, text, by rw [Spaces.encode_append, List.append_assoc], texts, d,
      record, Usage.Draft.fits_iff.mp fits, rfl, rfl, rfl⟩

theorem readUsage_complete {fuel : Nat} {text t : Bytes} {u : Option Usage} (means : IsUsage text u)
    (enough : 2 * text.length ≤ fuel) (before : Spaces) :
    readOptional (Usage.read fuel fieldDepth) (Utf8.encode before.val ++ (text ++ t)) =
      .ok (u, t) := by
  cases u with
  | none =>
    obtain ⟨_, rfl, rfl⟩ := Stands.form means
    exact readOptional_null before t
  | some u =>
    obtain ⟨texts, d, record, holds, prompt, completion, total⟩ := means
    have same : u = d.toUsage := by
      rw [Usage.Draft.toUsage, ← prompt, ← completion, ← total]
    subst same
    have taken : readRecord "struct UsageIn" (Usage.Draft.schema.fields fuel) fuel fieldDepth {}
        (Utf8.encode blank.val ++ (text ++ t)) = .ok (d, t) :=
      readRecord_complete Usage.Draft.fresh record (Usage.Draft.fits_iff.mpr holds) (by decide) enough
        enough blank t
    rw [encode_blank, List.nil_append, ← Usage.Draft.fields_eq] at taken
    have read : Usage.read fuel fieldDepth (text ++ t) = .ok (d.toUsage, t) :=
      bind_of (fun d : Usage.Draft => pure d.toUsage) taken
    cases record with
    | obj inside members => exact readOptional_some before rfl (by decide) read
    | arr inside pieces short => exact readOptional_some before rfl (by decide) read

theorem IsUsage.skims {text : Bytes} {u : Option Usage} (means : IsUsage text u) : Skims text := by
  cases u with
  | none => exact Stands.skims means
  | some u =>
    obtain ⟨texts, d, record, holds, -⟩ := means
    exact record.skims (Usage.Draft.fits_iff.mpr holds).skims

/-! Responses. -/

namespace Response.Draft

def names : List String :=
  ["id", "object", "created", "model", "choices", "usage"]

/-- The draft holds what the texts say. -/
structure Holds (texts : List (String × Bytes)) (d : Draft) : Prop where
  id : One texts "id" IsString d.id
  object : One texts "object" IsString d.object
  created : One texts "created" IsSigned d.created
  model : One texts "model" IsString d.model
  choices : One texts "choices" IsArray d.choices
  given : d.choices.isSome
  usage : One texts "usage" IsUsage d.usage
  others : ∀ p ∈ texts, p.1 ∉ names → Skims p.2

def idSlot : Slot Draft :=
  stringSlot "id" (·.id) (fun d x => { d with id := some x }) fun _ _ => rfl

def objectSlot : Slot Draft :=
  stringSlot "object" (·.object) (fun d x => { d with object := some x }) fun _ _ => rfl

def createdSlot : Slot Draft :=
  signedSlot "created" (·.created) (fun d x => { d with created := some x }) fun _ _ => rfl

def modelSlot : Slot Draft :=
  stringSlot "model" (·.model) (fun d x => { d with model := some x }) fun _ _ => rfl

def choicesSlot : Slot Draft where
  name := "choices"
  required := true
  Held := List Json
  get d := d.choices
  set d x := { d with choices := some x }
  read fuel := readArray fuel fieldDepth
  Means := IsArray
  get_set _ _ := rfl
  sound := readArray_sound
  complete means enough before _ stops := readArray_complete means enough before stops
  skims means := means.skims

def usageSlot : Slot Draft where
  name := "usage"
  required := false
  Held := Option Usage
  get d := d.usage
  set d x := { d with usage := some x }
  read fuel := readOptional (Usage.read fuel fieldDepth)
  Means := IsUsage
  get_set _ _ := rfl
  sound read _ := readUsage_sound read
  complete means enough before _ _ := readUsage_complete means enough before
  skims means := means.skims

def schema : Schema Draft where
  slots := [idSlot, objectSlot, createdSlot, modelSlot, choicesSlot, usageSlot]
  distinct := by decide
  frame := by
    intro a first b second other d x
    simp only [List.mem_cons, List.not_mem_nil, or_false] at first second
    rcases first with rfl | rfl | rfl | rfl | rfl | rfl <;>
      rcases second with rfl | rfl | rfl | rfl | rfl | rfl <;>
      first | rfl | exact (other rfl).elim
  ext d d' same := by
    simp only [List.forall_mem_cons] at same
    obtain ⟨id, object, created, model, choices, usage, -⟩ := same
    obtain ⟨_, _, _, _, _, _⟩ := d
    obtain ⟨_, _, _, _, _, _⟩ := d'
    obtain rfl : _ = _ := id
    obtain rfl : _ = _ := object
    obtain rfl : _ = _ := created
    obtain rfl : _ = _ := model
    obtain rfl : _ = _ := choices
    obtain rfl : _ = _ := usage
    rfl

theorem fields_eq (fuel : Nat) : fields fuel depthLimit = schema.fields fuel :=
  rfl

theorem fits_iff {texts : List (String × Bytes)} {d : Draft} :
    schema.Fits texts d ↔ d.Holds texts := by
  constructor
  · rintro ⟨each, required, others⟩
    simp only [schema, List.forall_mem_cons] at each required
    obtain ⟨id, object, created, model, choices, usage, -⟩ := each
    exact ⟨id, object, created, model, choices, required.2.2.2.2.1 rfl, usage, others⟩
  · rintro ⟨id, object, created, model, choices, given, usage, others⟩
    refine ⟨?_, ?_, others⟩
    · simp only [schema, List.forall_mem_cons]
      exact ⟨id, object, created, model, choices, usage, List.forall_mem_nil _⟩
    · simp only [schema, List.forall_mem_cons]
      exact ⟨nofun, nofun, nofun, nofun, fun _ => given, nofun, List.forall_mem_nil _⟩

theorem fresh : ∀ a ∈ schema.slots, a.get {} = none := by
  simp only [schema, List.forall_mem_cons]
  exact ⟨rfl, rfl, rfl, rfl, rfl, rfl, List.forall_mem_nil _⟩

end Response.Draft

/-! Whole bodies. -/

namespace Response

/-- The body is the text of a record, in white space, and the draft holds what the texts of the
record say. -/
def Written (body : Bytes) (d : Draft) : Prop :=
  ∃ (before after : Spaces) (text : Bytes) (texts : List (String × Bytes)),
    body = Utf8.encode before.val ++ (text ++ Utf8.encode after.val) ∧
      RecordText Draft.names text texts ∧ d.Holds texts

theorem read_iff {body : Bytes} {d : Draft} : read body = .ok d ↔ Written body d := by
  refine (read_whole (x := readRecord "struct ResponseIn" (Draft.fields (fuelFor body) depthLimit)
    (fuelFor body) depthLimit {})).trans ?_
  rw [Draft.fields_eq]
  constructor
  · rintro ⟨after, taken⟩
    obtain ⟨before, text, texts, same, record, fits⟩ := readRecord_sound Draft.fresh taken
    exact ⟨before, after, text, texts, same, record, Draft.fits_iff.mp fits⟩
  · rintro ⟨before, after, text, texts, same, record, holds⟩
    have size : 2 * text.length ≤ fuelFor body := by
      rw [same, fuelFor, List.length_append, List.length_append]
      omega
    refine ⟨after, ?_⟩
    rw [congrArg (readRecord _ _ _ _ _) same]
    exact readRecord_complete Draft.fresh record (Draft.fits_iff.mpr holds) (by decide) size size
      before _

theorem decode_iff {body : Bytes} {r : Response} :
    decode body = .ok r ↔ ∃ d, Written body d ∧ r = d.toResponse := by
  unfold decode
  constructor
  · intro decoded
    split at decoded
    · next d read =>
      cases decoded
      exact ⟨d, read_iff.mp read, rfl⟩
    · cases decoded
  · rintro ⟨d, written, rfl⟩
    rw [read_iff.mpr written]

/-- The response has what the record says of each field: the field's value, or the default where
the record does not give it. Its choices are those elements that are choices, in order. -/
structure Draft.Says (d : Draft) (r : Response) : Prop where
  id : r.id = d.id.getD ""
  object : r.object = d.object.getD ""
  created : r.created = d.created.getD 0
  model : r.model = d.model.getD ""
  choices : ∃ js, d.choices = some js ∧ r.choices = js.filterMap Choice.ofJson?
  usage : r.usage = d.usage.getD none

theorem Draft.says_iff {d : Draft} (given : d.choices.isSome) {r : Response} :
    d.Says r ↔ r = d.toResponse := by
  obtain ⟨js, given⟩ := Option.isSome_iff_exists.mp given
  have choices : d.toResponse.choices = js.filterMap Choice.ofJson? := by
    rw [toResponse, given]
    rfl
  constructor
  · rintro ⟨id, object, created, model, ⟨_, same, elements⟩, usage⟩
    obtain rfl := Option.some.inj (given.symm.trans same)
    obtain ⟨_, _, _, _, _, _⟩ := r
    simp only at id object created model elements usage
    rw [id, object, created, model, elements, usage, ← choices]
    rfl
  · rintro rfl
    exact ⟨rfl, rfl, rfl, rfl, ⟨js, given, choices⟩, rfl⟩

theorem Written.given {body : Bytes} {d : Draft} (written : Written body d) :
    d.choices.isSome := by
  obtain ⟨_, _, _, _, -, -, holds⟩ := written
  exact holds.given

/-- A body is decoded to what its record says. -/
theorem decode_says {body : Bytes} {r : Response} :
    decode body = .ok r ↔ ∃ d, Written body d ∧ d.Says r := by
  rw [decode_iff]
  exact exists_congr fun d => and_congr_right fun written => (Draft.says_iff written.given).symm

end Response

end Parley
