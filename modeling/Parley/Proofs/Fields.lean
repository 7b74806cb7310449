import Mathlib.Data.List.Nodup
import Parley.Json.Record
import Parley.Proofs.Brackets

/-! The texts of records, and the fields that give them a meaning. A record's text gives texts to
names; a draft fits them if each field has at most one, which means what the draft holds, and the
names that are no field's have texts of the loose grammar. -/
namespace Parley.Json.Grammar
open Reader Utf8

/-! The texts of records. -/

/-- A member of a record: its name is read even if it is no field's. -/
structure Assignment where
  before : Spaces
  name : Quoted
  after : Spaces
  piece : Piece

def Assignment.entry (a : Assignment) : Entry :=
  ⟨a.before, encode a.name.chars, a.after, a.piece⟩

def Assignment.pair (a : Assignment) : String × Bytes :=
  (a.name.value, a.piece.text)

/-- The bytes of a record with these fields, and the texts that they give to names: an object, or an
array of as many values at most as there are fields. -/
inductive RecordText (names : List String) : Bytes → List (String × Bytes) → Prop
  | obj (inside : Spaces) (members : List Assignment) :
    RecordText names
      (0x7B :: (encode inside.val ++ (joined true (members.map (·.entry.bytes)) ++ [0x7D])))
      (members.map Assignment.pair)
  | arr (inside : Spaces) (pieces : List Piece) (short : pieces.length ≤ names.length) :
    RecordText names
      (0x5B :: (encode inside.val ++ (joined true (pieces.map Piece.bytes) ++ [0x5D])))
      (names.zip (pieces.map Piece.text))

/-- The name has one text, which means the value, or no text and no value. -/
def One {α : Type} (texts : List (String × Bytes)) (name : String) (Means : Bytes → α → Prop) :
    Option α → Prop
  | some a => ∃ text, texts.filter (·.1 = name) = [(name, text)] ∧ Means text a
  | none => ∀ p ∈ texts, p.1 ≠ name

section one

variable {α : Type} {before behind : List (String × Bytes)} {key name : String} {text : Bytes}
  {Means : Bytes → α → Prop}

/-- A text of another name does not matter. -/
theorem one_other (other : key ≠ name) {held : Option α} :
    One (before ++ (key, text) :: behind) name Means held ↔
      One (before ++ behind) name Means held := by
  cases held with
  | none =>
    unfold One
    rw [List.forall_mem_append, List.forall_mem_cons, List.forall_mem_append, and_iff_right other]
  | some a =>
    unfold One
    rw [List.filter_append, List.filter_cons_of_neg (by simpa using other), ← List.filter_append]

theorem one_here {a : α} : One (before ++ (name, text) :: behind) name Means (some a) ↔
    (∀ p ∈ before ++ behind, p.1 ≠ name) ∧ Means text a := by
  unfold One
  rw [List.filter_append, List.filter_cons_of_pos (by simp)]
  constructor
  · rintro ⟨other, only, means⟩
    obtain ⟨none, alone⟩ : before.filter (·.1 = name) = [] ∧
        (name, text) :: behind.filter (·.1 = name) = [(name, other)] := by
      cases first : before.filter (·.1 = name) with
      | nil => exact ⟨rfl, by rwa [first] at only⟩
      | cons p rest =>
        rw [first] at only
        simp at only
    obtain ⟨same, last⟩ := List.cons.inj alone
    obtain rfl := (Prod.mk.inj same).2
    refine ⟨List.forall_mem_append.mpr ⟨?_, ?_⟩, means⟩
    · simpa using List.filter_eq_nil_iff.mp none
    · simpa using List.filter_eq_nil_iff.mp last
  · rintro ⟨others, means⟩
    obtain ⟨first, last⟩ := List.forall_mem_append.mp others
    refine ⟨text, ?_, means⟩
    rw [List.filter_eq_nil_iff.mpr fun p member => by simpa using first p member,
      List.filter_eq_nil_iff.mpr fun p member => by simpa using last p member]
    rfl

end one

/-! Fields. -/

/-- A field of a draft of type `σ`: where the draft holds it, how it is read, and which texts mean
which value. -/
structure Slot (σ : Type) where
  name : String
  required : Bool
  Held : Type
  get : σ → Option Held
  set : σ → Held → σ
  read : Nat → Reader Held
  Means : Bytes → Held → Prop
  get_set : ∀ d x, get (set d x) = some x
  sound : ∀ {fuel : Nat} {s t : Bytes} {x : Held}, read fuel s = .ok (x, t) → Stops t →
    ∃ (before : Spaces) (text : Bytes), s = encode before.val ++ (text ++ t) ∧ Means text x
  complete : ∀ {fuel : Nat} {text : Bytes} {x : Held}, Means text x → 2 * text.length ≤ fuel →
    ∀ (before : Spaces) {t : Bytes}, Stops t →
      read fuel (encode before.val ++ (text ++ t)) = .ok (x, t)
  skims : ∀ {text : Bytes} {x : Held}, Means text x → Skims text

def Slot.field {σ : Type} (slot : Slot σ) (fuel : Nat) : Field σ :=
  ⟨slot.name, slot.required, fun d => (slot.get d).isSome,
    fun d => do pure (slot.set d (← slot.read fuel))⟩

/-- The fields of a draft, which are all that it holds and do not share what they hold. -/
structure Schema (σ : Type) where
  slots : List (Slot σ)
  distinct : (slots.map Slot.name).Nodup
  frame : ∀ a ∈ slots, ∀ b ∈ slots, a.name ≠ b.name → ∀ d x, b.get (a.set d x) = b.get d
  ext : ∀ d d', (∀ a ∈ slots, a.get d = a.get d') → d = d'

namespace Schema

variable {σ : Type} (S : Schema σ)

def names : List String :=
  S.slots.map Slot.name

def fields (fuel : Nat) : List (Field σ) :=
  S.slots.map fun a => a.field fuel

/-- The draft holds what the texts say. -/
structure Fits (texts : List (String × Bytes)) (d : σ) : Prop where
  each : ∀ a ∈ S.slots, One texts a.name a.Means (a.get d)
  required : ∀ a ∈ S.slots, a.required = true → (a.get d).isSome
  others : ∀ p ∈ texts, p.1 ∉ S.names → Skims p.2

/-- The texts taken one after another fill the draft. -/
inductive Fills : σ → List (String × Bytes) → σ → Prop
  | nil (d : σ) : Fills d [] d
  | ignored {d d' : σ} {p : String × Bytes} {texts : List (String × Bytes)}
    (unknown : p.1 ∉ S.names) (skims : Skims p.2) (rest : Fills d texts d') : Fills d (p :: texts) d'
  | known {d d' : σ} {a : Slot σ} {text : Bytes} {x : a.Held} {texts : List (String × Bytes)}
    (member : a ∈ S.slots) (fresh : a.get d = none) (means : a.Means text x)
    (rest : Fills (a.set d x) texts d') : Fills d ((a.name, text) :: texts) d'

variable {S}

theorem slot_eq {a b : Slot σ} (ha : a ∈ S.slots) (hb : b ∈ S.slots) (same : a.name = b.name) :
    a = b :=
  List.inj_on_of_nodup_map S.distinct ha hb same

end Schema

/-- The texts give the field a value if it has none, or give it none. -/
def Slot.Given {σ : Type} (a : Slot σ) (texts : List (String × Bytes)) (d d' : σ) : Prop :=
  a.get d' = a.get d ∧ (∀ p ∈ texts, p.1 ≠ a.name) ∨
    a.get d = none ∧ ∃ x, a.get d' = some x ∧ One texts a.name a.Means (some x)

namespace Slot

variable {σ : Type} {a : Slot σ} {texts : List (String × Bytes)} {d d' : σ} {p : String × Bytes}

theorem given_cons (other : p.1 ≠ a.name) : a.Given (p :: texts) d d' ↔ a.Given texts d d' := by
  unfold Given One
  rw [List.forall_mem_cons, and_iff_right other, List.filter_cons_of_neg (by simpa using other)]

theorem given_of_none (fresh : a.get d = none) :
    a.Given texts d d' ↔ One texts a.name a.Means (a.get d') := by
  unfold Given
  rw [fresh]
  cases held : a.get d' with
  | none => simp [One]
  | some x => simp

end Slot

namespace Schema

variable {σ : Type} {S : Schema σ} {d d' : σ} {texts : List (String × Bytes)}

theorem Fills.given (fills : S.Fills d texts d') {a : Slot σ} (member : a ∈ S.slots) :
    a.Given texts d d' := by
  induction fills with
  | nil d => exact .inl ⟨rfl, List.forall_mem_nil _⟩
  | @ignored d d' p texts unknown _ _ ih =>
    refine (Slot.given_cons fun same => unknown ?_).mpr ih
    exact List.mem_map.mpr ⟨a, member, same.symm⟩
  | @known d d' b text x texts within fresh means _ ih =>
    by_cases same : b.name = a.name
    · obtain rfl := slot_eq within member same
      rcases ih with ⟨kept, none⟩ | ⟨unset, -⟩
      · rw [b.get_set] at kept
        refine .inr ⟨fresh, x, kept, text, ?_, means⟩
        rw [List.filter_cons_of_pos (by simp),
          List.filter_eq_nil_iff.mpr fun p member => by simpa using none p member]
      · rw [b.get_set] at unset
        cases unset
    · rw [Slot.given_cons same]
      unfold Slot.Given at ih ⊢
      rwa [S.frame b within a member same] at ih

theorem fills_of_given (given : ∀ a ∈ S.slots, a.Given texts d d')
    (others : ∀ p ∈ texts, p.1 ∉ S.names → Skims p.2) : S.Fills d texts d' := by
  induction texts generalizing d with
  | nil =>
    have same : d' = d := S.ext d' d fun a member => by
      rcases given a member with ⟨kept, -⟩ | ⟨-, x, -, text, only, -⟩
      · exact kept
      · cases only
    rw [same]
    exact .nil d
  | cons p texts ih =>
    obtain ⟨first, rest⟩ := List.forall_mem_cons.mp others
    by_cases known : p.1 ∈ S.names
    · obtain ⟨b, within, name⟩ := List.mem_map.mp known
      rcases given b within with ⟨-, none⟩ | ⟨fresh, x, held, text, only, means⟩
      · exact (none p List.mem_cons_self name.symm).elim
      · rw [List.filter_cons_of_pos (by simpa using name.symm)] at only
        obtain ⟨rfl, alone⟩ := List.cons.inj only
        refine .known within fresh means (ih (fun a member => ?_) rest)
        by_cases same : b.name = a.name
        · obtain rfl := slot_eq within member same
          refine .inl ⟨by rw [held, b.get_set], fun q inside clash => ?_⟩
          have absent := List.filter_eq_nil_iff.mp alone q inside
          simp [clash] at absent
        · have given := (Slot.given_cons same).mp (given a member)
          unfold Slot.Given at given ⊢
          rwa [S.frame b within a member same]
    · refine .ignored known (first known) (ih (fun a member => ?_) rest)
      refine (Slot.given_cons fun same => known ?_).mp (given a member)
      exact List.mem_map.mpr ⟨a, member, same.symm⟩

/-! Which field a name is. -/

theorem find_known {a : Slot σ} (member : a ∈ S.slots) (fuel : Nat) :
    (S.fields fuel).find? (fun f => f.name = a.name) = some (a.field fuel) := by
  unfold fields
  rw [List.find?_map]
  cases found : S.slots.find?
      ((fun f : Field σ => decide (f.name = a.name)) ∘ fun b => b.field fuel) with
  | none =>
    have absent := List.find?_eq_none.mp found a member
    simp [Slot.field] at absent
  | some b =>
    have same : b.name = a.name := by simpa [Slot.field] using List.find?_some found
    rw [slot_eq (List.mem_of_find?_eq_some found) member same]
    rfl

theorem find_unknown {name : String} (unknown : name ∉ S.names) (fuel : Nat) :
    (S.fields fuel).find? (fun f => f.name = name) = none := by
  rw [List.find?_eq_none]
  intro f member
  obtain ⟨a, within, rfl⟩ := List.mem_map.mp member
  have other : a.name ≠ name := fun same => unknown (List.mem_map.mpr ⟨a, within, same⟩)
  simpa [Slot.field] using other

theorem find_missing (d : σ) (fuel : Nat) :
    (S.fields fuel).find? (fun f => f.required && !f.isSet d) = none ↔
      ∀ a ∈ S.slots, a.required = true → (a.get d).isSome = true := by
  unfold fields
  simp [List.find?_eq_none, Slot.field, Option.isSome_iff_ne_none]

end Schema

end Parley.Json.Grammar
