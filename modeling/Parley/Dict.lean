/-! Maps from text to values as association lists in increasing key order. Text is ordered by code
point, which is also the order of its UTF-8 bytes. -/
namespace Parley

abbrev Dict (α : Type) := List (String × α)

namespace Dict

variable {α : Type}

def insert (d : Dict α) (key : String) (value : α) : Dict α :=
  match d with
  | [] => [(key, value)]
  | (k, v) :: rest =>
    if key < k then (key, value) :: (k, v) :: rest
    else if key = k then (key, value) :: rest
    else (k, v) :: insert rest key value

/-- A later entry replaces an earlier one with its key. -/
def ofEntries (entries : List (String × α)) : Dict α :=
  entries.foldl (fun d e => d.insert e.1 e.2) []

def find? (d : Dict α) (key : String) : Option α :=
  d.lookup key

theorem find?_cons (d : Dict α) (key other : String) (value : α) :
    find? ((key, value) :: d) other = if other = key then some value else d.find? other := by
  unfold find?
  by_cases h : other = key
  · simp [h]
  · simp [List.lookup_cons, h, beq_false_of_ne h]

theorem find?_insert (d : Dict α) (key other : String) (value : α) :
    (d.insert key value).find? other = if other = key then some value else d.find? other := by
  induction d with
  | nil => exact find?_cons [] key other value
  | cons e rest ih =>
    obtain ⟨k, v⟩ := e
    unfold insert
    split
    · exact find?_cons _ key other value
    · split
      · next h =>
        subst h
        rw [find?_cons, find?_cons]
        split <;> rfl
      · next h =>
        rw [find?_cons, find?_cons, ih]
        by_cases hk : other = k
        · simp [hk, Ne.symm h]
        · simp [hk]

theorem mem_keys_insert {d : Dict α} {key other : String} {value : α}
    (member : other ∈ (d.insert key value).map (·.1)) : other = key ∨ other ∈ d.map (·.1) := by
  induction d with
  | nil => exact .inl (List.mem_singleton.mp member)
  | cons e d ih =>
    obtain ⟨k, v⟩ := e
    unfold insert at member
    split at member
    · exact List.mem_cons.mp member
    · split at member
      · next same =>
        subst same
        exact .inr member
      · cases List.mem_cons.mp member with
        | inl front => exact .inr (front ▸ List.mem_cons_self)
        | inr later => exact (ih later).imp_right (List.mem_cons_of_mem _)

theorem mem_insert {d : Dict α} {key : String} {e : String × α} {value : α}
    (member : e ∈ d.insert key value) : e = (key, value) ∨ e ∈ d := by
  induction d with
  | nil => exact .inl (List.mem_singleton.mp member)
  | cons f d ih =>
    obtain ⟨k, v⟩ := f
    unfold insert at member
    split at member
    · exact List.mem_cons.mp member
    · split at member
      · exact (List.mem_cons.mp member).imp_right (List.mem_cons_of_mem _)
      · rcases List.mem_cons.mp member with rfl | later
        · exact .inr List.mem_cons_self
        · exact (ih later).imp_right (List.mem_cons_of_mem _)

theorem mem_of_mem_ofEntries {entries : List (String × α)} {e : String × α}
    (member : e ∈ ofEntries entries) : e ∈ entries := by
  have from_any : ∀ (entries : List (String × α)) (d : Dict α),
      e ∈ entries.foldl (fun d e => d.insert e.1 e.2) d → e ∈ entries ∨ e ∈ d := by
    intro entries
    induction entries with
    | nil => exact fun d inside => .inr inside
    | cons f entries ih =>
      intro d inside
      rcases ih (d.insert f.1 f.2) inside with later | grown
      · exact .inl (List.mem_cons_of_mem _ later)
      · rcases mem_insert grown with rfl | older
        · exact .inl List.mem_cons_self
        · exact .inr older
  exact (from_any entries [] member).resolve_right List.not_mem_nil

/-- Each key is less than the ones behind it. -/
def Ordered (d : Dict α) : Prop :=
  (d.map (·.1)).Pairwise (· < ·)

instance (d : Dict α) : Decidable d.Ordered :=
  inferInstanceAs (Decidable ((d.map (·.1)).Pairwise (· < ·)))

theorem ordered_nil : Ordered ([] : Dict α) :=
  .nil

/-- The keys stay as they are. -/
theorem Ordered.mapValues {β : Type} {d : Dict α} (ordered : d.Ordered) (f : α → β) :
    Ordered (d.map fun e => (e.1, f e.2)) := by
  unfold Ordered
  rw [List.map_map]
  exact ordered

theorem Ordered.insert {d : Dict α} (ordered : d.Ordered) (key : String) (value : α) :
    (d.insert key value).Ordered := by
  induction d with
  | nil => exact List.pairwise_singleton _ key
  | cons e d ih =>
    obtain ⟨k, v⟩ := e
    obtain ⟨least, behind⟩ := List.pairwise_cons.mp ordered
    unfold Dict.insert
    split
    · next before =>
      refine List.pairwise_cons.mpr ⟨?_, ordered⟩
      intro other member
      cases List.mem_cons.mp member with
      | inl same => exact same ▸ before
      | inr inside => exact String.lt_trans before (least other inside)
    · next notBefore =>
      split
      · next same => exact same ▸ ordered
      · next different =>
        have behindKey : k < key := String.not_le.mp fun ahead =>
          different (String.le_antisymm ahead (String.not_lt.mp notBefore))
        refine List.pairwise_cons.mpr ⟨?_, ih behind⟩
        intro other member
        cases mem_keys_insert member with
        | inl same => exact same ▸ behindKey
        | inr inside => exact least other inside

theorem ofEntries_ordered (entries : List (String × α)) : (ofEntries entries).Ordered := by
  have from_any : ∀ d : Dict α, d.Ordered →
      Ordered (entries.foldl (fun d e => d.insert e.1 e.2) d) := by
    induction entries with
    | nil => exact fun d ordered => ordered
    | cons e entries ih => exact fun d ordered => ih _ (ordered.insert e.1 e.2)
  exact from_any [] ordered_nil

end Dict

end Parley
