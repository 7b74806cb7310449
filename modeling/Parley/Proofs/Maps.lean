import Mathlib.Data.List.Induction
import Mathlib.Data.String.Basic
import Parley.Dict

/-! Maps built by insertion: their keys, their order, and what is found in them. -/
namespace Parley.Dict

variable {α : Type} {d : Dict α} {key : String}

theorem keys_insert (fresh : key ∉ d.map (·.1)) (value : α) :
    ((d.insert key value).map (·.1)).Perm (key :: d.map (·.1)) := by
  induction d with
  | nil => exact .refl _
  | cons e d ih =>
      obtain ⟨k, v⟩ := e
      rw [List.map_cons, List.mem_cons, not_or] at fresh
      unfold insert
      split
      · exact .refl _
      · rw [if_neg fresh.1]
        exact ((ih fresh.2).cons k).trans (.swap key k _)

/-- What is found is what the last entry of the name says. -/
theorem find?_ofEntries (entries : List (String × α)) (key : String) :
    (ofEntries entries).find? key = entries.reverse.lookup key := by
  have from_any : ∀ d : Dict α, find? (entries.foldl (fun d e => d.insert e.1 e.2) d) key =
      (entries.reverse ++ d).lookup key := by
    induction entries with
    | nil => exact fun d => rfl
    | cons e entries ih =>
      intro d
      rw [List.foldl_cons, ih, List.reverse_cons, List.append_assoc, List.lookup_append,
        List.lookup_append]
      congr 1
      exact (find?_insert d e.1 key e.2).trans (find?_cons d e.1 key e.2).symm
  have whole := from_any []
  rwa [List.append_nil] at whole

/-- A value is found just when an entry has it, and none behind that entry has its key. -/
theorem find?_ofEntries_eq_some {entries : List (String × α)} {value : α} :
    (ofEntries entries).find? key = some value ↔
      ∃ before after, entries = before ++ (key, value) :: after ∧ ∀ e ∈ after, e.1 ≠ key := by
  rw [find?_ofEntries, List.lookup_eq_some_iff]
  constructor
  · rintro ⟨after, before, split, none⟩
    refine ⟨before.reverse, after.reverse, ?_, ?_⟩
    · rw [List.reverse_eq_append_iff] at split
      rw [split, List.reverse_cons, List.append_assoc, List.singleton_append]
    · intro e member
      exact (bne_iff_ne.mp (none e (List.mem_reverse.mp member))).symm
  · rintro ⟨before, after, rfl, none⟩
    refine ⟨after.reverse, before.reverse, ?_, ?_⟩
    · rw [List.reverse_append, List.reverse_cons, List.append_assoc, List.singleton_append]
    · intro e member
      exact bne_iff_ne.mpr (none e (List.mem_reverse.mp member)).symm

theorem find?_isSome : (d.find? key).isSome = true ↔ key ∈ d.map (·.1) := by
  rw [find?, List.lookup_isSome_iff, List.mem_map]
  exact exists_congr fun e => and_congr_right fun _ => beq_iff_eq.trans eq_comm

theorem mem_keys_ofEntries {entries : List (String × α)} :
    key ∈ (ofEntries entries).map (·.1) ↔ key ∈ entries.map (·.1) := by
  rw [← find?_isSome, find?_ofEntries, ← find?, find?_isSome, List.map_reverse, List.mem_reverse]

theorem find?_of_fresh (fresh : key ∉ d.map (·.1)) : d.find? key = none :=
  Option.not_isSome_iff_eq_none.mp (mt find?_isSome.mp fresh)

theorem find?_filter (d : Dict α) (keep : String → Bool) (key : String) :
    find? (d.filter fun e => keep e.1) key = if keep key then d.find? key else none := by
  induction d with
  | nil => exact (ite_self none).symm
  | cons e d ih =>
      obtain ⟨k, v⟩ := e
      by_cases front : key = k
      · subst front
        cases kept : keep key <;> simp [find?_cons, kept, ih]
      · cases kept : keep k <;> simp [find?_cons, front, kept, ih]

theorem ofEntries_concat (entries : List (String × α)) (e : String × α) :
    ofEntries (entries ++ [e]) = (ofEntries entries).insert e.1 e.2 :=
  List.foldl_concat _ _ _ _

/-- A key behind all others is put at the end. -/
theorem insert_last (last : ∀ k ∈ d.map (·.1), k < key) (value : α) :
    d.insert key value = d ++ [(key, value)] := by
  induction d with
  | nil => rfl
  | cons e d ih =>
    obtain ⟨k, v⟩ := e
    obtain ⟨before, behind⟩ := List.forall_mem_cons.mp last
    unfold insert
    rw [if_neg before.not_gt, if_neg before.ne', ih behind, List.cons_append]

/-- A map is built from its own entries. -/
theorem Ordered.ofEntries (ordered : d.Ordered) : ofEntries d = d := by
  induction d using List.reverseRecOn with
  | nil => rfl
  | append_singleton d e ih =>
    unfold Ordered at ordered
    rw [List.map_append, List.pairwise_append] at ordered
    obtain ⟨front, -, across⟩ := ordered
    rw [ofEntries_concat, ih front]
    exact insert_last (fun k member => across k member e.1 List.mem_cons_self) e.2

theorem find?_head (e : String × α) (d : Dict α) : find? (e :: d) e.1 = some e.2 :=
  (find?_cons d e.1 e.1 e.2).trans (if_pos rfl)

theorem Ordered.behind {e : String × α} (ordered : Ordered (e :: d)) :
    d.Ordered ∧ d.find? e.1 = none := by
  obtain ⟨least, behind⟩ := List.pairwise_cons.mp ordered
  exact ⟨behind, find?_of_fresh fun member => lt_irrefl _ (least e.1 member)⟩

theorem Ordered.head_le {e : String × α} {value : α} (ordered : Ordered (e :: d))
    (found : find? (e :: d) key = some value) : e.1 ≤ key := by
  obtain ⟨least, -⟩ := List.pairwise_cons.mp ordered
  by_contra before
  have fresh : key ∉ (e :: d).map (·.1) := by
    intro member
    cases List.mem_cons.mp member with
    | inl same => exact before same.ge
    | inr inside => exact before (least key inside).le
  rw [find?_of_fresh fresh] at found
  cases found

/-- A map is known by what is found in it. -/
theorem Ordered.ext {d' : Dict α} (ordered : d.Ordered) (ordered' : d'.Ordered)
    (agree : ∀ key, d.find? key = d'.find? key) : d = d' := by
  induction d generalizing d' with
  | nil =>
    cases d' with
    | nil => rfl
    | cons e' d' => cases (agree e'.1).trans (find?_head e' d')
  | cons e d ih =>
    cases d' with
    | nil => cases (agree e.1).symm.trans (find?_head e d)
    | cons e' d' =>
      have first : e.1 = e'.1 := le_antisymm
        (ordered.head_le ((agree e'.1).trans (find?_head e' d')))
        (ordered'.head_le ((agree e.1).symm.trans (find?_head e d)))
      obtain ⟨k, v⟩ := e
      obtain ⟨k', v'⟩ := e'
      obtain rfl : k = k' := first
      obtain rfl : v = v' := Option.some.inj
        ((find?_head (k, v) d).symm.trans ((agree k).trans (find?_head (k, v') d')))
      obtain ⟨behind, fresh⟩ := ordered.behind
      obtain ⟨behind', fresh'⟩ := ordered'.behind
      congr 1
      refine ih behind behind' fun key => ?_
      by_cases front : key = k
      · subst front
        exact fresh.trans fresh'.symm
      · have found := agree key
        rwa [find?_cons, find?_cons, if_neg front, if_neg front] at found

end Parley.Dict
