import Parley.Path
import Parley.Proofs.Digits

/-! Where a path written next to another one lies. What counts of a path is its components, and
`components_slash` cuts them at any slash. -/
namespace Parley.Path

/-! The parts between slashes. -/

theorem parts_plain {path part : List Char} (member : part ∈ parts path) : '/' ∉ part := by
  induction path generalizing part with
  | nil => simp_all [parts]
  | cons c path ih =>
    rw [parts, List.splitOn_cons_eq_if_modifyHead] at member
    split at member
    · rcases List.mem_cons.mp member with rfl | later
      · exact List.not_mem_nil
      · exact ih later
    · next other =>
      obtain ⟨first, rest, split⟩ := List.exists_cons_of_ne_nil (List.splitOn_ne_nil '/' path)
      rw [split, List.modifyHead_cons] at member
      rcases List.mem_cons.mp member with rfl | later
      · have plain : '/' ∉ first := ih (by rw [parts, split]; exact List.mem_cons_self)
        rw [List.mem_cons, not_or]
        exact ⟨fun same => other (beq_iff_eq.mpr same.symm), plain⟩
      · exact ih (by rw [parts, split]; exact List.mem_cons_of_mem _ later)

theorem exists_parts (path : List Char) : ∃ first rest, parts path = first :: rest :=
  List.exists_cons_of_ne_nil (List.splitOn_ne_nil '/' path)

theorem parts_slash (s t : List Char) : parts (s ++ '/' :: t) = parts s ++ parts t :=
  List.splitOn_append_cons_self s t

theorem parts_join {ps : List (List Char)} (plain : ∀ p ∈ ps, '/' ∉ p) (some : ps ≠ []) :
    parts (join ps) = ps :=
  List.splitOn_intercalate '/' plain some

theorem eq_of_parts {path part : List Char} (single : parts path = [part]) : path = part := by
  have whole : join (parts path) = path := List.intercalate_splitOn '/'
  rw [← whole, single, join, List.intercalate_singleton]

/-! Components. -/

section components

variable {path first : List Char} {rest : List (List Char)}

theorem behind_append (ps qs : List (List Char)) : behind (ps ++ qs) = behind ps ++ behind qs := by
  rw [behind, List.filter_append, List.map_append, behind, behind]

theorem behind_idle {part : List Char} (idle : isComponent part = false) : behind [part] = [] := by
  simp [behind, idle]

theorem behind_nothing : behind (parts []) = [] :=
  behind_idle rfl

theorem components_of_parts (split : parts path = first :: rest) :
    components path = leading (!rest.isEmpty) first ++ behind rest := by
  rw [components, split]

theorem component_ne_root (part : List Char) : component part ≠ .root := by
  unfold component
  split <;> exact nofun

/-- A slash behind the first part matters only if nothing is in front of it. -/
theorem leading_of_ne (some : first ≠ []) :
    ∃ c, c ≠ .root ∧ ∀ slash, leading slash first = [c] := by
  simp only [leading, if_neg some]
  split
  · exact ⟨.current, nofun, fun _ => rfl⟩
  · exact ⟨component first, component_ne_root first, fun _ => rfl⟩

theorem leading_true_ne_nil (first : List Char) : leading true first ≠ [] := by
  by_cases none : first = []
  · simp [leading, none]
  · obtain ⟨c, -, same⟩ := leading_of_ne none
    simp [same]

/-- A path may be taken apart at any slash. -/
theorem components_slash (s t : List Char) : components (s ++ '/' :: t) =
    (if s = [] then [.root] else components s) ++ behind (parts t) := by
  obtain ⟨first, rest, split⟩ := exists_parts s
  obtain ⟨first', rest', split'⟩ := exists_parts t
  have joined : parts (s ++ '/' :: t) = first :: (rest ++ first' :: rest') := by
    rw [parts_slash, split, split', List.cons_append]
  have front : leading true first ++ behind rest = if s = [] then [.root] else components s := by
    by_cases none : s = []
    · have parted : [[]] = first :: rest := by rw [← split, none]; rfl
      obtain ⟨rfl, rfl⟩ := List.cons.inj parted
      simp [none, leading, behind]
    · rw [if_neg none, components_of_parts split]
      cases rest with
      | nil =>
        obtain ⟨c, -, same⟩ := leading_of_ne (eq_of_parts split ▸ none)
        rw [same, same]
      | cons p ps => rfl
  have slashes : (!(rest ++ first' :: rest').isEmpty) = true := by simp
  rw [components_of_parts joined, slashes, behind_append, ← List.append_assoc, front, split']

/-- Repeated slashes, `.` behind a slash and a slash at the end make no component. -/
theorem components_idle (s t : List Char) :
    components (s ++ '/' :: '/' :: t) = components (s ++ '/' :: t) ∧
    components (s ++ '/' :: '.' :: '/' :: t) = components (s ++ '/' :: t) ∧
    (s ≠ [] → components (s ++ ['/']) = components s) ∧
    (s ≠ [] → components (s ++ ['/', '.']) = components s) := by
  have dot : behind (parts ['.']) = [] := behind_idle rfl
  have doubled : behind (parts ([] ++ '/' :: t)) = behind (parts t) := by
    rw [parts_slash, behind_append, behind_nothing, List.nil_append]
  have dotted : behind (parts (['.'] ++ '/' :: t)) = behind (parts t) := by
    rw [parts_slash, behind_append, dot, List.nil_append]
  refine ⟨?_, ?_, fun some => ?_, fun some => ?_⟩
  · rw [components_slash, components_slash, ← doubled]
    rfl
  · rw [components_slash, components_slash, ← dotted]
    rfl
  · rw [components_slash, if_neg some, behind_nothing, List.append_nil]
  · rw [components_slash, if_neg some, dot, List.append_nil]

end components

/-! Parents. -/

/-- What the parent of a path may be, by the components of the path. -/
inductive ParentOf : List Component → Option (List Char) → Prop
  | none : ParentOf [] none
  | root : ParentOf [.root] none
  | single (c : Component) : c ≠ .root → ParentOf [c] (some [])
  | inside (dir : List Char) (c : Component) : dir ≠ [] → components dir ≠ [] →
      ParentOf (components dir ++ [c]) (some dir)

namespace ParentOf

variable {cs : List Component} {parent : Option (List Char)}

theorem of_components {dir : List Char} (same : components dir = cs) (some : cs ≠ [])
    (c : Component) : ParentOf (cs ++ [c]) (.some dir) := by
  subst same
  refine .inside dir c ?_ some
  rintro rfl
  exact some rfl

theorem eq_none_iff (h : ParentOf cs parent) : parent = .none ↔ cs = [] ∨ cs = [.root] := by
  cases h with
  | none => simp
  | root => simp
  | single c relative => simp [relative]
  | inside dir c some front => simp [List.append_eq_singleton_iff, front]

theorem eq_empty_iff (h : ParentOf cs parent) :
    parent = .some [] ↔ ∃ c, c ≠ .root ∧ cs = [c] := by
  cases h with
  | none => simp
  | root => simp
  | single c relative => simp [relative]
  | inside dir c some front => simp [List.append_eq_singleton_iff, front, some]

theorem components_eq {dir : List Char} (h : ParentOf cs (.some dir)) :
    components dir = cs.dropLast := by
  cases h with
  | single c relative => rfl
  | inside _ c some front => rw [List.dropLast_concat]

theorem components_ne_nil {dir : List Char} (h : ParentOf cs (.some dir)) (given : dir ≠ []) :
    components dir ≠ [] := by
  cases h with
  | single c relative => exact absurd rfl given
  | inside _ c some front => exact front

theorem exists_dir {front : List Component} {c : Component} (h : ParentOf (front ++ [c]) parent)
    (some : front ≠ []) : ∃ dir, parent = .some dir ∧ components dir = front := by
  cases parent with
  | none => simpa [List.append_eq_singleton_iff, some] using h.eq_none_iff
  | some dir => exact ⟨dir, rfl, by rw [h.components_eq, List.dropLast_concat]⟩

end ParentOf

section parent

variable {path : List Char}

theorem behind_trimLatest (ps : List (List Char)) :
    behind (trimLatest ps).reverse = behind ps.reverse := by
  induction ps with
  | nil => rfl
  | cons p ps ih =>
    cases idle : isComponent p with
    | true => simp [trimLatest, idle]
    | false =>
      have trimmed : trimLatest (p :: ps) = trimLatest ps := by simp [trimLatest, idle]
      rw [trimmed, ih, List.reverse_cons, behind_append, behind_idle idle, List.append_nil]

theorem parts_trimLatest {ps : List (List Char)} (plain : ∀ p ∈ ps, '/' ∉ p) :
    ∀ p ∈ trimLatest ps, '/' ∉ p :=
  fun p member => plain p ((List.dropWhile_sublist _).subset member)

theorem trimLatest_cons {ps before : List (List Char)} {last : List Char}
    (trimmed : trimLatest ps = last :: before) : isComponent last = true := by
  have first := List.head?_dropWhile_not (fun p => !isComponent p) ps
  rw [show ps.dropWhile _ = trimLatest ps from rfl, trimmed] at first
  simpa using first

section split

variable {first : List Char} {rest : List (List Char)} (split : parts path = first :: rest)

include split

theorem components_single (trimmed : trimLatest rest.reverse = []) :
    components path = leading (!rest.isEmpty) first := by
  have kept := behind_trimLatest rest.reverse
  rw [List.reverse_reverse, trimmed] at kept
  rw [components_of_parts split, ← kept]
  exact List.append_nil _

/-- The last component stands behind a slash. -/
theorem components_last {last : List Char} {before : List (List Char)}
    (trimmed : trimLatest rest.reverse = last :: before) :
    components path = leading true first ++ behind before.reverse ++ [component last] := by
  have kept := behind_trimLatest rest.reverse
  rw [List.reverse_reverse, trimmed, List.reverse_cons, behind_append] at kept
  have slash : (!rest.isEmpty) = true := by
    cases rest with
    | nil => cases trimmed
    | cons p ps => rfl
  have real : behind [last] = [component last] := by simp [behind, trimLatest_cons trimmed]
  rw [components_of_parts split, slash, ← kept, real, List.append_assoc]

end split

/-- The first part of a path and some parts behind it, as a path of its own. -/
theorem components_join {first : List Char} {kept : List (List Char)}
    (plain : ∀ p ∈ first :: kept, '/' ∉ p) (some : first ≠ [] ∨ kept ≠ []) :
    components (join (first :: kept)) = leading true first ++ behind kept := by
  rw [components_of_parts (parts_join plain (List.cons_ne_nil _ _))]
  cases kept with
  | nil =>
    obtain ⟨c, -, same⟩ := leading_of_ne (some.resolve_right fun ne => ne rfl)
    rw [same, same]
  | cons p ps => rfl

theorem parent?_of (path : List Char) : ParentOf (components path) (parent? path) := by
  obtain ⟨first, rest, split⟩ := exists_parts path
  have plain : ∀ p ∈ first :: rest, '/' ∉ p := split ▸ fun _ => parts_plain
  unfold parent?
  rw [split]
  dsimp only
  split
  · next trimmed =>
    rw [components_single split trimmed]
    by_cases none : first = []
    · rw [if_pos none]
      cases rest with
      | nil => simpa [leading, none] using ParentOf.none
      | cons p ps => simpa [leading, none] using ParentOf.root
    · obtain ⟨c, relative, same⟩ := leading_of_ne none
      rw [if_neg none, same]
      exact .single c relative
  · next last before trimmed =>
    have later : ∀ p ∈ before, '/' ∉ p := by
      intro p member
      have turned : ∀ q ∈ rest.reverse, '/' ∉ q := fun q inside =>
        plain q (List.mem_cons_of_mem _ (List.mem_reverse.mp inside))
      exact parts_trimLatest turned p (trimmed ▸ List.mem_cons_of_mem _ member)
    rw [components_last split trimmed, ← behind_trimLatest]
    refine .of_components ?_ (List.append_ne_nil_of_left_ne_nil (leading_true_ne_nil first) _) _
    split
    · next top =>
      obtain ⟨rfl, none⟩ := top
      rw [none]
      rfl
    · next apart =>
      refine components_join ?_ ?_
      · refine List.forall_mem_cons.mpr ⟨plain first List.mem_cons_self, fun p member => ?_⟩
        exact parts_trimLatest later p (List.mem_reverse.mp member)
      · rw [List.reverse_ne_nil_iff]
        exact not_and_or.mp apart

end parent

/-! The path written. -/

theorem components_append {dir name : List Char} (given : dir ≠ []) (plain : '/' ∉ name)
    (real : isComponent name = true) :
    components (append dir name) = components dir ++ [component name] := by
  have relative : name.head? ≠ some '/' := fun slash => plain (List.mem_of_mem_head? slash)
  have last : behind (parts name) = [component name] := by
    rw [parts, List.splitOn_eq_singleton plain]
    simp [behind, real]
  unfold append
  rw [if_neg relative]
  split
  · next ends =>
    obtain ⟨front, rfl⟩ := List.getLast?_eq_some_iff.mp (ends.resolve_left given)
    rw [List.append_assoc, List.singleton_append, components_slash, components_slash, last,
      behind_nothing, List.append_nil]
  · rw [components_slash, if_neg given, last]

theorem outputName_plain (n : Nat) : '/' ∉ outputName n := by
  unfold outputName
  rw [List.mem_append, List.mem_append]
  rintro ((front | digit) | back)
  · exact absurd front (by decide)
  · exact absurd (Decimal.natText_digits digit) (by decide)
  · exact absurd back (by decide)

theorem outputName_name (n : Nat) :
    isComponent (outputName n) = true ∧ component (outputName n) = .name (outputName n) := by
  have lead : ∃ rest, outputName n = 'o' :: rest := by
    unfold outputName
    exact ⟨_, rfl⟩
  obtain ⟨rest, lead⟩ := lead
  rw [lead]
  exact ⟨rfl, if_neg (by simp)⟩

theorem fileName?_of_components {path name : List Char} {front : List Component}
    (split : components path = front ++ [.name name]) : fileName? path = some name := by
  rw [fileName?, split, List.getLast?_concat]

theorem output?_eq_none_iff (src : String) (milliseconds : Nat) :
    output? src milliseconds = none ↔
      parent? src.toList = none ∨ parent? src.toList = some [] := by
  cases parent : parent? src.toList with
  | none => simp [output?, directory?, parent]
  | some dir => simp [output?, directory?, parent]

/-- A path is refused exactly when it has no parent or an empty one, that is, when it has no
components, is the root, or is a single relative component. For every other path the one written has
the same parent, component by component, and its name shows a number below 100000. -/
theorem output_beside (src : String) (milliseconds : Nat) :
    (output? src milliseconds = none ↔
      parent? src.toList = none ∨ parent? src.toList = some []) ∧
    (parent? src.toList = none ↔ components src.toList = [] ∨ components src.toList = [.root]) ∧
    (parent? src.toList = some [] ↔ ∃ c, c ≠ .root ∧ components src.toList = [c]) ∧
    ∀ dst, output? src milliseconds = some dst → ∃ dir dir',
      parent? src.toList = some dir ∧ components dir = (components src.toList).dropLast ∧
      parent? dst.toList = some dir' ∧ components dir' = components dir ∧
      ∃ n < 100000, n = milliseconds % 100000 ∧
        fileName? dst.toList =
          some ("output_".toList ++ Decimal.natText n ++ ".jpg".toList) := by
  have parent := parent?_of src.toList
  refine ⟨output?_eq_none_iff src milliseconds, parent.eq_none_iff, parent.eq_empty_iff, ?_⟩
  intro dst written
  obtain ⟨dir, kept, rfl⟩ := Option.map_eq_some_iff.mp written
  obtain ⟨found, given⟩ := Option.filter_eq_some_iff.mp kept
  have given : dir ≠ [] := by simpa using given
  rw [found] at parent
  obtain ⟨real, named⟩ := outputName_name (milliseconds % 100000)
  have placed := components_append given (outputName_plain (milliseconds % 100000)) real
  rw [named] at placed
  have own := parent?_of (append dir (outputName (milliseconds % 100000)))
  rw [placed] at own
  obtain ⟨dir', found', same⟩ := own.exists_dir (parent.components_ne_nil given)
  rw [String.toList_ofList]
  exact ⟨dir, dir', found, parent.components_eq, found', same, milliseconds % 100000,
    Nat.mod_lt _ (by decide), rfl, fileName?_of_components placed⟩

example : output? ".//photos/./cat.png/" 1234567 = some ".//photos/output_34567.jpg" := by decide

example : output? "/.." 0 = some "/output_0.jpg" := by decide

end Parley.Path
