import Parley.Proofs.TypedReaders

/-! What is written is a text of the grammar, and an object is written as a record. -/
namespace Parley.Json
open Grammar Utf8

theorem blank_of_opens {text t : Bytes} {before : Spaces} (opens : Opens text)
    (same : text = encode before.val ++ t) : encode before.val = [] := by
  have spaces := bytes_of_spaces before
  cases bytes : encode before.val with
  | nil => rfl
  | cons b bs =>
    rw [bytes] at same spaces
    obtain ⟨dark, -⟩ := same ▸ opens
    rw [spaces b List.mem_cons_self] at dark
    cases dark

theorem Readable.stands {depth : Nat} {j : Json} (readable : j.Readable depth) :
    Stands depth (encode (chars j)) j := by
  have read := readable.readsBack (2 * (chars j).length) [] (Nat.le_refl _) .nothing
  obtain ⟨before, text, split, stands⟩ := stands_of_value read stops_nil
  have none := blank_of_opens (readable.opens []) split
  rw [none, List.append_nil, List.append_nil, List.nil_append] at split
  rwa [split]

theorem quoted_name (name : String) :
    ∃ q : Quoted, encode q.chars = encode (quoted name.toList) ∧ q.value = name := by
  obtain ⟨cs, same, q, rfl, value⟩ := (Readable.str 0 name).stands.form
  exact ⟨q, same.symm.trans (by rw [chars]), value.symm⟩

/-- A member is written without white space. -/
theorem written_member (name : String) (j : Json) : ∃ a : Assignment,
    a.pair = (name, encode (chars j)) ∧
      a.entry.bytes = encode (quoted name.toList) ++ 0x3A :: encode (chars j) := by
  obtain ⟨q, written, value⟩ := quoted_name name
  refine ⟨⟨blank, q, blank, ⟨blank, encode (chars j), blank⟩⟩, ?_, ?_⟩
  · rw [Assignment.pair, value]
  · simp [Assignment.entry, Entry.bytes, Grammar.Piece.bytes, encode_blank, written]

theorem written_members (ms : List (String × Json)) : ∃ members : List Assignment,
    members.map Assignment.pair = ms.map (fun m => (m.1, encode (chars m.2))) ∧
      joined false (members.map (·.entry.bytes)) ++ [0x7D] = encode (memberChars ms) := by
  induction ms with
  | nil => exact ⟨[], rfl, by rw [memberChars]; rfl⟩
  | cons m ms ih =>
    obtain ⟨name, j⟩ := m
    obtain ⟨members, pairs, bytes⟩ := ih
    obtain ⟨a, pair, entry⟩ := written_member name j
    refine ⟨a :: members, by rw [List.map_cons, pair, pairs, List.map_cons], ?_⟩
    have split := encode_memberChars_cons name j ms []
    rw [List.append_nil, List.append_nil, ← bytes] at split
    rw [split]
    simp [joined, entry]

/-- An object is written as a record of its members. -/
theorem recordText_obj (names : List String) (ms : List (String × Json)) :
    RecordText names (encode (chars (.obj ms))) (ms.map fun m => (m.1, encode (chars m.2))) := by
  cases ms with
  | nil => exact .obj blank []
  | cons m ms =>
    obtain ⟨name, j⟩ := m
    obtain ⟨members, pairs, bytes⟩ := written_members ms
    obtain ⟨a, pair, entry⟩ := written_member name j
    have record : RecordText names _ _ := .obj blank (a :: members)
    have split := encode_obj_cons name j ms []
    rw [List.append_nil, List.append_nil, ← bytes] at split
    rw [List.map_cons, joined_cons, entry, encode_blank, List.map_cons, pair, pairs] at record
    rw [split]
    simpa using record

end Parley.Json
