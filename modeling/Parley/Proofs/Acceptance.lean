import Parley.Proofs.Bodies

/-! What a response is decoded from: a body that is written as a record, and elements of its choices
that are records of messages. -/
namespace Parley

open Json Json.Grammar

/-- The value of a record's field: the last member of the name, or the item in the field's place. -/
inductive Json.HasField (names : List String) (name : String) : Json → Json → Prop
  | member {ms : List (String × Json)} {v : Json} (last : ms.reverse.lookup name = some v) :
    HasField names name (.obj ms) v
  | item {js : List Json} {i : Nat} {v : Json} (short : js.length ≤ names.length)
    (named : names[i]? = some name) (place : js[i]? = some v) : HasField names name (.arr js) v

theorem Json.hasField_of_fields? {names : List String} {name : String} {j v : Json}
    {vs : List (Option Json)} {i : Nat} (fields : j.fields? names = some vs)
    (named : names[i]? = some name) (place : vs[i]? = some (some v)) :
    j.HasField names name v := by
  unfold fields? at fields
  split at fields
  case h_1 js =>
    split at fields
    · next short =>
      obtain rfl := Option.some.inj fields
      refine .item short named ?_
      by_cases within : i < js.length
      · simpa [List.getElem?_append, within] using place
      · simp [List.getElem?_append, within, List.getElem?_replicate] at place
    · cases fields
  case h_2 ms =>
    obtain rfl := Option.some.inj fields
    rw [List.getElem?_map, named, Option.map_some, Dict.find?_ofEntries] at place
    exact .member (Option.some.inj place)
  case h_3 => cases fields

/-- A value that stands for a role: its name, or an object that gives the name null and gives
nothing else anything. -/
inductive Role.Names (role : Role) : Json → Prop
  | name : Names role (.str role.name)
  | variant {ms : List (String × Json)} (only : ∀ m ∈ ms, m.1 = role.name)
    (last : ms.reverse.lookup role.name = some .null) : Names role (.obj ms)

theorem Role.name_of_ofName? {s : String} {role : Role} (named : Role.ofName? s = some role) :
    s = role.name := by
  have same := List.find?_some named
  exact (of_decide_eq_true same).symm

theorem Role.names_of_ofJson? {j : Json} {role : Role} (read : Role.ofJson? j = some role) :
    role.Names j := by
  unfold ofJson? at read
  split at read
  case h_1 s =>
    rw [name_of_ofName? read]
    exact .name
  case h_2 ms =>
    split at read
    case h_1 name alone =>
      obtain rfl := name_of_ofName? read
      refine .variant (fun m member => ?_) ?_
      · by_contra other
        have absent : ms.reverse.lookup m.1 = none := by
          rw [← Dict.find?_ofEntries, alone]
          exact Dict.find?_of_fresh (by simpa using other)
        have clash := List.lookup_eq_none_iff.mp absent m (List.mem_reverse.mpr member)
        simp at clash
      · rw [← Dict.find?_ofEntries, alone]
        exact Dict.find?_head _ _
    case h_2 => cases read
  case h_3 => cases read

/-- A choice is read from a record with a message that is a record with a role. -/
theorem Choice.message_of_ofJson? {j : Json} {c : Choice} (read : Choice.ofJson? j = some c) :
    ∃ m, j.HasField ["index", "message", "finish_reason"] "message" m ∧
      Message.ofJson? m = some c.message := by
  unfold ofJson? at read
  split at read
  case h_1 index message finishReason fields =>
    refine ⟨message, hasField_of_fields? (i := 1) fields rfl rfl, ?_⟩
    obtain ⟨index, -, read⟩ := Option.bind_eq_some_iff.mp read
    obtain ⟨m, message, read⟩ := Option.bind_eq_some_iff.mp read
    obtain ⟨reason, -, read⟩ := Option.bind_eq_some_iff.mp read
    cases read
    exact message
  case h_2 => cases read

theorem Message.role_of_ofJson? {j : Json} {m : Message} (read : Message.ofJson? j = some m) :
    ∃ v, j.HasField ["role", "content", "tool_call_id", "tool_calls"] "role" v ∧
      m.role.Names v := by
  unfold ofJson? at read
  split at read
  case h_1 role content toolCallId toolCalls fields =>
    obtain ⟨r, named, read⟩ := Option.bind_eq_some_iff.mp read
    obtain ⟨text, -, read⟩ := Option.bind_eq_some_iff.mp read
    obtain ⟨call, -, read⟩ := Option.bind_eq_some_iff.mp read
    obtain ⟨calls, -, read⟩ := Option.bind_eq_some_iff.mp read
    cases read
    exact ⟨role, hasField_of_fields? (i := 0) fields rfl rfl, Role.names_of_ofJson? named⟩
  case h_2 => cases read

/-- The element is a record whose message is a record with this role. -/
def Json.HasMessageOf (role : Role) (j : Json) : Prop :=
  ∃ m v, j.HasField ["index", "message", "finish_reason"] "message" m ∧
    m.HasField ["role", "content", "tool_call_id", "tool_calls"] "role" v ∧ role.Names v

theorem Choice.hasMessageOf {j : Json} {c : Choice} (read : Choice.ofJson? j = some c) :
    j.HasMessageOf c.message.role := by
  obtain ⟨m, field, message⟩ := message_of_ofJson? read
  obtain ⟨v, inner, names⟩ := Message.role_of_ofJson? message
  exact ⟨m, v, field, inner, names⟩

namespace Response

/-- A body is decoded just when it is written as a record with choices, into what the fields say;
each choice is read from an element with a message. Every other body is refused. -/
theorem decode_exact (body : Bytes) :
    (∀ r, decode body = .ok r ↔ ∃ d, Written body d ∧ d.Says r) ∧
    (∀ d r, Written body d → d.Says r → ∃ js, d.choices = some js ∧ ∀ c ∈ r.choices,
      ∃ j ∈ js, Choice.ofJson? j = some c ∧ j.HasMessageOf c.message.role) ∧
    ((¬ ∃ d, Written body d) → ∃ e, decode body = .error e) := by
  refine ⟨fun r => decode_says, fun d r _ told => ?_, fun unwritten => ?_⟩
  · obtain ⟨js, given, elements⟩ := told.choices
    refine ⟨js, given, fun c member => ?_⟩
    rw [elements] at member
    obtain ⟨j, within, read⟩ := List.mem_filterMap.mp member
    exact ⟨j, within, read, Choice.hasMessageOf read⟩
  · cases decoded : decode body with
    | error e => exact ⟨e, rfl⟩
    | ok r =>
      obtain ⟨d, written, -⟩ := decode_says.mp decoded
      exact (unwritten ⟨d, written⟩).elim

/-- A record with a choice and a value that is no choice. -/
def oneOfTwo : Bytes :=
  Utf8.ofString ("\x7b\"id\":\"r1\",\"model\":\"m\",\"created\":-7,\"choices\":[5,\x7b\"message\":" ++
    "\x7b\"role\":\"assistant\",\"content\":\"hi\"\x7d\x7d],\"usage\":\x7b\"total_tokens\":3\x7d\x7d")

theorem oneOfTwo_decoded :
    ∃ d, Written oneOfTwo d ∧ d.Says
      { id := "r1", created := -7, model := "m", usage := some ⟨0, 0, 3⟩
        choices := [⟨0, { role := .assistant, content := "hi" }, none⟩] } := by
  have decoded : (decode oneOfTwo).toOption = some
      { id := "r1", created := -7, model := "m", usage := some ⟨0, 0, 3⟩
        choices := [⟨0, { role := .assistant, content := "hi" }, none⟩] } := by
    decide +kernel
  cases read : decode oneOfTwo with
  | error e =>
    rw [read] at decoded
    cases decoded
  | ok r =>
    rw [read] at decoded
    obtain rfl := Option.some.inj decoded
    exact ((decode_exact oneOfTwo).1 _).mp read

/-- The values of the first five fields, in order. -/
def valuesOnly : Bytes :=
  Utf8.ofString "[\"\",\"\",0,\"\",[]]"

/-- A body may be an array. The choices are then its fifth value, which it must have. -/
theorem decode_valuesOnly :
    (decode valuesOnly).toOption = some {} ∧ (¬ ∃ ms, Json.read valuesOnly = .ok (.obj ms)) ∧
    (∃ d, Written valuesOnly d ∧ d.choices = some []) ∧
    (decode (Utf8.ofString "[\"\",\"\",0,\"\"]")).toOption = none := by
  -- An object has the fields of no names; an array with items has too many for that.
  have kind : ((Json.read valuesOnly).toOption.bind (Json.fields? [])).isNone = true := by
    decide +kernel
  have elements : ((read valuesOnly).toOption.bind (·.choices)).map List.length = some 0 := by
    decide +kernel
  refine ⟨by decide +kernel, ?_, ?_, by decide +kernel⟩
  · rintro ⟨ms, read⟩
    rw [read] at kind
    cases kind
  · cases held : read valuesOnly with
    | error e =>
      rw [held] at elements
      cases elements
    | ok d =>
      rw [held] at elements
      obtain ⟨js, given, none⟩ := Option.map_eq_some_iff.mp elements
      obtain rfl := List.length_eq_zero_iff.mp none
      exact ⟨d, read_iff.mp held, given⟩

end Response

end Parley
