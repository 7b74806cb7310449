import Parley.Proofs.MediaTypes
import Parley.Proofs.Replacement
import Parley.Transport.Outcome

/-! What becomes of the outcome of a request. It is a response, or the error of the first check that
fails. -/
namespace Parley.Transport

/-- The content type is left out or JSON's. -/
def SaysJson (r : Reply) : Prop :=
  ∀ text, r.contentType = some text → ∃ m, MediaType.Written text.toList m ∧ m.IsJson

inductive Accepted : Outcome → Response → Prop
  | reply {r : Reply} {x : Response} (success : 200 ≤ r.status ∧ r.status < 300)
    (json : SaysJson r) (decoded : Response.decode r.body = .ok x) : Accepted (.ok r) x

/-- Each check comes with those before it passed. -/
inductive Refused : Outcome → Error → Prop
  | transport (f : Failure) :
    Refused (.error f) ⟨.transport, some (f.kind.text ++ ": " ++ f.message)⟩
  | status {r : Reply} {cs : List Char} (failed : ¬(200 ≤ r.status ∧ r.status < 300))
    (read : Utf8.Replaced r.body cs) :
    Refused (.ok r) ⟨.httpStatus r.status, some (String.ofList (cs.take 256))⟩
  | contentType {r : Reply} {text : String} (success : 200 ≤ r.status ∧ r.status < 300)
    (given : r.contentType = some text) (other : ¬SaysJson r) :
    Refused (.ok r) ⟨.decode, some ("unexpected content type: " ++ text)⟩
  | body {r : Reply} {e : Response.CodecError} (success : 200 ≤ r.status ∧ r.status < 300)
    (json : SaysJson r) (broken : Response.decode r.body = .error e) :
    Refused (.ok r) ⟨.decode, some e.message⟩

section checks

variable {r : Reply}

theorem isSuccess_iff : r.isSuccess = true ↔ 200 ≤ r.status ∧ r.status < 300 := by
  simp [Reply.isSuccess, isSuccessStatus]

theorem isJsonReply_iff : isJsonReply r = true ↔ SaysJson r := by
  unfold isJsonReply SaysJson
  cases r.contentType with
  | none => simp
  | some text => simp [← MediaType.parse?_iff, ← MediaType.isJson_iff, Option.any_eq_true]

theorem contentType_of_other (other : ¬SaysJson r) : ∃ text, r.contentType = some text := by
  simp only [SaysJson, not_forall] at other
  obtain ⟨text, given, -⟩ := other
  exact ⟨text, given⟩

/-- A refused body is cut at its first characters, wherever they end. -/
theorem truncate?_excerpt (body : Bytes) :
    Text.truncate? excerptLength (Utf8.lossy body) = some (excerpt body).toList := by
  rw [excerpt, String.toList_ofList, Text.truncate_eq, Text.truncate?_eq]

theorem excerpt_eq {body : Bytes} {cs : List Char} (read : Utf8.Replaced body cs) :
    excerpt body = String.ofList (cs.take 256) := by
  rw [excerpt, Text.truncate_eq, Utf8.replaced_iff.mp read]
  rfl

theorem classify_failed (failed : ¬(200 ≤ r.status ∧ r.status < 300)) :
    classify (.ok r) = .error ⟨.httpStatus r.status, some (excerpt r.body)⟩ := by
  rw [← isSuccess_iff, Bool.not_eq_true] at failed
  rw [classify, if_pos (by rw [failed]; rfl)]

theorem classify_other {text : String} (success : 200 ≤ r.status ∧ r.status < 300)
    (given : r.contentType = some text) (other : ¬SaysJson r) :
    classify (.ok r) = .error ⟨.decode, some ("unexpected content type: " ++ text)⟩ := by
  rw [← isJsonReply_iff, Bool.not_eq_true] at other
  rw [classify, if_neg (by rw [isSuccess_iff.mpr success]; decide),
    if_pos (by rw [other]; rfl), given]
  rfl

theorem classify_decoded (success : 200 ≤ r.status ∧ r.status < 300) (json : SaysJson r) :
    classify (.ok r) =
      (Response.decode r.body).mapError fun e => ⟨.decode, some e.message⟩ := by
  rw [classify, if_neg (by rw [isSuccess_iff.mpr success]; decide),
    if_neg (by rw [isJsonReply_iff.mpr json]; decide)]
  cases Response.decode r.body <;> rfl

end checks

theorem Accepted.classified {outcome : Outcome} {x : Response} (accepted : Accepted outcome x) :
    classify outcome = .ok x := by
  obtain ⟨success, json, decoded⟩ := accepted
  rw [classify_decoded success json, decoded]
  rfl

theorem Refused.classified {outcome : Outcome} {e : Error} (refused : Refused outcome e) :
    classify outcome = .error e := by
  cases refused with
  | transport f => rfl
  | status failed read => rw [classify_failed failed, excerpt_eq read]
  | contentType success given other => exact classify_other success given other
  | body success json broken =>
    rw [classify_decoded success json, broken]
    rfl

theorem accepted_or_refused (outcome : Outcome) :
    (∃ x, Accepted outcome x) ∨ ∃ e, Refused outcome e := by
  cases outcome with
  | error f => exact .inr ⟨_, .transport f⟩
  | ok r =>
    by_cases success : 200 ≤ r.status ∧ r.status < 300
    · by_cases json : SaysJson r
      · cases decoded : Response.decode r.body with
        | ok x => exact .inl ⟨x, .reply success json decoded⟩
        | error e => exact .inr ⟨_, .body success json decoded⟩
      · obtain ⟨text, given⟩ := contentType_of_other json
        exact .inr ⟨_, .contentType success given json⟩
    · exact .inr ⟨_, .status success (Utf8.replaced_iff.mpr rfl)⟩

theorem classify_accepted {outcome : Outcome} {x : Response} :
    classify outcome = .ok x ↔ Accepted outcome x := by
  refine ⟨fun result => ?_, Accepted.classified⟩
  rcases accepted_or_refused outcome with ⟨y, accepted⟩ | ⟨e, refused⟩
  · obtain rfl := Except.ok.inj (accepted.classified.symm.trans result)
    exact accepted
  · cases refused.classified.symm.trans result

theorem classify_refused {outcome : Outcome} {e : Error} :
    classify outcome = .error e ↔ Refused outcome e := by
  refine ⟨fun result => ?_, Refused.classified⟩
  rcases accepted_or_refused outcome with ⟨y, accepted⟩ | ⟨d, refused⟩
  · cases accepted.classified.symm.trans result
  · obtain rfl := Except.error.inj (refused.classified.symm.trans result)
    exact refused

/-- Every outcome comes to what it is accepted or refused as, and cutting the body never fails. -/
theorem classify_exact :
    (∀ outcome x, classify outcome = .ok x ↔ Accepted outcome x) ∧
    (∀ outcome e, classify outcome = .error e ↔ Refused outcome e) ∧
    ∀ body, Text.truncate? excerptLength (Utf8.lossy body) = some (excerpt body).toList :=
  ⟨fun _ _ => classify_accepted, fun _ _ => classify_refused, truncate?_excerpt⟩

end Parley.Transport
