import Parley.Proofs.Classification
import Parley.Proofs.Failures

/-! The status codes of failed round trips. A code is the negative of the status, or one of three
fixed ones, so it is negative and tells its cause unless the status is less than four. -/
namespace Parley

namespace Transport

/-- What a round trip fails of. -/
inductive Cause where
  | noResponse
  | undecodable
  | emptyResponse
  | status (s : Nat)
  deriving DecidableEq

/-- The outcome fails, of the first check that does not hold, or comes to a response without
choices. -/
inductive FailsOf : Outcome → Cause → Prop
  | noResponse (f : Failure) : FailsOf (.error f) .noResponse
  | status {r : Reply} (failed : ¬(200 ≤ r.status ∧ r.status < 300)) :
    FailsOf (.ok r) (.status r.status)
  | contentType {r : Reply} (success : 200 ≤ r.status ∧ r.status < 300) (other : ¬SaysJson r) :
    FailsOf (.ok r) .undecodable
  | body {r : Reply} {e : Response.CodecError} (success : 200 ≤ r.status ∧ r.status < 300)
    (json : SaysJson r) (broken : Response.decode r.body = .error e) :
    FailsOf (.ok r) .undecodable
  | noChoices {r : Reply} {x : Response} (success : 200 ≤ r.status ∧ r.status < 300)
    (json : SaysJson r) (decoded : Response.decode r.body = .ok x) (none : x.choices = []) :
    FailsOf (.ok r) .emptyResponse

namespace Cause

def code : Cause → Int
  | .noResponse => -1
  | .undecodable => -2
  | .emptyResponse => -3
  | .status s => -s

/-- Two causes with one code. -/
inductive Clash : Cause → Cause → Prop
  | noResponse : Clash (.status 1) .noResponse
  | undecodable : Clash (.status 2) .undecodable
  | emptyResponse : Clash (.status 3) .emptyResponse

theorem code_neg_iff {c : Cause} : c.code < 0 ↔ c ≠ .status 0 := by
  cases c with
  | noResponse | undecodable | emptyResponse => simp [code]
  | status s =>
    rw [ne_eq, Cause.status.injEq, code]
    omega

theorem code_eq_status {c : Cause} {s : Nat} (same : c.code = (status s).code) :
    c = .status s ∨ Clash (.status s) c := by
  cases c with
  | noResponse =>
    simp only [code] at same
    obtain rfl : s = 1 := by omega
    exact .inr .noResponse
  | undecodable =>
    simp only [code] at same
    obtain rfl : s = 2 := by omega
    exact .inr .undecodable
  | emptyResponse =>
    simp only [code] at same
    obtain rfl : s = 3 := by omega
    exact .inr .emptyResponse
  | status k =>
    simp only [code] at same
    obtain rfl : k = s := by omega
    exact .inl rfl

theorem Clash.code {c d : Cause} (clash : Clash c d) : c.code = d.code := by
  cases clash <;> rfl

theorem code_eq_iff {c d : Cause} : c.code = d.code ↔ c = d ∨ Clash c d ∨ Clash d c := by
  constructor
  · intro same
    cases d with
    | status s => exact (code_eq_status same).imp_right .inr
    | noResponse | undecodable | emptyResponse =>
      cases c with
      | status s => exact .inr (.inl ((code_eq_status same.symm).resolve_left nofun))
      | noResponse | undecodable | emptyResponse =>
        first | exact .inl rfl | exact absurd same (by decide)
  · rintro (rfl | clash | clash)
    · rfl
    · exact clash.code
    · exact clash.code.symm

end Cause

/-- The failure is reported with the code of its cause. -/
theorem FailsOf.drops {outcome : Outcome} {c : Cause} (fails : FailsOf outcome c) :
    ∃ n, Engine.Drops (classify outcome) n ∧ n.level = .error ∧ n.status = some c.code := by
  cases fails with
  | noResponse f => exact ⟨_, .failed _, rfl, rfl⟩
  | status failed =>
    rw [classify_failed failed]
    exact ⟨_, .failed _, rfl, rfl⟩
  | contentType success other =>
    obtain ⟨text, given⟩ := contentType_of_other other
    rw [classify_other success given other]
    exact ⟨_, .failed _, rfl, rfl⟩
  | body success json broken =>
    rw [classify_decoded success json, broken]
    exact ⟨_, .failed _, rfl, rfl⟩
  | noChoices success json decoded none =>
    rw [classify_decoded success json, decoded]
    exact ⟨_, .noChoices none, rfl, rfl⟩

theorem FailsOf.unique {outcome : Outcome} {c d : Cause} (fails : FailsOf outcome c)
    (fails' : FailsOf outcome d) : d = c := by
  cases fails with
  | noResponse f =>
    cases fails'
    rfl
  | status failed =>
    cases fails' with
    | status failed' => rfl
    | contentType success other => exact absurd success failed
    | body success json broken => exact absurd success failed
    | noChoices success json decoded none => exact absurd success failed
  | contentType success other =>
    cases fails' with
    | status failed => exact absurd success failed
    | contentType success' other' => rfl
    | body success' json broken => rfl
    | noChoices success' json decoded none => exact absurd json other
  | body success json broken =>
    cases fails' with
    | status failed => exact absurd success failed
    | contentType success' other => rfl
    | body success' json' broken' => rfl
    | noChoices success' json' decoded none => cases broken.symm.trans decoded
  | noChoices success json decoded none =>
    cases fails' with
    | status failed => exact absurd success failed
    | contentType success' other => exact absurd json other
    | body success' json' broken => cases broken.symm.trans decoded
    | noChoices success' json' decoded' none' => rfl

/-- What ends in an error, or in a response without choices, fails of something. -/
theorem exists_failsOf {outcome : Outcome}
    (ends : (∃ e, classify outcome = .error e) ∨
      ∃ x, classify outcome = .ok x ∧ x.choices = []) : ∃ c, FailsOf outcome c := by
  rcases ends with ⟨e, refused⟩ | ⟨x, accepted, none⟩
  · cases classify_refused.mp refused with
    | transport f => exact ⟨_, .noResponse f⟩
    | status failed read => exact ⟨_, .status failed⟩
    | contentType success given other => exact ⟨_, .contentType success other⟩
    | body success json broken => exact ⟨_, .body success json broken⟩
  · cases classify_accepted.mp accepted with
    | reply success json decoded => exact ⟨_, .noChoices success json decoded none⟩

end Transport

namespace Threads
open Transport

theorem run_drop {s : Threads} (accounted : Accounted s) {t : RoundTrip} {outcome : Outcome}
    {n : Notice} (idle : s.work = .idle) (running : s.engine.phase = .running)
    (flying : t ∈ s.engine.inFlight) (drops : Engine.Drops (classify outcome) n) :
    (s.run [.deliver t.number outcome, .advance]).engine.notices = s.engine.notices ++ [n] := by
  change (s.step (.deliver t.number outcome)).advance.engine.notices = _
  rw [step_drop accounted idle running flying drops]
  simp [advance]

/-- A response that ends in an error or has no choices is reported once, with the code of what it
fails of. The code is negative unless that is a status of zero, and no other cause has it unless
one of the two is a status of one, two or three. -/
theorem failure_status (config : Config) (before : List Action) (t : RoundTrip) (outcome : Outcome)
    (ends : (∃ e, classify outcome = .error e) ∨
      ∃ x, classify outcome = .ok x ∧ x.choices = [])
    (idle : ((new config).run before).work = .idle)
    (running : ((new config).run before).engine.phase = .running)
    (flying : t ∈ ((new config).run before).engine.inFlight) :
    let s := (new config).run before
    ∃ c, (∀ d, FailsOf outcome d ↔ d = c) ∧
      (∃ n, (s.run [.deliver t.number outcome, .advance]).engine.notices =
        s.engine.notices ++ [n] ∧ n.level = .error ∧ n.status = some c.code) ∧
      (c.code < 0 ↔ c ≠ .status 0) ∧
      ∀ d : Cause, d.code = c.code ↔ d = c ∨ d.Clash c ∨ c.Clash d := by
  intro s
  obtain ⟨c, fails⟩ := exists_failsOf ends
  obtain ⟨n, drops, level, status⟩ := fails.drops
  refine ⟨c, fun d => ⟨fails.unique, fun same => same ▸ fails⟩, ⟨n, ?_, level, status⟩,
    Cause.code_neg_iff, fun d => Cause.code_eq_iff⟩
  exact run_drop (run_accounted config before) idle running flying drops

/-- The statuses reported once the outcome has come to the request of `asked`. -/
def statuses (outcome : Outcome) : List Int :=
  ((new defaultConfig).run (asked ++ [.deliver 0 outcome, .advance])).engine.notices.filterMap
    Notice.status

theorem unavailable_status :
    let t := ((Engine.new defaultConfig).append (.user "Hello.")).nextTrip "a" "a"
    let outcome : Outcome := .ok ⟨503, none, []⟩
    let s := (new defaultConfig).run asked
    (∃ e, classify outcome = .error e) ∧ s.work = .idle ∧ s.engine.phase = .running ∧
      t ∈ s.engine.inFlight ∧ ∃ c, FailsOf outcome c ∧ c.code = -503 ∧
      ∀ d : Cause, d.code = -503 → d = .status 503 := by
  intro t outcome s
  have fails : FailsOf outcome (.status 503) := .status (by decide)
  have refused : ∃ e, classify outcome = .error e := ⟨_, classify_failed (by decide)⟩
  have idle : s.work = .idle := by decide +kernel
  have running : s.engine.phase = .running := by decide +kernel
  have flying : t ∈ s.engine.inFlight := List.mem_singleton.mpr rfl
  obtain ⟨c, cause, -, -, shared⟩ :=
    failure_status defaultConfig asked t outcome (.inl refused) idle running flying
  obtain rfl := (cause _).mp fails
  refine ⟨refused, idle, running, flying, _, fails, rfl, fun d same => ?_⟩
  rcases (shared d).mp same with same | clash | clash
  · exact same
  · cases clash
  · cases clash

/-- A status of zero is reported as a success would be, and one of one as a request without a
reply. -/
theorem small_statuses_mistaken :
    FailsOf (.ok ⟨0, none, []⟩) (.status 0) ∧ statuses (.ok ⟨0, none, []⟩) = [0] ∧
      FailsOf (.ok ⟨1, none, []⟩) (.status 1) ∧ statuses (.ok ⟨1, none, []⟩) = [-1] ∧
      FailsOf (.error ⟨.timeout, "No reply."⟩) .noResponse ∧
      statuses (.error ⟨.timeout, "No reply."⟩) = [-1] := by
  refine ⟨.status (by decide), ?_, .status (by decide), ?_, .noResponse _, ?_⟩
  · decide +kernel
  · decide +kernel
  · decide +kernel

end Threads

end Parley
