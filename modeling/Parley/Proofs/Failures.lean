import Parley.Engine.Calls
import Parley.Proofs.Absence
import Parley.Proofs.Classification
import Parley.Proofs.Log
import Parley.Proofs.RoundTrips
import Parley.Proofs.Schedules

/-! A response that comes to nothing. It leaves nothing behind but its session in the removals, so
had it never come, the run would have gone on as it did. -/
namespace Parley

namespace Transport

end Transport

namespace Engine

theorem Drops.accept {result : Except Error Response} {n : Notice} (drops : Drops result n)
    (e : Engine) (t : RoundTrip) :
    e.accept t result = ((e.arrive t result).notice n, []) := by
  cases drops with
  | failed err => rfl
  | noChoices none => simp [Engine.accept, handleResponse, none]
  | noAssistant some none => simp [Engine.accept, handleResponse, some, none]

end Engine

namespace Threads
open Engine

theorem step_drop {s : Threads} (accounted : Accounted s) {t : RoundTrip}
    {outcome : Transport.Outcome} {n : Notice} (idle : s.work = .idle)
    (running : s.engine.phase = .running) (flying : t ∈ s.engine.inFlight)
    (drops : Drops (Transport.classify outcome) n) :
    s.step (.deliver t.number outcome) =
      { s with
        engine := (s.engine.receiving t (Transport.classify outcome)).notice n
        work := .resolving t [] } := by
  have on : s.engine.isRunning = true := decide_eq_true running
  rw [Threads.step, whenIdle_of_idle idle, Threads.deliver, land?,
    accounted.find_inFlight flying, Option.map_some]
  simp only [on, drops.accept]
  rfl

/-- A prompt is sent. -/
def asked : List Action :=
  [.launch, .push "a" "Hello.", .wake, .takeWake, .advance, .advance, .advance]

end Threads

end Parley
