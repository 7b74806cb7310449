import Parley.Proofs.Steps

/-! The key of a configuration is seen by the transport alone. Two engines whose keys differ go
through the same states, so whatever else can be seen of one is seen of the other. -/
namespace Parley

/-- The request with another key in its Authorization header. -/
def Transport.Request.authorized (q : Transport.Request) (key : String) : Transport.Request :=
  { q with
    headers := q.headers.map fun h =>
      if h.1 = "Authorization" then (h.1, "Bearer " ++ key) else h }

theorem RoundTrip.toTransport_key (t : RoundTrip) (c : Config) (key : String) :
    t.toTransport { c with apiKey := key } = (t.toTransport c).authorized key := by
  simp [toTransport, Transport.Request.authorized]

namespace Engine

def withKey (e : Engine) (key : String) : Engine :=
  { e with config := { e.config with apiKey := key } }

/-- What the engine has handed to the transport, in order. -/
def outgoing (e : Engine) : List Transport.Request :=
  e.sent.map fun t => t.toTransport e.config

variable (e : Engine) (key : String)

theorem takePrompt?_withKey :
    (e.withKey key).takePrompt? = e.takePrompt?.map fun (p, rest) => (p, rest.withKey key) := by
  unfold takePrompt?
  rw [Option.map_map]
  rfl

theorem receive_withKey (p : Prompt) : (e.withKey key).receive p = (e.receive p).withKey key := by
  unfold receive
  split <;> rfl

theorem handleResponse_withKey (t : RoundTrip) (r : Response) :
    (e.withKey key).handleResponse t r =
      ((e.handleResponse t r).1.withKey key, (e.handleResponse t r).2) := by
  unfold handleResponse
  split
  · rfl
  · cases r.assistantMessage? with
    | none => rfl
    | some m => cases calls : m.hasToolCalls <;> simp only [calls] <;> rfl

theorem accept_withKey (t : RoundTrip) (result : Except Error Response) :
    (e.withKey key).accept t result =
      ((e.accept t result).1.withKey key, (e.accept t result).2) := by
  cases result with
  | error err => rfl
  | ok r => exact handleResponse_withKey (e.arrive t (.ok r)) key t r

theorem land?_withKey (n : Nat) :
    (e.withKey key).land? n = (e.land? n).map fun (t, landed) => (t, landed.withKey key) := by
  unfold land?
  rw [Option.map_map]
  rfl

theorem takeWake?_withKey :
    (e.withKey key).takeWake? = e.takeWake?.map (·.withKey key) := by
  unfold takeWake?
  cases permit : e.bridge.permit <;> simp [withKey, Bridge.poll, permit]

theorem poll_withKey :
    (e.withKey key).poll = (e.poll.1, e.poll.2.withKey key) := by
  have outbox : (e.withKey key).outbox = e.outbox := rfl
  unfold poll
  rw [outbox]
  cases e.outbox.pop? <;> rfl

theorem start_withKey :
    (e.withKey key).start = (e.start.1, e.start.2.withKey key) := by
  have phase : (e.withKey key).phase = e.phase := rfl
  unfold start
  rw [phase]
  cases e.phase <;> rfl

theorem shutdown_withKey : (e.withKey key).shutdown = e.shutdown.withKey key := by
  have running : (e.withKey key).isRunning = e.isRunning := rfl
  unfold shutdown
  rw [running]
  cases e.isRunning <;> rfl

end Engine

namespace Threads
open Engine

def withKey (s : Threads) (key : String) : Threads :=
  { s with engine := s.engine.withKey key }

variable (s : Threads) (key : String)

theorem advance_withKey : (s.withKey key).advance = s.advance.withKey key := by
  have same : (s.withKey key).work = s.work := rfl
  unfold advance
  rw [same]
  cases s.work with
  | idle | answering t m calls | rewaking p => rfl
  | woken =>
      have taken := takePrompt?_withKey s.engine key
      simp only [withKey, taken]
      cases s.engine.takePrompt? <;> rfl
  | taken p => rfl
  | receiving p =>
      simp only [withKey, receive_withKey]
  | resolving t calls =>
      cases calls with
      | nil => rfl
      | cons c calls =>
          have called : (s.engine.withKey key).execute c =
              ((s.engine.execute c).1, (s.engine.execute c).2.withKey key) := rfl
          simp only [withKey, called]
          rcases s.engine.execute c with ⟨_ | m, engine⟩ <;> rfl

theorem deliver_withKey (n : Nat) (outcome : Transport.Outcome) :
    (s.withKey key).deliver n outcome = (s.deliver n outcome).withKey key := by
  have running : (s.withKey key).engine.isRunning = s.engine.isRunning := rfl
  have landed : (s.withKey key).engine.land? n =
      (s.engine.land? n).map fun (t, landed) => (t, landed.withKey key) :=
    land?_withKey s.engine key n
  unfold deliver
  rw [landed, running]
  cases s.engine.land? n with
  | none => rfl
  | some found =>
      obtain ⟨t, rest⟩ := found
      simp only [Option.map_some, accept_withKey]
      cases s.engine.isRunning <;> rfl

theorem whenIdle_withKey (next : Threads) :
    (s.withKey key).whenIdle (next.withKey key) = (s.whenIdle next).withKey key := by
  have same : (s.withKey key).work = s.work := rfl
  unfold whenIdle
  rw [same]
  cases s.work <;> rfl

theorem step_withKey (a : Action) : (s.withKey key).step a = (s.step a).withKey key := by
  have running : (s.withKey key).engine.isRunning = s.engine.isRunning := rfl
  cases a with
  | launch =>
      have phase : (s.withKey key).engine.phase = s.engine.phase := rfl
      rw [step, step, phase]
      cases s.engine.phase <;> rfl
  | firstWake =>
      have starting : (s.withKey key).starting = s.starting := rfl
      rw [step, step, starting]
      cases s.starting <;> rfl
  | push id text => rfl
  | wake =>
      have submitting : (s.withKey key).submitting = s.submitting := rfl
      rw [step, step, submitting]
      split <;> rfl
  | poll =>
      have polled := poll_withKey s.engine key
      simp only [step, withKey, polled]
  | register name definition tool => rfl
  | shutdown =>
      rw [step, step, ← whenIdle_withKey]
      simp only [withKey, shutdown_withKey]
  | takeWake =>
      rw [step, step, ← whenIdle_withKey]
      have woken : (s.withKey key).engine.takeWake? = s.engine.takeWake?.map (·.withKey key) :=
        takeWake?_withKey s.engine key
      rw [running, woken]
      cases s.engine.isRunning with
      | false => rfl
      | true => cases s.engine.takeWake? <;> rfl
  | deliver n outcome =>
      rw [step, step, ← whenIdle_withKey, deliver_withKey]
  | sweep =>
      rw [step, step, ← whenIdle_withKey, running]
      cases s.engine.isRunning <;> rfl
  | advance => exact advance_withKey s key

theorem run_withKey (actions : List Action) :
    (s.withKey key).run actions = (s.run actions).withKey key := by
  induction actions generalizing s with
  | nil => rfl
  | cons a actions ih =>
      change ((s.withKey key).step a).run actions = ((s.step a).run actions).withKey key
      rw [step_withKey, ih]

/-- To every caller the two engines are the same. -/
structure Alike (e e' : Engine) : Prop where
  logged : e'.logged = e.logged
  notices : e'.notices = e.notices
  published : e'.published = e.published
  polled : e'.polled = e.polled
  history : e'.history.messages = e.history.messages
  definitions : e'.registry.definitions = e.registry.definitions
  isRunning : e'.isRunning = e.isRunning
  pending : e'.pending = e.pending
  start : e'.start.1 = e.start.1
  poll : e'.poll.1 = e.poll.1
  register : ∀ name definition tool,
    (e'.register name definition tool).1 = (e.register name definition tool).1
  deliver : ∀ n outcome, (e'.deliver n outcome).1 = (e.deliver n outcome).1

theorem alike_withKey (e : Engine) (key : String) : Alike e (e.withKey key) where
  logged := rfl
  notices := rfl
  published := rfl
  polled := rfl
  history := rfl
  definitions := rfl
  isRunning := rfl
  pending := rfl
  start := by rw [start_withKey]
  poll := by rw [poll_withKey]
  register _ _ _ := rfl
  deliver n outcome := by
    have running : (e.withKey key).isRunning = e.isRunning := rfl
    unfold Engine.deliver
    rw [land?_withKey, running]
    cases e.land? n with
    | none => rfl
    | some found => cases e.isRunning <;> rfl

/-- The key does not leak. Take two configurations that differ in nothing but the key: their
descriptions are the same, and whatever callers, transport and tools do, so is all that any caller
can see. The transport is handed the same requests in the same order, but for the value of the
Authorization header. -/
theorem key_unseen (settings : Settings) (key : String) (actions : List Action) :
    let other := { settings with apiKey := key }
    let e := ((new settings.toConfig).run actions).engine
    let e' := ((new other.toConfig).run actions).engine
    other.describe = settings.describe ∧
    other.toConfig.describe = settings.toConfig.describe ∧
    Alike e e' ∧
    e'.outgoing = e.outgoing.map (·.authorized key) ∧
    ∀ q ∈ e.outgoing, q.headers.filter (·.1 = "Authorization") =
      [("Authorization", "Bearer " ++ settings.apiKey)] := by
  intro other e e'
  have same : e' = e.withKey key :=
    congrArg Threads.engine (run_withKey (new settings.toConfig) key actions)
  refine ⟨rfl, rfl, ?_, ?_, ?_⟩
  · rw [same]
    exact alike_withKey e key
  · rw [same]
    simp only [outgoing, List.map_map]
    exact List.map_congr_left fun t _ => t.toTransport_key e.config key
  · intro q member
    obtain ⟨t, -, rfl⟩ := List.mem_map.mp member
    have config : e.config = settings.toConfig := run_config (new settings.toConfig) actions
    rw [config]
    simp [RoundTrip.toTransport, Settings.toConfig]

end Threads

end Parley
