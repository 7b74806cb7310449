import Parley.Proofs.Executions
import Parley.Proofs.Requests
import Parley.Proofs.Schedules

/-! What handling a response with tool calls does, said by the engine before it: each call in turn
is served by the tool of its name, and its result is appended and sent back before the next. -/
namespace Parley

/-- Everything but a notice. -/
@[simp] def Entry.deed? : Entry → Option Entry
  | .noticed _ => none
  | x => some x

/-- What the model is told of the result of a call. -/
def ToolCall.told (c : ToolCall) (result : ToolResult) : Message :=
  if result.code = 0 then
    { role := .tool
      content := (result.value.map Value.display).getD ""
      toolCallId := some c.id }
  else { role := .tool, content := "Error: " ++ result.description }

theorem ToolResult.toMessage_eq (result : ToolResult) (c : ToolCall) :
    result.toMessage c.id = c.told result := by
  unfold toMessage isSuccess ToolCall.told
  by_cases success : result.code = 0 <;> simp [success, Message.toolResult, Message.toolError]

/-- A tool that has served those of the calls that go by its name. -/
def RegisteredTool.after (t : RegisteredTool) (calls : List ToolCall) : RegisteredTool :=
  { t with
    served := ((calls.filter fun c => c.name = t.definition.name).map ToolCall.asked).reverse ++
      t.served }

theorem RegisteredTool.after_concat (t : RegisteredTool) (calls : List ToolCall) (c : ToolCall) :
    t.after (calls ++ [c]) =
      if c.name = t.definition.name then (t.after calls).serving c.asked else t.after calls := by
  unfold after serving
  by_cases own : c.name = t.definition.name <;> simp [own]

/-- What a call is answered when the calls `made` were served before it; an unknown tool answers
nothing. -/
def Registry.answer? (r : Registry) (made : List ToolCall) (c : ToolCall) : Option Message :=
  (r.find? c.name).map fun t => c.told (t.tool (t.after made).served c.asked).result

namespace Engine

def deeds (e : Engine) : List Entry :=
  tell Entry.deed? e.journal

/-- The request that is sent when the batch of `m` has come to the messages `told` and to `a`. -/
def batchTrip (e : Engine) (t : RoundTrip) (m : Message) (told : List Message) (a : Message) :
    RoundTrip :=
  { number := e.opened + told.length
    id := correlationId t.promptId (e.sequence + told.length + 1)
    promptId := t.promptId
    request :=
      { model := e.config.model
        messages := (e.config.systemPrompt.map Message.system).toList ++
          (e.history.messages ++ m :: (told ++ [a])).rtake e.history.capacity
        tools := e.registry.definitions } }

/-- What is done from the point on where the calls `made` have come to the messages `told`. -/
def batchDeeds (e : Engine) (t : RoundTrip) (m : Message) (made : List ToolCall)
    (told : List Message) : List ToolCall → List Entry
  | [] => []
  | c :: calls =>
    match e.registry.answer? made c with
    | some a =>
      .called c :: .appended a :: .sent (e.batchTrip t m told a) ::
        e.batchDeeds t m (made ++ [c]) (told ++ [a]) calls
    | none => .called c :: e.batchDeeds t m (made ++ [c]) told calls

/-- Where the engine stands when the calls `made` of the batch of `m` have come to the messages
`told`. -/
structure Within (e : Engine) (m : Message) (made : List ToolCall) (told : List Message)
    (now : Engine) : Prop where
  config : now.config = e.config
  capacity : now.history.capacity = e.history.capacity
  history : now.history.messages = (e.history.messages ++ m :: told).rtake e.history.capacity
  tools : ∀ name, now.registry.find? name = (e.registry.find? name).map (·.after made)
  definitions : now.registry.definitions = e.registry.definitions
  sequence : now.sequence = e.sequence + told.length
  opened : now.opened = e.opened + told.length
  published : now.published = e.published
  outbox : now.outbox = e.outbox
  removals : now.removals = e.removals

theorem execute_deeds (e : Engine) (c : ToolCall) :
    (e.execute c).2.deeds = e.deeds ++ [.called c] := by
  simp [deeds]

theorem Within.execute {e now : Engine} {m : Message} {made : List ToolCall}
    {told : List Message} (h : Within e m made told now) (c : ToolCall) :
    Within e m (made ++ [c]) told (now.execute c).2 ∧
      (now.execute c).1 = e.registry.answer? made c := by
  constructor
  · exact
      { config := h.config
        capacity := h.capacity
        history := h.history
        tools := by
          intro name
          change (now.registry.execute c).registry.find? name = _
          rw [now.registry.execute_find? c name, h.tools name, Option.map_map]
          refine Option.map_congr fun t found => ?_
          have named := Registry.find?_name found
          rw [Function.comp_apply, t.after_concat, named]
        definitions := (now.registry.execute_definitions c).trans h.definitions
        sequence := h.sequence
        opened := h.opened
        published := by simpa using h.published
        outbox := h.outbox
        removals := h.removals }
  · have tool := h.tools c.name
    unfold Registry.answer?
    cases found : e.registry.find? c.name with
    | none =>
        rw [found] at tool
        simp [Registry.execute_unregistered tool, Except.toOption]
    | some t =>
        rw [found] at tool
        have served : (now.execute c).1 = some (((t.after made).tool (t.after made).served
            c.asked).result.toMessage c.id) := by
          simp [Registry.execute_registered tool, Except.toOption]
        rw [served, ToolResult.toMessage_eq]
        rfl

theorem Within.feedBack {e now : Engine} {m : Message} {made : List ToolCall}
    {told : List Message} (h : Within e m made told now) (t : RoundTrip) (a : Message) :
    Within e m made (told ++ [a]) (now.feedBack t.promptId a) ∧
      (now.feedBack t.promptId a).deeds =
        now.deeds ++ [.appended a, .sent (e.batchTrip t m told a)] ∧
      (now.feedBack t.promptId a).inFlight = now.inFlight ++ [e.batchTrip t m told a] := by
  have window : (now.append a).history.messages =
      (e.history.messages ++ m :: (told ++ [a])).rtake e.history.capacity := by
    have next := now.history.append_messages _ a (h.capacity ▸ h.history)
    rw [h.capacity] at next
    simpa using next
  have trip : { now.append a with sequence := now.sequence + 1 }.nextTrip
      (correlationId t.promptId (now.sequence + 1)) t.promptId = e.batchTrip t m told a := by
    have opened : (now.append a).opened = e.opened + told.length := h.opened
    have config : (now.append a).config = e.config := h.config
    have tools : (now.append a).registry.definitions = e.registry.definitions := h.definitions
    simp only [batchTrip, nextTrip, nextRequest, opened, config, window, tools, h.sequence]
  refine ⟨?_, ?_, ?_⟩
  · exact
      { config := by simpa using h.config
        capacity := by simpa [History.append] using h.capacity
        history := by simpa using window
        tools := by simpa using h.tools
        definitions := by simpa using h.definitions
        sequence := by simp [h.sequence, Nat.add_assoc]
        opened := by simp [h.opened, Nat.add_assoc]
        published := by simpa using h.published
        outbox := by simpa using h.outbox
        removals := by simpa using h.removals }
  · rw [← trip]
    simp [deeds, nextRequest]
  · rw [← trip]
    simp [nextRequest]

theorem Within.resolveCalls {e now : Engine} {m : Message} {made : List ToolCall}
    {told : List Message} (h : Within e m made told now) (t : RoundTrip) (calls : List ToolCall) :
    let done := e.batchDeeds t m made told calls
    let last := calls.foldl (resolveCall t.promptId) now
    Within e m (made ++ calls) (told ++ done.filterMap Entry.appended?) last ∧
      last.deeds = now.deeds ++ done ∧
      last.inFlight = now.inFlight ++ done.filterMap Entry.sent? := by
  -- On the calls that are left. What came of the earlier ones is in `made`, `told` and `now`.
  induction calls generalizing now made told with
  | nil => simpa [batchDeeds] using h
  | cons c calls ih =>
      obtain ⟨executed, message⟩ := h.execute c
      rw [List.foldl_cons, batchDeeds]
      cases answer : e.registry.answer? made c with
      | none =>
          have skipped : now.resolveCall t.promptId c = (now.execute c).2 := by
            rw [resolveCall, ← Prod.eta (now.execute c), message, answer]
          obtain ⟨within, deeds, flying⟩ := ih executed
          rw [skipped]
          refine ⟨?_, ?_, ?_⟩
          · rw [List.append_assoc] at within
            exact within
          · rw [deeds, execute_deeds, List.append_assoc]
            rfl
          · exact flying
      | some a =>
          have resubmitted :
              now.resolveCall t.promptId c = (now.execute c).2.feedBack t.promptId a := by
            rw [resolveCall, ← Prod.eta (now.execute c), message, answer]
          obtain ⟨next, more, one⟩ := executed.feedBack t a
          obtain ⟨within, deeds, flying⟩ := ih next
          rw [resubmitted]
          refine ⟨?_, ?_, ?_⟩
          · rw [List.append_assoc, List.append_assoc] at within
            exact within
          · rw [deeds, more, execute_deeds, List.append_assoc, List.append_assoc]
            rfl
          · rw [flying, one, List.append_assoc]
            rfl

theorem within_begun (e : Engine) (t : RoundTrip) (r : Response) (m : Message) :
    Within e m [] [] (((e.arrive t (.ok r)).choose r m).detail [.resolving m.toolCalls.length]) := by
  have window : e.history.messages = e.history.messages.rtake e.history.capacity := by
    have short := e.history.length_le
    rw [List.rtake, Nat.sub_eq_zero_of_le short, List.drop_zero]
  exact
    { config := by simp
      capacity := by simp [History.append]
      history := by simpa using e.history.append_messages _ m window
      tools := by simp [RegisteredTool.after]
      definitions := by simp
      sequence := by simp
      opened := by simp
      published := by simp
      outbox := by simp
      removals := by simp }

/-- The calls of a response are made in their order. A tool that is called by its name serves the
call, its result is appended and sent back at once under the next number, and a call to an unknown
tool comes to nothing. Nothing is published. -/
theorem batch_executed (e : Engine) (t : RoundTrip) (r : Response) (m : Message)
    (found : r.assistantMessage? = some m) (calls : m.toolCalls ≠ []) :
    let e' := e.complete t (.ok r)
    let done := e.batchDeeds t m [] [] m.toolCalls
    let told := done.filterMap Entry.appended?
    e'.deeds = e.deeds ++ .received t (.ok r) :: .appended m :: done ++ [.handled t] ∧
    e'.history.messages = (e.history.messages ++ m :: told).rtake e.history.capacity ∧
    e'.inFlight = e.inFlight ++ done.filterMap Entry.sent? ∧
    e'.sequence = e.sequence + told.length ∧
    (∀ name, e'.registry.find? name = (e.registry.find? name).map (·.after m.toolCalls)) ∧
    e'.registry.definitions = e.registry.definitions ∧
    e'.published = e.published ∧ e'.outbox = e.outbox ∧
    e'.removals.toList = e.removals.toList ++ [t.id] := by
  intro e' done told
  let begun := ((e.arrive t (.ok r)).choose r m).detail [.resolving m.toolCalls.length]
  have accepted : e.accept t (.ok r) = (begun, m.toolCalls) := by
    have chosen := Response.choices_ne_nil found
    simp [accept, handleResponse, chosen, found, Message.hasToolCalls, calls, begun]
  have finished : e' = (m.toolCalls.foldl (resolveCall t.promptId) begun).finish t := by
    change e.complete t (.ok r) = _
    rw [complete, accepted]
  have within : Within e m [] [] begun := e.within_begun t r m
  obtain ⟨last, deeds, flying⟩ := within.resolveCalls t m.toolCalls
  rw [show begun.inFlight = e.inFlight by simp [begun]] at flying
  have journal : e'.deeds =
      e.deeds ++ .received t (.ok r) :: .appended m :: done ++ [.handled t] := by
    have begin : begun.deeds = e.deeds ++ [.received t (.ok r), .appended m] := by
      simp [Engine.deeds, begun]
    have ending : e'.deeds = (m.toolCalls.foldl (resolveCall t.promptId) begun).deeds ++
        [.handled t] := by
      rw [finished]
      simp [Engine.deeds]
    rw [ending, deeds, begin]
    simp [done]
  have removals : e'.removals.toList = e.removals.toList ++ [t.id] := by
    rw [finished]
    simp [last.removals]
  rw [finished] at journal removals ⊢
  refine ⟨journal, last.history, flying, last.sequence, last.tools, last.definitions, ?_,
    last.outbox, removals⟩
  simpa using last.published

/-- One tool tells which of its calls it serves, and one fails on each. -/
def twoTools : Engine :=
  let count : Tool := fun served _ =>
    ⟨.success (.text (String.ofList (Decimal.natText (served.length + 1)))), []⟩
  let alarm : Tool := .pure fun _ => ⟨7, "No alarm.", some (.bool true)⟩
  let counting := Registry.empty.register "count" { name := "count", description := "" } count
  let both := counting.2.2.register "alarm" { name := "alarm", description := "" } alarm
  { Engine.new Threads.defaultConfig with registry := both.2.2, phase := .running }

def mixedBatch : Message :=
  let call (id name arguments : String) : ToolCall := ⟨id, ToolCall.functionKind, name, arguments⟩
  (Message.assistant "").withToolCalls
    [call "first" "count" "", call "second" "calendar" "", call "third" "alarm" "now",
      call "fourth" "count" ""]

theorem mixedBatch_executed :
    let r : Response := { choices := [⟨0, mixedBatch, none⟩] }
    let e' := twoTools.complete (twoTools.nextTrip "a" "a") (.ok r)
    r.assistantMessage? = some mixedBatch ∧ mixedBatch.toolCalls ≠ [] ∧
    e'.history.messages = [mixedBatch, .toolResult "first" "1", .toolError "Error: No alarm.",
      .toolResult "fourth" "2"] ∧
    e'.inFlight.map (fun t => (t.id, t.request.messages.length)) =
      [("a#1", 2), ("a#2", 3), ("a#3", 4)] ∧
    e'.sequence = 3 ∧ e'.removals.toList = ["a"] := by
  intro r e'
  have found : r.assistantMessage? = some mixedBatch := by decide
  have calls : mixedBatch.toolCalls ≠ [] := by decide
  obtain ⟨-, history, flying, sequence, -, -, -, -, removals⟩ :=
    batch_executed twoTools (twoTools.nextTrip "a" "a") r mixedBatch found calls
  refine ⟨found, calls, ?_, ?_, ?_, removals⟩
  · rw [history]
    decide +kernel
  · rw [flying]
    decide +kernel
  · rw [sequence]
    decide +kernel

end Engine

end Parley
