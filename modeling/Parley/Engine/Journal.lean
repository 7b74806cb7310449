import Parley.Engine.Basic

/-! What a journal tells, oldest first. -/
namespace Parley

namespace Entry

@[simp] def submitted? : Entry → Option Prompt
  | .submitted p => some p
  | _ => none

@[simp] def taken? : Entry → Option Prompt
  | .taken p => some p
  | _ => none

@[simp] def appended? : Entry → Option Message
  | .appended m => some m
  | _ => none

@[simp] def sent? : Entry → Option RoundTrip
  | .sent t => some t
  | _ => none

@[simp] def received? : Entry → Option (RoundTrip × Except Error Response)
  | .received t result => some (t, result)
  | _ => none

@[simp] def published? : Entry → Option Answer
  | .published a => some a
  | _ => none

@[simp] def handled? : Entry → Option RoundTrip
  | .handled t => some t
  | _ => none

@[simp] def polled? : Entry → Option Answer
  | .polled a => some a
  | _ => none

@[simp] def swept? : Entry → Option (List String)
  | .swept ids => some ids
  | _ => none

@[simp] def noticed? : Entry → Option Notice
  | .noticed n => some n
  | _ => none

end Entry

/-- How a response was handled. -/
structure Handling where
  trip : RoundTrip
  result : Except Error Response
  /-- The tool messages appended meanwhile. -/
  toolMessages : List Message := []
  finished : Bool := false

namespace Handling

/-- The assistant message of the response calls tools. -/
def isBatch (h : Handling) : Bool :=
  match h.result with
  | .ok r => r.assistantMessage?.any Message.hasToolCalls
  | .error _ => false

/-- There is no response, no choice, or no choice by the assistant. -/
def isDropped (h : Handling) : Bool :=
  match h.result with
  | .ok r => r.choices.isEmpty || r.assistantMessage?.isNone
  | .error _ => true

/-- The latest of the handlings comes first; a message counts for it unless it is finished. -/
def addMessage (m : Message) : List Handling → List Handling
  | [] => []
  | h :: hs =>
    if !h.finished && m.role = .tool then { h with toolMessages := h.toolMessages ++ [m] } :: hs
    else h :: hs

def finishLatest : List Handling → List Handling
  | [] => []
  | h :: hs => { h with finished := true } :: hs

/-- The handlings that a journal tells of, latest first like the journal. -/
def ofJournal : List Entry → List Handling
  | [] => []
  | .received trip result :: older => { trip, result } :: ofJournal older
  | .appended m :: older => addMessage m (ofJournal older)
  | .handled _ :: older => finishLatest (ofJournal older)
  | _ :: older => ofJournal older

end Handling

/-- What `f` reads off the entries of a journal. -/
def tell {α : Type} (f : Entry → Option α) (journal : List Entry) : List α :=
  (journal.filterMap f).reverse

section

variable {α : Type} (f : Entry → Option α)

@[simp] theorem tell_nil : tell f [] = [] :=
  rfl

@[simp] theorem tell_cons (x : Entry) (journal : List Entry) :
    tell f (x :: journal) = tell f journal ++ (f x).toList := by
  unfold tell
  cases h : f x with
  | none => simp [h]
  | some a => simp [h]

@[simp] theorem tell_append (newer older : List Entry) :
    tell f (newer ++ older) = tell f older ++ tell f newer := by
  simp [tell]

theorem tell_sublist {older journal : List Entry} (grown : older <:+ journal) :
    List.Sublist (tell f older) (tell f journal) := by
  obtain ⟨newer, rfl⟩ := grown
  rw [tell_append]
  exact List.sublist_append_left _ _

@[simp] theorem tell_noticed (notices : List Notice) :
    tell f (notices.map Entry.noticed).reverse = notices.filterMap fun n => f (.noticed n) := by
  rw [tell, List.filterMap_reverse, List.filterMap_map, List.reverse_reverse]
  rfl

end

namespace Engine

variable (e : Engine)

@[simp] def submitted : List Prompt :=
  tell Entry.submitted? e.journal

@[simp] def taken : List Prompt :=
  tell Entry.taken? e.journal

/-- All messages that ever entered the history. -/
@[simp] def appended : List Message :=
  tell Entry.appended? e.journal

@[simp] def sent : List RoundTrip :=
  tell Entry.sent? e.journal

@[simp] def received : List (RoundTrip × Except Error Response) :=
  tell Entry.received? e.journal

@[simp] def published : List Answer :=
  tell Entry.published? e.journal

@[simp] def handled : List RoundTrip :=
  tell Entry.handled? e.journal

/-- The answers handed out. -/
@[simp] def polled : List Answer :=
  tell Entry.polled? e.journal

/-- The ids given to all sweeps. -/
@[simp] def swept : List String :=
  (tell Entry.swept? e.journal).flatten

@[simp] def notices : List Notice :=
  tell Entry.noticed? e.journal

/-- The round trips sent whose response has not been handled. -/
def unhandled : List RoundTrip :=
  e.sent.filter fun t => t.number ∉ e.handled.map (·.number)

theorem mem_unhandled {t : RoundTrip} :
    t ∈ e.unhandled ↔ t ∈ e.sent ∧ t.number ∉ e.handled.map (·.number) := by
  simp only [unhandled, List.mem_filter, decide_eq_true_eq]

def handlings : List Handling :=
  (Handling.ofJournal e.journal).reverse

end Engine

end Parley
