import Parley.Chat.Message

/-! The window over a conversation: the latest messages, oldest first, as many as its capacity
admits. -/
namespace Parley

structure History where
  capacity : Nat
  messages : List Message
  capacity_pos : 0 < capacity
  length_le : messages.length ≤ capacity

namespace History

/-- No window is smaller than one message. -/
def withCapacity (capacity : Nat) : History :=
  ⟨max capacity 1, [], by omega, by simp⟩

/-- A full window gives up its oldest message. -/
def append (h : History) (m : Message) : History :=
  { h with
    messages := h.messages.drop (h.messages.length + 1 - h.capacity) ++ [m]
    length_le := by
      have := h.capacity_pos
      simp only [List.length_append, List.length_drop, List.length_singleton]
      omega }

/-- What the window gives up for the next message. -/
def evicted (h : History) : List Message :=
  h.messages.take (h.messages.length + 1 - h.capacity)

def length (h : History) : Nat :=
  h.messages.length

def isEmpty (h : History) : Bool :=
  h.messages.isEmpty

end History

end Parley
