/-! First-in first-out queues, oldest item first. -/
namespace Parley

structure Queue (α : Type) where
  toList : List α
  deriving Inhabited

namespace Queue

variable {α : Type}

def empty : Queue α :=
  ⟨[]⟩

def push (q : Queue α) (a : α) : Queue α :=
  ⟨q.toList ++ [a]⟩

def pop? (q : Queue α) : Option (α × Queue α) :=
  match q.toList with
  | [] => none
  | a :: rest => some (a, ⟨rest⟩)

/-- All items, and the queue without them. -/
def drain (q : Queue α) : List α × Queue α :=
  (q.toList, empty)

def size (q : Queue α) : Nat :=
  q.toList.length

def isEmpty (q : Queue α) : Bool :=
  q.toList.isEmpty

@[simp]
theorem toList_empty : (empty : Queue α).toList = [] :=
  rfl

@[simp]
theorem toList_push (q : Queue α) (a : α) : (q.push a).toList = q.toList ++ [a] :=
  rfl

theorem pop?_eq_none_iff (q : Queue α) : q.pop? = none ↔ q.toList = [] := by
  unfold pop?
  split <;> simp_all

theorem pop?_eq_some_iff (q rest : Queue α) (a : α) :
    q.pop? = some (a, rest) ↔ q.toList = a :: rest.toList := by
  cases rest
  unfold pop?
  split <;> simp_all

end Queue

end Parley
