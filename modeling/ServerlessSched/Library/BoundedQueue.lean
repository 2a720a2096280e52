import Mathlib.Data.List.Basic

/-! # Bounded first-in first-out queues

The bound is a field, so that a queue longer than its capacity cannot be built.
A push into a full queue fails and leaves the queue to its caller unchanged.
-/
namespace ServerlessSched

structure BoundedQueue (cap : ℕ) (α : Type*) where
  items : List α
  length_le : items.length ≤ cap

namespace BoundedQueue
variable {cap : ℕ} {α : Type*}

@[ext] theorem ext {q r : BoundedQueue cap α} (h : q.items = r.items) : q = r := by
  cases q
  cases r
  cases h
  rfl

def empty : BoundedQueue cap α := ⟨[],Nat.zero_le cap⟩

@[simp] theorem empty_items : (empty : BoundedQueue cap α).items = [] := rfl

def push (q : BoundedQueue cap α) (a : α) : Option (BoundedQueue cap α) :=
  if h : q.items.length < cap then
    some ⟨q.items ++ [a],by rw [List.length_append]; exact h⟩
  else none

def pop : BoundedQueue cap α → Option (α × BoundedQueue cap α)
  | ⟨[],_⟩ => none
  | ⟨a :: rest,h⟩ => some (a,⟨rest,Nat.le_of_succ_le h⟩)

def HasRoom (q : BoundedQueue cap α) : Prop := q.items.length < cap

instance (q : BoundedQueue cap α) : Decidable q.HasRoom := Nat.decLt _ _

theorem push_eq_some {q r : BoundedQueue cap α} {a : α} :
    q.push a = some r ↔ q.HasRoom ∧ r.items = q.items ++ [a] := by
  unfold push HasRoom
  split
  case isTrue h =>
    constructor
    · intro he
      cases he
      exact ⟨h,rfl⟩
    · rintro ⟨-,he⟩
      exact congrArg some (ext he.symm)
  case isFalse h => simp [h]

theorem push_eq_none {q : BoundedQueue cap α} {a : α} : q.push a = none ↔ ¬q.HasRoom := by
  unfold push HasRoom
  split <;> simp_all

theorem pop_eq_none {q : BoundedQueue cap α} : q.pop = none ↔ q.items = [] := by
  rcases q with ⟨items,h⟩
  cases items <;> simp [pop]

theorem pop_eq_some {q r : BoundedQueue cap α} {a : α} :
    q.pop = some (a,r) ↔ q.items = a :: r.items := by
  rcases q with ⟨items,h⟩
  rcases r with ⟨rest,h'⟩
  cases items <;> simp [pop]

end BoundedQueue

/-- What has gone into a queue and what has come out of it, oldest first. -/
structure QueueHistory (α : Type*) where
  accepted : List α
  delivered : List α

namespace QueueHistory
variable {α : Type*}

def empty : QueueHistory α := ⟨[],[]⟩

def accept (h : QueueHistory α) (a : α) : QueueHistory α := { h with accepted := h.accepted ++ [a] }

def deliver (h : QueueHistory α) (a : α) : QueueHistory α := { h with delivered := h.delivered ++ [a] }

/-- Nothing lost, duplicated or reordered: what came out, followed by what is still inside,
is what went in. -/
def Explains (h : QueueHistory α) (content : List α) : Prop := h.delivered ++ content = h.accepted

theorem explains_empty : (empty : QueueHistory α).Explains [] := rfl

theorem Explains.accept {h : QueueHistory α} {content : List α} (hc : h.Explains content) (a : α) :
    (h.accept a).Explains (content ++ [a]) := by
  unfold Explains QueueHistory.accept at *
  rw [← List.append_assoc,hc]

theorem Explains.deliver {h : QueueHistory α} {content : List α} {a : α}
    (hc : h.Explains (a :: content)) : (h.deliver a).Explains content := by
  unfold Explains QueueHistory.deliver at *
  rw [List.append_assoc,List.singleton_append,hc]

end QueueHistory
end ServerlessSched
