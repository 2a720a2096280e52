import Mathlib.Data.List.Basic
import Mathlib.Logic.Function.Basic

/-! # Singly linked tail queues

The `STAILQ` of `sys/queue.h`. The links are in the elements, and the head points to the
first element and to the link that an insertion at the tail overwrites. Nothing keeps an
element from being linked twice; `Spells` says which list the links stand for, if any.
-/
namespace ServerlessSched

/-- `last` is the element whose link comes last, `none` when that is the link of the head. -/
structure TailQueue (α : Type*) where
  first : Option α
  last : Option α
  next : α → Option α

namespace TailQueue
variable {α : Type*}

/-- The elements met from a link on until a link is empty. -/
def Path (next : α → Option α) : Option α → List α → Prop
  | p, [] => p = none
  | p, a :: l => p = some a ∧ Path next (next a) l

structure Spells (q : TailQueue α) (l : List α) : Prop where
  path : Path q.next q.first l
  last : q.last = l.getLast?

/-- `STAILQ_INIT`. -/
def init (next : α → Option α) : TailQueue α := ⟨none,none,next⟩

/-- `STAILQ_REMOVE_HEAD`, which is `STAILQ_REMOVE` of the first element. -/
def removeHead (q : TailQueue α) : TailQueue α :=
  match q.first with
  | none => q
  | some a => ⟨q.next a,if (q.next a).isNone then none else q.last,q.next⟩

section Links
variable {next next' : α → Option α} {p : Option α} {l l' : List α}

theorem Path.unique (h : Path next p l) (h' : Path next p l') : l = l' := by
  induction l generalizing p l' with
  | nil =>
    cases l' with
    | nil => rfl
    | cons a l' =>
      obtain ⟨hp,-⟩ := h'
      cases h.symm.trans hp
  | cons a l ih =>
    obtain ⟨hp,hl⟩ := h
    cases l' with
    | nil => cases hp.symm.trans h'
    | cons b l' =>
      obtain ⟨hp',hl'⟩ := h'
      cases hp.symm.trans hp'
      exact congrArg (a :: ·) (ih hl hl')

theorem Path.suffix {a : α} {before after : List α} (h : Path next p (before ++ a :: after)) :
    Path next (next a) after := by
  induction before generalizing p with
  | nil => exact h.2
  | cons b before ih => exact ih h.2

/-- Links that end somewhere do not meet an element twice. -/
theorem Path.nodup (h : Path next p l) : l.Nodup := by
  induction l generalizing p with
  | nil => exact List.nodup_nil
  | cons a l ih =>
    obtain ⟨-,hl⟩ := h
    refine List.nodup_cons.mpr ⟨fun ha => ?_,ih hl⟩
    obtain ⟨before,after,rfl⟩ := List.append_of_mem ha
    have hlen := congrArg List.length (hl.unique hl.suffix)
    simp only [List.length_append,List.length_cons] at hlen
    omega

theorem Path.congr (hsame : ∀ a ∈ l, next' a = next a) (h : Path next p l) : Path next' p l := by
  induction l generalizing p with
  | nil => exact h
  | cons a l ih =>
    obtain ⟨hp,hl⟩ := h
    refine ⟨hp,?_⟩
    rw [hsame a List.mem_cons_self]
    exact ih (fun b hb => hsame b (List.mem_cons_of_mem a hb)) hl

theorem Path.first_eq (h : Path next p l) : p = l.head? := by
  cases l with
  | nil => exact h
  | cons a l => exact h.1

variable [DecidableEq α]

/-- The last link is set to an element outside, whose own link has been emptied. -/
theorem Path.extend {a z : α} (h : Path next p l) (hz : l.getLast? = some z) (ha : a ∉ l) :
    Path (Function.update (Function.update next a none) z (some a)) p (l ++ [a]) := by
  induction l generalizing p with
  | nil => cases hz
  | cons b l ih =>
    have hnodup := h.nodup
    obtain ⟨hp,hl⟩ := h
    rw [List.mem_cons,not_or] at ha
    refine ⟨hp,?_⟩
    cases l with
    | nil =>
      simp only [List.getLast?_singleton,Option.some.injEq] at hz
      subst hz
      simp [Path,ha.1]
    | cons c l =>
      rw [List.getLast?_cons_cons] at hz
      have hbz : b ≠ z := by
        rintro rfl
        exact (List.nodup_cons.mp hnodup).1 (List.mem_of_getLast? hz)
      rw [Function.update_of_ne hbz,Function.update_of_ne (Ne.symm ha.1)]
      exact ih hl hz ha.2

end Links

/-! ## Insertion -/

section Insertion
variable [DecidableEq α]

/-- `STAILQ_INSERT_HEAD`. -/
def insertHead (q : TailQueue α) (a : α) : TailQueue α :=
  ⟨some a,if q.first.isNone then some a else q.last,Function.update q.next a q.first⟩

/-- `STAILQ_INSERT_TAIL`. -/
def insertTail (q : TailQueue α) (a : α) : TailQueue α :=
  match q.last with
  | none => ⟨some a,some a,Function.update q.next a none⟩
  | some z => ⟨q.first,some a,Function.update (Function.update q.next a none) z (some a)⟩

end Insertion

/-! ## What the operations do to the list -/

variable {q : TailQueue α} {l : List α} {a : α}

theorem spells_init (next : α → Option α) : (init next).Spells [] := ⟨rfl,rfl⟩

/-- `STAILQ_FIRST`. -/
theorem Spells.first_eq (h : q.Spells l) : q.first = l.head? := h.path.first_eq

theorem Spells.removeHead (h : q.Spells (a :: l)) : q.removeHead.Spells l := by
  obtain ⟨⟨hfirst,hl⟩,hlast⟩ := h
  unfold TailQueue.removeHead
  rw [hfirst]
  refine ⟨hl,?_⟩
  dsimp only
  rw [hl.first_eq]
  cases l with
  | nil => rfl
  | cons b l =>
    rw [List.getLast?_cons_cons] at hlast
    exact hlast

variable [DecidableEq α]

theorem Spells.insertHead (h : q.Spells l) (ha : a ∉ l) : (q.insertHead a).Spells (a :: l) := by
  unfold TailQueue.insertHead
  constructor
  · refine ⟨rfl,?_⟩
    dsimp only
    rw [Function.update_self]
    exact h.path.congr fun b hb => Function.update_of_ne (ne_of_mem_of_not_mem hb ha) _ _
  · dsimp only
    rw [h.first_eq,h.last]
    cases l with
    | nil => rfl
    | cons b l => exact List.getLast?_cons_cons.symm

theorem Spells.insertTail (h : q.Spells l) (ha : a ∉ l) : (q.insertTail a).Spells (l ++ [a]) := by
  have hlast := h.last
  unfold TailQueue.insertTail
  cases hl : q.last with
  | none =>
    rw [hl] at hlast
    rw [List.getLast?_eq_none_iff.mp hlast.symm]
    exact ⟨⟨rfl,Function.update_self ..⟩,rfl⟩
  | some z =>
    rw [hl] at hlast
    exact ⟨h.path.extend hlast.symm ha,by simp⟩

end TailQueue
end ServerlessSched
