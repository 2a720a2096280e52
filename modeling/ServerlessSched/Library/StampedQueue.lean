import Mathlib.Data.List.Sort
import Mathlib.Order.Basic

/-! # Priority queues with arrival stamps

Entries carry the number of their insertion. The key of an entry is read when the
queue is walked, so the order is the one of the current keys, and equal keys are
served in arrival order.
-/
namespace ServerlessSched

/-- Entries in arrival order; `seq` is the stamp of the last insertion ever made. -/
structure StampedQueue (α : Type*) where
  entries : List (ℕ × α)
  seq : ℕ
  stamp_le : ∀ e ∈ entries, e.1 ≤ seq
  stamps : entries.Pairwise (fun d e => d.1 < e.1)

namespace StampedQueue
variable {α K : Type*}

def empty : StampedQueue α := ⟨[],0,by simp,List.Pairwise.nil⟩

@[simp] theorem empty_entries : (empty : StampedQueue α).entries = [] := rfl

def waiting (q : StampedQueue α) : List α := q.entries.map Prod.snd

@[simp] theorem waiting_empty : (empty : StampedQueue α).waiting = [] := rfl

theorem mem_waiting {q : StampedQueue α} {a : α} : a ∈ q.waiting ↔ ∃ n, (n,a) ∈ q.entries := by
  simp [waiting]

section Operations
variable [DecidableEq α]

def erase (q : StampedQueue α) (a : α) : StampedQueue α where
  entries := q.entries.filter (fun e => e.2 ≠ a)
  seq := q.seq
  stamp_le := fun e he => q.stamp_le e (List.mem_filter.mp he).1
  stamps := q.stamps.filter _

/-- An element waits at most once: inserting it again moves it to the newest place. -/
def insert (q : StampedQueue α) (a : α) : StampedQueue α where
  entries := (q.erase a).entries ++ [(q.seq + 1,a)]
  seq := q.seq + 1
  stamp_le := by
    intro e he
    rcases List.mem_append.mp he with he | he
    · exact ((q.erase a).stamp_le e he).trans (Nat.le_succ _)
    · rw [List.mem_singleton.mp he]
  stamps := by
    refine List.pairwise_append.mpr ⟨(q.erase a).stamps,List.pairwise_singleton _ _,?_⟩
    intro d hd e he
    rw [List.mem_singleton.mp he]
    exact Nat.lt_succ_of_le ((q.erase a).stamp_le d hd)

@[simp] theorem erase_seq (q : StampedQueue α) (a : α) : (q.erase a).seq = q.seq := rfl
@[simp] theorem insert_seq (q : StampedQueue α) (a : α) : (q.insert a).seq = q.seq + 1 := rfl

theorem mem_erase {q : StampedQueue α} {a : α} {e : ℕ × α} :
    e ∈ (q.erase a).entries ↔ e ∈ q.entries ∧ e.2 ≠ a := by
  simp [erase]

theorem mem_insert {q : StampedQueue α} {a : α} {e : ℕ × α} :
    e ∈ (q.insert a).entries ↔ (e ∈ q.entries ∧ e.2 ≠ a) ∨ e = (q.seq + 1,a) := by
  simp [insert,mem_erase]

end Operations

section Order
variable [LinearOrder K] (key : α → K)

/-- The entry served first: smaller key, or equal keys and the older stamp. -/
def Ahead (d e : ℕ × α) : Prop := key d.2 < key e.2 ∨ key d.2 = key e.2 ∧ d.1 < e.1

instance (d e : ℕ × α) : Decidable (Ahead key d e) := instDecidableOr

/-- The order in which a walk over the queue meets the entries. -/
def order (q : StampedQueue α) : List (ℕ × α) :=
  q.entries.insertionSort (fun d e => key d.2 ≤ key e.2)

theorem mem_order {q : StampedQueue α} {e : ℕ × α} : e ∈ q.order key ↔ e ∈ q.entries :=
  List.mem_insertionSort _

private theorem pairwise_orderedInsert {l : List (ℕ × α)} {a : ℕ × α}
    (hl : l.Pairwise (Ahead key)) (ha : ∀ e ∈ l, a.1 < e.1) :
    (l.orderedInsert (fun d e => key d.2 ≤ key e.2) a).Pairwise (Ahead key) := by
  induction l with
  | nil => simp
  | cons b l ih =>
    obtain ⟨hb,hl⟩ := List.pairwise_cons.mp hl
    have hab : a.1 < b.1 := ha b List.mem_cons_self
    have hal : ∀ e ∈ l, a.1 < e.1 := fun e he => ha e (List.mem_cons_of_mem b he)
    by_cases hk : key a.2 ≤ key b.2
    · rw [List.orderedInsert_cons,if_pos hk]
      refine List.pairwise_cons.mpr ⟨?_,List.pairwise_cons.mpr ⟨hb,hl⟩⟩
      have hfirst : Ahead key a b := hk.lt_or_eq.imp_right (fun h => ⟨h,hab⟩)
      intro e he
      rcases List.mem_cons.mp he with rfl | he
      · exact hfirst
      · exact (hk.trans ((hb e he).elim le_of_lt (fun h => h.1.le))).lt_or_eq.imp_right
          (fun h => ⟨h,hal e he⟩)
    · rw [List.orderedInsert_cons,if_neg hk]
      refine List.pairwise_cons.mpr ⟨?_,ih hl hal⟩
      intro e he
      rcases (List.mem_orderedInsert _).mp he with rfl | he
      · exact Or.inl (not_le.mp hk)
      · exact hb e he

theorem order_pairwise (q : StampedQueue α) : (q.order key).Pairwise (Ahead key) := by
  have h : ∀ l : List (ℕ × α), l.Pairwise (fun d e => d.1 < e.1) →
      (l.insertionSort (fun d e => key d.2 ≤ key e.2)).Pairwise (Ahead key) := by
    intro l hl
    induction l with
    | nil => simp
    | cons a l ih =>
      obtain ⟨ha,hl⟩ := List.pairwise_cons.mp hl
      exact pairwise_orderedInsert key (ih hl) (fun e he => ha e ((List.mem_insertionSort _).mp he))
  exact h q.entries q.stamps

variable {key}

theorem Ahead.le {d e : ℕ × α} (h : Ahead key d e) : key d.2 ≤ key e.2 := h.elim le_of_lt (fun h => h.1.le)

theorem Ahead.asymm {d e : ℕ × α} (h : Ahead key d e) : ¬Ahead key e d := by
  rintro (h' | ⟨heq,h'⟩)
  · exact not_lt_of_ge h.le h'
  · rcases h with h | ⟨-,h⟩
    · exact h.ne' heq
    · omega

/-- The walk is the only arrangement of the entries in which each is ahead of the later ones. -/
theorem eq_order {q : StampedQueue α} {l : List (ℕ × α)} (hperm : l.Perm q.entries)
    (hl : l.Pairwise (Ahead key)) : l = q.order key := by
  have hantisymm : ∀ d e, Ahead key d e → Ahead key e d → d = e := fun _ _ hde hed => absurd hed hde.asymm
  apply (hperm.trans (List.perm_insertionSort _ _).symm).eq_of_pairwise (fun d e _ _ => hantisymm d e) hl
  exact order_pairwise key q

theorem order_congr {key' : α → K} {q : StampedQueue α} (h : ∀ e ∈ q.entries, key' e.2 = key e.2) :
    q.order key' = q.order key := by
  apply eq_order (List.perm_insertionSort _ _)
  refine (order_pairwise key' q).imp_of_mem (fun hd he hahead => ?_)
  rw [Ahead,← h _ ((mem_order key').mp hd),← h _ ((mem_order key').mp he)]
  exact hahead

/-- Taking an element out leaves the others in their order. -/
theorem order_erase [DecidableEq α] (q : StampedQueue α) (a : α) :
    (q.erase a).order key = (q.order key).filter (fun e => e.2 ≠ a) := by
  symm
  apply eq_order
  · exact (List.perm_insertionSort _ _).filter _
  · exact (order_pairwise key q).filter _

end Order

end StampedQueue
end ServerlessSched
