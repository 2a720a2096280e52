import Mathlib.Data.List.Basic
import Mathlib.Tactic.Common

/-! # Three queues in a row

Items arrive in the first queue, are moved one by one into the second and the third, and the
third is emptied at once. An item counts from the place where it stands first; how far it is
from the end is a measure that one of the three moves brings down in every state.
-/
namespace ServerlessSched
variable {α : Type*}

structure Pipeline (α : Type*) where
  enqueued : List α
  listed : List α
  dispatched : List α

inductive Stage
  | drain
  | handOver
  | consume
deriving DecidableEq

namespace Pipeline

def Holds (q : Pipeline α) (n : α) : Prop := n ∈ q.enqueued ∨ n ∈ q.listed ∨ n ∈ q.dispatched

/-- The move that helps everything under way: the last one that has something to do. -/
def helpful (q : Pipeline α) : Stage :=
  if q.dispatched ≠ [] then .consume else if q.listed ≠ [] then .handOver else .drain

/-- What can happen to the queues, and at which of the three stages. An item is dropped if it
is listed already, and nothing is handed over while there may be no room. -/
inductive Move (q : Pipeline α) : Option Stage → Pipeline α → Prop
  | idle : Move q none q
  | arrive (a : α) : Move q none { q with enqueued := q.enqueued ++ [a] }
  | dry (h : q.enqueued = []) : Move q (some .drain) q
  | drop {a : α} {rest : List α} (h : q.enqueued = a :: rest) (hlisted : a ∈ q.listed) :
    Move q (some .drain) { q with enqueued := rest }
  | accept {a : α} {rest : List α} (h : q.enqueued = a :: rest) :
    Move q (some .drain) { q with enqueued := rest, listed := q.listed ++ [a] }
  | stuck (h : q.listed = [] ∨ q.dispatched ≠ []) : Move q (some .handOver) q
  | handOver {a : α} {rest : List α} (h : q.listed = a :: rest) :
    Move q (some .handOver) { q with listed := rest, dispatched := q.dispatched ++ [a] }
  | consume : Move q (some .consume) { q with dispatched := [] }

variable [DecidableEq α]

/-- Three for each item up to this one in the first queue, two in the second, one in the third. -/
def distance (q : Pipeline α) (n : α) : ℕ :=
  if n ∈ q.dispatched then 1
  else if n ∈ q.listed then q.dispatched.length + 2 * (q.listed.idxOf n + 1)
  else q.dispatched.length + 2 * q.listed.length + 3 * (q.enqueued.idxOf n + 1)

variable {q r : Pipeline α} {n : α} {k : Option Stage}

section
variable {e l d : List α}

theorem distance_of_dispatched (h : n ∈ d) : (⟨e,l,d⟩ : Pipeline α).distance n = 1 := if_pos h

theorem distance_of_listed (hd : n ∉ d) (h : n ∈ l) :
    (⟨e,l,d⟩ : Pipeline α).distance n = d.length + 2 * (l.idxOf n + 1) := by
  simp only [distance,hd,h,if_true,if_false]

theorem distance_of_enqueued (hd : n ∉ d) (hl : n ∉ l) :
    (⟨e,l,d⟩ : Pipeline α).distance n = d.length + 2 * l.length + 3 * (e.idxOf n + 1) := by
  simp only [distance,hd,hl,if_false]

end

theorem distance_pos (q : Pipeline α) (n : α) : 0 < q.distance n := by
  unfold distance
  split
  · exact Nat.one_pos
  · split <;> omega

omit [DecidableEq α] in
theorem helpful_of_dispatched (h : q.dispatched ≠ []) : q.helpful = .consume := if_pos h

omit [DecidableEq α] in
theorem helpful_of_listed (hd : q.dispatched = []) (h : q.listed ≠ []) : q.helpful = .handOver := by
  rw [helpful,if_neg (not_not.mpr hd),if_pos h]

omit [DecidableEq α] in
theorem helpful_congr (hd : r.dispatched = [] ↔ q.dispatched = []) (hl : r.listed = [] ↔ q.listed = []) :
    r.helpful = q.helpful := by
  simp only [helpful,ne_eq,hd,hl]

/-- What a move does for an item short of the end. -/
def Nearer (n : α) (q : Pipeline α) (k : Option Stage) (r : Pipeline α) : Prop :=
  r.Holds n ∧ (r.distance n < q.distance n ∨
    r.distance n = q.distance n ∧ r.helpful = q.helpful ∧ k ≠ some q.helpful)

theorem nearer_arrive (h : q.Holds n) (a : α) : Nearer n q none { q with enqueued := q.enqueued ++ [a] } := by
  refine ⟨?_,Or.inr ⟨?_,rfl,fun hk => by cases hk⟩⟩
  · rcases h with h | h | h
    · exact Or.inl (List.mem_append_left _ h)
    · exact Or.inr (Or.inl h)
    · exact Or.inr (Or.inr h)
  · unfold distance
    by_cases hd : n ∈ q.dispatched
    · simp only [hd,if_true]
    · by_cases hl : n ∈ q.listed
      · simp only [hd,hl,if_true,if_false]
      · have he : n ∈ q.enqueued := h.resolve_right (not_or.mpr ⟨hl,hd⟩)
        simp only [hd,hl,if_false,List.idxOf_append_of_mem he]

theorem nearer_drop {a : α} {rest : List α} (h : q.Holds n) (hq : q.enqueued = a :: rest) (hlisted : a ∈ q.listed) :
    Nearer n q (some .drain) { q with enqueued := rest } := by
  have hne : q.listed ≠ [] := List.ne_nil_of_mem hlisted
  have hhelpful : some Stage.drain ≠ some q.helpful := by
    by_cases hd : q.dispatched = []
    · rw [helpful_of_listed hd hne]
      decide
    · rw [helpful_of_dispatched hd]
      decide
  by_cases hd : n ∈ q.dispatched
  · refine ⟨Or.inr (Or.inr hd),Or.inr ⟨?_,rfl,hhelpful⟩⟩
    exact (distance_of_dispatched hd).trans (distance_of_dispatched hd).symm
  by_cases hl : n ∈ q.listed
  · refine ⟨Or.inr (Or.inl hl),Or.inr ⟨?_,rfl,hhelpful⟩⟩
    exact (distance_of_listed hd hl).trans (distance_of_listed hd hl).symm
  have he : n ∈ q.enqueued := h.resolve_right (not_or.mpr ⟨hl,hd⟩)
  have hna : a ≠ n := fun hna => hl (hna ▸ hlisted)
  have hrest : n ∈ rest := by
    rw [hq] at he
    exact (List.mem_cons.mp he).resolve_left (Ne.symm hna)
  refine ⟨Or.inl hrest,Or.inl ?_⟩
  rw [distance_of_enqueued hd hl,distance_of_enqueued hd hl,hq,List.idxOf_cons_ne _ hna]
  omega

theorem nearer_accept {a : α} {rest : List α} (h : q.Holds n) (hq : q.enqueued = a :: rest) :
    Nearer n q (some .drain) { q with enqueued := rest, listed := q.listed ++ [a] } := by
  by_cases hd : n ∈ q.dispatched
  · have hne : q.dispatched ≠ [] := List.ne_nil_of_mem hd
    refine ⟨Or.inr (Or.inr hd),Or.inr ⟨?_,?_,?_⟩⟩
    · exact (distance_of_dispatched hd).trans (distance_of_dispatched hd).symm
    · rw [helpful_of_dispatched (q := q) hne]
      exact helpful_of_dispatched hne
    · rw [helpful_of_dispatched hne]
      decide
  by_cases hl : n ∈ q.listed
  · have hne : q.listed ≠ [] := List.ne_nil_of_mem hl
    refine ⟨Or.inr (Or.inl (List.mem_append_left _ hl)),Or.inr ⟨?_,?_,?_⟩⟩
    · rw [distance_of_listed hd hl,distance_of_listed hd (List.mem_append_left _ hl)]
      simp only [List.idxOf_append_of_mem hl]
    · exact helpful_congr Iff.rfl (iff_of_false (by simp) hne)
    · by_cases hnone : q.dispatched = []
      · rw [helpful_of_listed hnone hne]
        decide
      · rw [helpful_of_dispatched hnone]
        decide
  have he : n ∈ q.enqueued := h.resolve_right (not_or.mpr ⟨hl,hd⟩)
  by_cases hna : a = n
  · subst hna
    have hmem : a ∈ q.listed ++ [a] := List.mem_append_right _ List.mem_cons_self
    refine ⟨Or.inr (Or.inl hmem),Or.inl ?_⟩
    rw [distance_of_enqueued hd hl,distance_of_listed hd hmem,hq,List.idxOf_cons_self]
    simp only [List.idxOf_append_of_notMem hl,List.idxOf_cons_self]
    omega
  · have hrest : n ∈ rest := by
      rw [hq] at he
      exact (List.mem_cons.mp he).resolve_left (Ne.symm hna)
    have hnot : n ∉ q.listed ++ [a] := by simp [hl,Ne.symm hna]
    refine ⟨Or.inl hrest,Or.inl ?_⟩
    rw [distance_of_enqueued hd hl,distance_of_enqueued hd hnot,hq,List.idxOf_cons_ne _ hna]
    simp only [List.length_append,List.length_singleton]
    omega

theorem nearer_handOver {a : α} {rest : List α} (h : q.Holds n) (hq : q.listed = a :: rest) :
    Nearer n q (some .handOver) { q with listed := rest, dispatched := q.dispatched ++ [a] } := by
  by_cases hd : n ∈ q.dispatched
  · have hmem : n ∈ q.dispatched ++ [a] := List.mem_append_left _ hd
    refine ⟨Or.inr (Or.inr hmem),Or.inr ⟨?_,?_,?_⟩⟩
    · exact (distance_of_dispatched hmem).trans (distance_of_dispatched hd).symm
    · rw [helpful_of_dispatched (q := q) (List.ne_nil_of_mem hd)]
      exact helpful_of_dispatched (List.ne_nil_of_mem hmem)
    · rw [helpful_of_dispatched (List.ne_nil_of_mem hd)]
      decide
  by_cases hna : a = n
  · subst hna
    have hl : a ∈ q.listed := by rw [hq]; exact List.mem_cons_self
    have hmem : a ∈ q.dispatched ++ [a] := List.mem_append_right _ List.mem_cons_self
    refine ⟨Or.inr (Or.inr hmem),Or.inl ?_⟩
    rw [distance_of_listed hd hl,distance_of_dispatched hmem]
    omega
  have hnot : n ∉ q.dispatched ++ [a] := by simp [hd,Ne.symm hna]
  by_cases hl : n ∈ q.listed
  · have hrest : n ∈ rest := by
      rw [hq] at hl
      exact (List.mem_cons.mp hl).resolve_left (Ne.symm hna)
    refine ⟨Or.inr (Or.inl hrest),Or.inl ?_⟩
    rw [distance_of_listed hd hl,distance_of_listed hnot hrest,hq,List.idxOf_cons_ne _ hna]
    simp only [List.length_append,List.length_singleton]
    omega
  · have he : n ∈ q.enqueued := h.resolve_right (not_or.mpr ⟨hl,hd⟩)
    have hrest : n ∉ rest := fun hrest => hl (by rw [hq]; exact List.mem_cons_of_mem a hrest)
    refine ⟨Or.inl he,Or.inl ?_⟩
    rw [distance_of_enqueued hd hl,distance_of_enqueued hnot hrest,hq]
    simp only [List.length_append,List.length_nil,List.length_cons]
    omega

theorem nearer_consume (h : q.Holds n) (hd : n ∉ q.dispatched) :
    Nearer n q (some .consume) { q with dispatched := [] } := by
  have hnot : n ∉ ({ q with dispatched := [] } : Pipeline α).dispatched := List.not_mem_nil
  refine ⟨?_,?_⟩
  · rcases h with h | h | h
    · exact Or.inl h
    · exact Or.inr (Or.inl h)
    · exact absurd h hd
  by_cases hnone : q.dispatched = []
  · have hsame : ({ q with dispatched := [] } : Pipeline α) = q := by rw [← hnone]
    rw [hsame]
    refine Or.inr ⟨rfl,rfl,?_⟩
    by_cases hl : q.listed = [] <;> simp [helpful,hnone,hl]
  · have hpos : 0 < q.dispatched.length := List.length_pos_of_ne_nil hnone
    left
    by_cases hl : n ∈ q.listed
    · rw [distance_of_listed hd hl,distance_of_listed hnot hl]
      simp only [List.length_nil]
      omega
    · rw [distance_of_enqueued hd hl,distance_of_enqueued hnot hl]
      simp only [List.length_nil]
      omega

/-- Every move that does not end the way of an item leaves it nearer to the end, or it was not
the move that helps. -/
theorem Move.nearer (h : q.Move k r) (hn : q.Holds n) : k = some .consume ∧ n ∈ q.dispatched ∨ Nearer n q k r := by
  have hstill : k ≠ some q.helpful → Nearer n q k q := fun hk => ⟨hn,Or.inr ⟨rfl,rfl,hk⟩⟩
  cases h with
  | idle => exact Or.inr (hstill (fun hk => by cases hk))
  | arrive a => exact Or.inr (nearer_arrive hn a)
  | dry hq =>
    refine Or.inr (hstill ?_)
    have hnot : n ∉ q.enqueued := by rw [hq]; exact List.not_mem_nil
    by_cases hd : q.dispatched = []
    · have hl : n ∈ q.listed :=
        (hn.resolve_left hnot).resolve_right (by rw [hd]; exact List.not_mem_nil)
      rw [helpful_of_listed hd (List.ne_nil_of_mem hl)]
      decide
    · rw [helpful_of_dispatched hd]
      decide
  | drop hq hlisted => exact Or.inr (nearer_drop hn hq hlisted)
  | accept hq => exact Or.inr (nearer_accept hn hq)
  | stuck hq =>
    refine Or.inr (hstill ?_)
    by_cases hd : q.dispatched = []
    · have hl : q.listed = [] := hq.resolve_right (not_not.mpr hd)
      simp [helpful,hd,hl]
    · rw [helpful_of_dispatched hd]
      decide
  | handOver hq => exact Or.inr (nearer_handOver hn hq)
  | consume =>
    by_cases hd : n ∈ q.dispatched
    · exact Or.inl ⟨rfl,hd⟩
    · exact Or.inr (nearer_consume hn hd)

end Pipeline
end ServerlessSched
