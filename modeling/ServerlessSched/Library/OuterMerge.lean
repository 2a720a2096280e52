import Mathlib.Data.List.Dedup
import Mathlib.Data.List.Sort
import Mathlib.Order.Defs.LinearOrder

/-! # Merging tables on a key

The outer merge of two tables: the keys of both in their order, and for each of them every pair
of rows, with no row where a table does not have the key. With distinct keys in each table this
is a lookup in both.
-/
namespace ServerlessSched
variable {κ α β : Type} [LinearOrder κ]

/-- The keys of both tables, each once, in order. -/
def outerKeys (left : List (κ × α)) (right : List (κ × β)) : List κ :=
  ((left.map Prod.fst ++ right.map Prod.fst).dedup).mergeSort (fun a b => decide (a ≤ b))

/-- The rows of a key, or that there is none. -/
def rowsAt (k : κ) (table : List (κ × α)) : List (Option α) :=
  match table.filter (fun row => row.1 = k) with
  | [] => [none]
  | row :: rows => (row :: rows).map (fun row => some row.2)

def outerMerge (left : List (κ × α)) (right : List (κ × β)) : List (κ × Option α × Option β) :=
  (outerKeys left right).flatMap (fun k =>
    (rowsAt k left).flatMap (fun a => (rowsAt k right).map (fun b => (k,a,b))))

variable {left : List (κ × α)} {right : List (κ × β)} {table : List (κ × α)} {k : κ} {a : α}

theorem mem_outerKeys : k ∈ outerKeys left right ↔ k ∈ left.map Prod.fst ∨ k ∈ right.map Prod.fst := by
  rw [outerKeys,List.mem_mergeSort,List.mem_dedup,List.mem_append]

theorem outerKeys_sorted (left : List (κ × α)) (right : List (κ × β)) :
    (outerKeys left right).Pairwise (fun a b => a < b) := by
  have hsort : (outerKeys left right).Pairwise (fun a b => decide (a ≤ b) = true) :=
    List.pairwise_mergeSort (fun a b c hab hbc => decide_eq_true ((of_decide_eq_true hab).trans (of_decide_eq_true hbc)))
      (fun a b => by simpa using le_total a b) _
  have hle : (outerKeys left right).Pairwise (fun a b => a ≤ b) := hsort.imp (fun h => of_decide_eq_true h)
  have hnodup : (outerKeys left right).Nodup :=
    (List.mergeSort_perm _ _).nodup_iff.mpr (List.nodup_dedup _)
  exact (hle.and hnodup).imp (fun h => lt_of_le_of_ne h.1 h.2)

theorem lookup_cons_self (k : κ) (a : α) (table : List (κ × α)) : ((k,a) :: table).lookup k = some a := by
  simp

theorem lookup_cons_of_ne {key : κ} (h : k ≠ key) (a : α) (table : List (κ × α)) :
    ((key,a) :: table).lookup k = table.lookup k := by
  have hbeq : (k == key) = false := by simpa using h
  rw [List.lookup_cons,hbeq]

theorem filter_key_eq_nil (h : k ∉ table.map Prod.fst) : table.filter (fun row => row.1 = k) = [] := by
  apply List.filter_eq_nil_iff.mpr
  intro row hrow hk
  exact h (List.mem_map.mpr ⟨row,hrow,of_decide_eq_true hk⟩)

theorem lookup_eq_none (h : k ∉ table.map Prod.fst) : table.lookup k = none := by
  induction table with
  | nil => rfl
  | cons row table ih =>
    obtain ⟨hk,htable⟩ := not_or.mp (fun hf => h (List.mem_cons.mpr hf))
    rw [lookup_cons_of_ne hk]
    exact ih htable

theorem rowsAt_eq (h : (table.map Prod.fst).Nodup) (k : κ) : rowsAt k table = [table.lookup k] := by
  induction table with
  | nil => rfl
  | cons row table ih =>
    obtain ⟨key,value⟩ := row
    obtain ⟨hkey,hnodup⟩ := List.nodup_cons.mp h
    by_cases hk : k = key
    · subst hk
      rw [rowsAt,List.filter_cons_of_pos (by simp),filter_key_eq_nil hkey,lookup_cons_self]
      rfl
    · rw [lookup_cons_of_ne hk,← ih hnodup,rowsAt,List.filter_cons_of_neg (by simp [Ne.symm hk])]
      rfl

/-- With distinct keys in both tables each key has one row, in the order of the keys. -/
theorem outerMerge_eq (hleft : (left.map Prod.fst).Nodup) (hright : (right.map Prod.fst).Nodup) :
    outerMerge left right = (outerKeys left right).map (fun k => (k,left.lookup k,right.lookup k)) := by
  have hrow : ∀ k, (rowsAt k left).flatMap (fun a => (rowsAt k right).map (fun b => (k,a,b))) =
      [(k,left.lookup k,right.lookup k)] := by
    intro k
    rw [rowsAt_eq hleft,rowsAt_eq hright]
    rfl
  simp only [outerMerge,hrow]
  exact List.map_eq_flatMap.symm

theorem lookup_ne_none_iff : table.lookup k ≠ none ↔ k ∈ table.map Prod.fst := by
  constructor
  · intro h
    by_contra hk
    exact h (lookup_eq_none hk)
  · intro hk h
    obtain ⟨row,hrow,rfl⟩ := List.mem_map.mp hk
    have hne := List.lookup_eq_none_iff.mp h row hrow
    simp at hne

theorem outerMerge_keys (hleft : (left.map Prod.fst).Nodup) (hright : (right.map Prod.fst).Nodup) :
    (outerMerge left right).map Prod.fst = outerKeys left right := by
  rw [outerMerge_eq hleft hright,List.map_map]
  exact List.map_id _

theorem mem_outerMerge (hleft : (left.map Prod.fst).Nodup) (hright : (right.map Prod.fst).Nodup)
    {row : κ × Option α × Option β} : row ∈ outerMerge left right ↔
      ∃ k, row = (k,left.lookup k,right.lookup k) ∧ (left.lookup k ≠ none ∨ right.lookup k ≠ none) := by
  rw [outerMerge_eq hleft hright,List.mem_map]
  constructor
  · rintro ⟨k,hk,rfl⟩
    exact ⟨k,rfl,(mem_outerKeys.mp hk).imp lookup_ne_none_iff.mpr lookup_ne_none_iff.mpr⟩
  · rintro ⟨k,rfl,hsome⟩
    exact ⟨k,mem_outerKeys.mpr (hsome.imp lookup_ne_none_iff.mp lookup_ne_none_iff.mp),rfl⟩

/-- Of a table made from rows with distinct keys, a lookup finds what was made of the row. -/
theorem lookup_filterMap {ρ : Type} {key : ρ → κ} {f : ρ → Option α} {rows : List ρ} (h : (rows.map key).Nodup) (k : κ) :
    (rows.filterMap (fun r => (f r).map (fun a => (key r,a)))).lookup k =
      (rows.find? (fun r => key r = k)).bind f := by
  induction rows with
  | nil => rfl
  | cons r rows ih =>
    obtain ⟨hkey,hnodup⟩ := List.nodup_cons.mp h
    have hrest := ih hnodup
    by_cases hk : key r = k
    · subst hk
      have hnone : rows.find? (fun r' => key r' = key r) = none := by
        apply List.find?_eq_none.mpr
        intro r' hr' heq
        exact hkey (List.mem_map.mpr ⟨r',hr',of_decide_eq_true heq⟩)
      rw [hnone] at hrest
      cases hf : f r with
      | none => simpa [hf] using hrest
      | some a => simp [hf]
    · cases hf : f r with
      | none => simpa [hf,hk] using hrest
      | some a => simpa [hf,hk,lookup_cons_of_ne (Ne.symm hk)] using hrest

omit [LinearOrder κ] in
theorem keys_filterMap_nodup {ρ : Type} {key : ρ → κ} {f : ρ → Option α} {rows : List ρ} (h : (rows.map key).Nodup) :
    ((rows.filterMap (fun r => (f r).map (fun a => (key r,a)))).map Prod.fst).Nodup := by
  have hsublist : ((rows.filterMap (fun r => (f r).map (fun a => (key r,a)))).map Prod.fst).Sublist (rows.map key) := by
    induction rows with
    | nil => exact List.Sublist.slnil
    | cons r rows ih =>
      have hrest := ih (List.nodup_cons.mp h).2
      cases hf : f r with
      | none => simpa [hf] using hrest.cons (key r)
      | some a => simpa [hf] using hrest.cons_cons (key r)
  exact h.sublist hsublist

end ServerlessSched
