import Mathlib.Algebra.BigOperators.Group.Finset.Piecewise

/-! # Dictionaries that accumulate

A dictionary with a default value grows key by key: the value of a key that is there is changed
in place, a new key is appended with the default changed. Sums over the entries follow the
growth, and the sums over the fibres of a map add up to the sum over everything.
-/
namespace ServerlessSched
variable {A K V M : Type*} [DecidableEq K] [AddCommMonoid M]

def accumulate (default : V) (f : V → V) (k : K) : List (K × V) → List (K × V)
  | [] => [(k,f default)]
  | (k',v) :: rest => if k' = k then (k',f v) :: rest else (k',v) :: accumulate default f k rest

section Accumulate
variable {default : V} {f : V → V} {k : K} {P : V → Prop} {dict : List (K × V)}

theorem forall_accumulate (hdefault : P default) (hf : ∀ v, P v → P (f v)) (hdict : ∀ e ∈ dict, P e.2) :
    ∀ e ∈ accumulate default f k dict, P e.2 := by
  induction dict with
  | nil =>
    intro e he
    rw [List.mem_singleton.mp he]
    exact hf default hdefault
  | cons entry rest ih =>
    obtain ⟨hentry,hrest⟩ := List.forall_mem_cons.mp hdict
    rw [accumulate]
    split
    case isTrue => exact List.forall_mem_cons.mpr ⟨hf _ hentry,hrest⟩
    case isFalse => exact List.forall_mem_cons.mpr ⟨hentry,ih hrest⟩

/-- If the change adds `c` to the weight of any value with `P`, it adds `c` to the sum. -/
theorem sum_accumulate {w : K → V → M} {c : M} (hzero : w k default = 0) (hdefault : P default)
    (hf : ∀ v, P v → w k (f v) = w k v + c) (hdict : ∀ e ∈ dict, P e.2) :
    ((accumulate default f k dict).map (fun e => w e.1 e.2)).sum = (dict.map (fun e => w e.1 e.2)).sum + c := by
  induction dict with
  | nil => simp [accumulate,hf default hdefault,hzero]
  | cons entry rest ih =>
    obtain ⟨hentry,hrest⟩ := List.forall_mem_cons.mp hdict
    rw [accumulate]
    split
    case isTrue hk =>
      subst hk
      rw [List.map_cons,List.map_cons,List.sum_cons,List.sum_cons,hf _ hentry,add_right_comm]
    case isFalse =>
      rw [List.map_cons,List.map_cons,List.sum_cons,List.sum_cons,ih hrest,add_assoc]

end Accumulate

/-! ## Fibres -/

theorem sum_filter_eq_sum_ite (p : A → Prop) [DecidablePred p] (x : A → M) (l : List A) :
    ((l.filter (fun a => p a)).map x).sum = (l.map (fun a => if p a then x a else 0)).sum := by
  induction l with
  | nil => rfl
  | cons a l ih =>
    by_cases ha : p a
    · simp [ha,ih]
    · simp [ha,ih]

theorem sum_indicator {keys : List K} (hnodup : keys.Nodup) {k : K} (hk : k ∈ keys) (c : M) :
    (keys.map (fun k' => if k = k' then c else 0)).sum = c := by
  rw [← List.sum_toFinset _ hnodup,Finset.sum_ite_eq,if_pos (List.mem_toFinset.mpr hk)]

/-- Everything lies in exactly one fibre. -/
theorem sum_fibres {keys : List K} (hnodup : keys.Nodup) (g : A → K) (x : A → M) {l : List A}
    (hcovered : ∀ a ∈ l, g a ∈ keys) :
    (keys.map (fun k => ((l.filter (fun a => g a = k)).map x).sum)).sum = (l.map x).sum := by
  induction l with
  | nil => simp
  | cons a l ih =>
    obtain ⟨ha,hl⟩ := List.forall_mem_cons.mp hcovered
    have hsplit : ∀ k, (((a :: l).filter (fun a => g a = k)).map x).sum =
        (if g a = k then x a else 0) + ((l.filter (fun a => g a = k)).map x).sum := by
      intro k
      by_cases hk : g a = k
      · simp [hk]
      · simp [hk]
    rw [funext hsplit,List.sum_map_add,sum_indicator hnodup ha,ih hl,List.map_cons,List.sum_cons]

/-! ## Selections -/

/-- Only one element of the list contributes. -/
theorem flatMap_eq_of_unique {f : K → List A} {keys : List K} (hnodup : keys.Nodup) {k : K} (hk : k ∈ keys)
    (hnone : ∀ k' ∈ keys, k' ≠ k → f k' = []) : keys.flatMap f = f k := by
  induction keys with
  | nil => cases hk
  | cons k' keys ih =>
    obtain ⟨hnew,hrest⟩ := List.nodup_cons.mp hnodup
    rw [List.flatMap_cons]
    by_cases hkk : k' = k
    · subst hkk
      have hothers : keys.flatMap f = [] := List.flatMap_eq_nil_iff.mpr fun l hl =>
        hnone l (List.mem_cons_of_mem _ hl) (fun heq => hnew (heq ▸ hl))
      rw [hothers,List.append_nil]
    · rw [hnone k' List.mem_cons_self hkk,List.nil_append]
      exact ih hrest (List.mem_of_ne_of_mem (Ne.symm hkk) hk) fun l hl => hnone l (List.mem_cons_of_mem _ hl)

/-- A list in the order of `key` has what lies below a bound before everything else. -/
theorem eq_filter_append_filter {B : Type*} [LinearOrder B] {key : A → B} {l : List A}
    (hl : l.Pairwise (fun a b => key a ≤ key b)) (bound : B) :
    l = l.filter (fun a => key a < bound) ++ l.filter (fun a => bound ≤ key a) := by
  induction l with
  | nil => rfl
  | cons a l ih =>
    obtain ⟨ha,hl⟩ := List.pairwise_cons.mp hl
    by_cases hlt : key a < bound
    · rw [List.filter_cons_of_pos (by simpa using hlt),List.filter_cons_of_neg (by simpa using hlt),
        List.cons_append,← ih hl]
    · have habove : ∀ b ∈ a :: l, bound ≤ key b := by
        rw [List.forall_mem_cons]
        exact ⟨not_lt.mp hlt,fun b hb => (not_lt.mp hlt).trans (ha b hb)⟩
      have hnone : (a :: l).filter (fun a => key a < bound) = [] := List.filter_eq_nil_iff.mpr fun b hb => by
        simpa using habove b hb
      have hall : (a :: l).filter (fun a => bound ≤ key a) = a :: l := List.filter_eq_self.mpr fun b hb => by
        simpa using habove b hb
      rw [hnone,hall,List.nil_append]

end ServerlessSched
