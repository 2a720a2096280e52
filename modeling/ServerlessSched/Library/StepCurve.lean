import ServerlessSched.Library.Accumulation
import ServerlessSched.Library.Differences
import Mathlib.Data.List.Sort

/-! # Grouped sums and cumulative curves

Elements are grouped by a key, and the sums of the groups are added up in the order of the keys.
The curve that results has, at any place, the sum over all elements up to there.
-/
namespace ServerlessSched

section Groups
variable {A K M : Type*} [LinearOrder K] [AddCommMonoid M] {key : A → K} {w : A → M} {l : List A}

/-- The keys that occur, in order, each with the sum over its elements. -/
def groupSums (key : A → K) (w : A → M) (l : List A) : List (K × M) :=
  ((l.map key).dedup.insertionSort (fun a b => a ≤ b)).map
    (fun k => (k,((l.filter (fun a => key a = k)).map w).sum))

theorem groupSums_sorted : (groupSums key w l).Pairwise (fun p q => p.1 < q.1) := by
  have hsorted : ((l.map key).dedup.insertionSort (fun a b => a ≤ b)).Pairwise (fun a b => a ≤ b) :=
    List.pairwise_insertionSort _ _
  have hnodup : ((l.map key).dedup.insertionSort (fun a b => a ≤ b)).Pairwise (fun a b => a ≠ b) :=
    (List.perm_insertionSort _ _).nodup_iff.mpr (List.nodup_dedup _)
  rw [groupSums,List.pairwise_map]
  exact (hsorted.and hnodup).imp (fun {a b} h => lt_of_le_of_ne h.1 h.2)

theorem mem_keys_of_mem_groupSums {e : K × M} (he : e ∈ groupSums key w l) : e.1 ∈ l.map key := by
  obtain ⟨k,hk,rfl⟩ := List.mem_map.mp he
  exact List.mem_dedup.mp ((List.perm_insertionSort _ _).mem_iff.mp hk)

/-- A selection of keys has the sum of the elements it selects. -/
theorem sum_groupSums (key : A → K) (w : A → M) (l : List A) (p : K → Prop) [DecidablePred p] :
    (((groupSums key w l).filter (fun e => p e.1)).map Prod.snd).sum =
      ((l.filter (fun a => p (key a))).map w).sum := by
  have hkeys : (((l.map key).dedup.insertionSort (fun a b => a ≤ b)).filter (fun k => p k)).Nodup :=
    ((List.perm_insertionSort _ _).nodup_iff.mpr (List.nodup_dedup _)).filter _
  rw [← sum_fibres hkeys key w]
  · rw [groupSums,List.filter_map,List.map_map]
    apply congrArg List.sum
    apply List.map_congr_left
    intro k hk
    have hp : p k := by simpa using (List.mem_filter.mp hk).2
    have hfibre : (l.filter (fun a => p (key a))).filter (fun a => key a = k) = l.filter (fun a => key a = k) := by
      rw [List.filter_filter]
      apply List.filter_congr
      intro a _
      by_cases ha : key a = k
      · simp [ha,hp]
      · simp [ha]
    rw [hfibre]
    rfl
  · intro a ha
    obtain ⟨hmem,hp⟩ := List.mem_filter.mp ha
    refine List.mem_filter.mpr ⟨?_,hp⟩
    exact (List.perm_insertionSort _ _).mem_iff.mpr (List.mem_dedup.mpr (List.mem_map_of_mem hmem))

theorem sum_groupSums_all (key : A → K) (w : A → M) (l : List A) :
    ((groupSums key w l).map Prod.snd).sum = (l.map w).sum := by
  have h := sum_groupSums key w l (fun _ => True)
  simpa using h

end Groups

section Curves
variable {K A : Type*} [LinearOrder K]

/-- The height of the last point that is not beyond `x`, and `s` before the first point. -/
def stepValue (s : A) (x : K) (curve : List (K × A)) : A :=
  ((curve.filter (fun p => p.1 ≤ x)).getLast?.map Prod.snd).getD s

theorem stepValue_cons_of_le {s a : A} {x k : K} {curve : List (K × A)} (h : k ≤ x) :
    stepValue s x ((k,a) :: curve) = stepValue a x curve := by
  rw [stepValue,List.filter_cons_of_pos (by simpa using h),List.getLast?_cons,stepValue]
  cases (curve.filter (fun p => p.1 ≤ x)).getLast? <;> rfl

theorem stepValue_of_lt {s : A} {x : K} {curve : List (K × A)} (h : ∀ p ∈ curve, x < p.1) :
    stepValue s x curve = s := by
  have hnone : curve.filter (fun p => p.1 ≤ x) = [] := List.filter_eq_nil_iff.mpr fun p hp => by
    simpa using h p hp
  rw [stepValue,hnone]
  rfl

/-- Cumulative sums have, at any place, the sum of all that is not beyond it. -/
theorem stepValue_runningSums [AddCommGroup A] {points : List (K × A)} (hsorted : points.Pairwise (fun p q => p.1 ≤ q.1))
    (s : A) (x : K) :
    stepValue s x ((points.map Prod.fst).zip (runningSums s (points.map Prod.snd))) =
      s + ((points.filter (fun p => p.1 ≤ x)).map Prod.snd).sum := by
  induction points generalizing s with
  | nil => exact (add_zero s).symm
  | cons p points ih =>
    obtain ⟨hp,hsorted⟩ := List.pairwise_cons.mp hsorted
    rw [List.map_cons,List.map_cons,runningSums,List.zip_cons_cons]
    by_cases hle : p.1 ≤ x
    · rw [stepValue_cons_of_le hle,ih hsorted,List.filter_cons_of_pos (by simpa using hle),List.map_cons,
        List.sum_cons,add_assoc]
    · have hbeyond : ∀ q ∈ p :: points, x < q.1 :=
        List.forall_mem_cons.mpr ⟨not_le.mp hle,fun q hq => (not_le.mp hle).trans_le (hp q hq)⟩
      have hnone : (p :: points).filter (fun q => q.1 ≤ x) = [] := List.filter_eq_nil_iff.mpr fun q hq => by
        simpa using hbeyond q hq
      rw [hnone,List.map_nil,List.sum_nil,add_zero]
      apply stepValue_of_lt
      refine List.forall_mem_cons.mpr ⟨not_le.mp hle,fun q hq => ?_⟩
      obtain ⟨r,hr,heq⟩ := List.mem_map.mp (List.of_mem_zip hq).1
      rw [← heq]
      exact hbeyond r (List.mem_cons_of_mem p hr)

end Curves

end ServerlessSched
