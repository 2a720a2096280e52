import Mathlib.Algebra.BigOperators.Group.List.Basic
import Mathlib.Algebra.Order.Group.Defs
import Mathlib.Algebra.Order.Group.Unbundled.Basic

/-! # Consecutive differences and running sums

The two are inverse up to the first element; a constant in every difference grows into
a multiple of itself at every place.
-/
namespace ServerlessSched
variable {A : Type*} [AddCommGroup A]

def diffs : List A → List A
  | a :: b :: l => (b - a) :: diffs (b :: l)
  | _ => []

/-- The sums that start after `s`. -/
def runningSums (s : A) : List A → List A
  | [] => []
  | a :: l => (s + a) :: runningSums (s + a) l

theorem length_diffs_cons (a : A) (l : List A) : (diffs (a :: l)).length = l.length := by
  induction l generalizing a with
  | nil => rfl
  | cons b l ih => exact congrArg Nat.succ (ih b)

@[simp] theorem length_runningSums (s : A) (l : List A) : (runningSums s l).length = l.length := by
  induction l generalizing s with
  | nil => rfl
  | cons a l ih => exact congrArg Nat.succ (ih (s + a))

theorem diffs_nonneg [LE A] [AddRightMono A] {l : List A} (hl : l.Pairwise (fun a b => a ≤ b)) :
    ∀ d ∈ diffs l, 0 ≤ d := by
  induction l with
  | nil =>
    intro d hd
    cases hd
  | cons a l ih =>
    obtain ⟨ha,hl⟩ := List.pairwise_cons.mp hl
    cases l with
    | nil =>
      intro d hd
      cases hd
    | cons b l => exact List.forall_mem_cons.mpr ⟨sub_nonneg.mpr (ha b List.mem_cons_self),ih hl⟩

theorem runningSums_diffs (a : A) (l : List A) : runningSums a (diffs (a :: l)) = l := by
  induction l generalizing a with
  | nil => rfl
  | cons b l ih => rw [diffs,runningSums,add_sub_cancel,ih]

theorem runningSums_add (s c : A) (l : List A) : runningSums (s + c) l = (runningSums s l).map (fun x => x + c) := by
  induction l generalizing s with
  | nil => rfl
  | cons a l ih =>
    rw [runningSums,runningSums,List.map_cons,add_right_comm,ih]

theorem runningSums_map_add (s c : A) (l : List A) :
    runningSums s (l.map (fun x => c + x)) = (runningSums s l).mapIdx (fun k x => x + (k + 1) • c) := by
  induction l generalizing s with
  | nil => rfl
  | cons a l ih =>
    have hshift : s + (c + a) = s + a + c := by rw [add_comm c a,add_assoc]
    rw [List.map_cons,runningSums,runningSums,List.mapIdx_cons,hshift,runningSums_add,ih]
    apply congrArg₂ List.cons
    · exact congrArg (fun x => s + a + x) (one_nsmul c).symm
    · apply List.ext_getElem
      · simp
      · intro k _ _
        simp [succ_nsmul,add_assoc]

end ServerlessSched
