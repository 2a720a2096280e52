import ServerlessSched.Kernel.Overtaking
import ServerlessSched.KernelAssigned.Bpf

/-! # The kernel-assigned scheduler keeps to virtual time -/
namespace ServerlessSched.KernelAssigned
open Kern

namespace KernelSide
variable {k₀ k : Kern TaskCtx}

theorem selectCpu_timely (h : Timely k₀ k) (p : Proc) (cpu : ℕ) (isIdle : Bool) :
    Timely k₀ (selectCpu p cpu isIdle k) := by
  unfold selectCpu
  split
  case isFalse => exact h
  case isTrue =>
    cases (k.task p).ctx with
    | none => exact h.scxBpfError _
    | some tctx => exact (h.scxBpfDsqInsert (fun hf => by cases hf) p tctx.slice).scxBpfKickCpu cpu .idle

theorem selectCpu_local (p : Proc) (cpu : ℕ) (isIdle : Bool) (hnone : k.inserts = []) :
    ∀ i ∈ (selectCpu p cpu isIdle k).inserts, i.dsq ≠ .shared := by
  intro i hi
  obtain ⟨-,hdsq,-⟩ := selectCpu_inserts hnone hi
  rw [hdsq]
  exact fun hf => by cases hf

theorem enqueue_timely (h : Timely k₀ k) (p : Proc) (idleCpu : Option ℕ) :
    Timely k₀ (enqueue p idleCpu k) := by
  unfold enqueue
  cases (k.task p).ctx with
  | none => exact h.scxBpfError _
  | some tctx => exact h.enqueueShared p tctx.slice idleCpu

theorem dispatch_timely (h : Timely k₀ k) (cpu : ℕ) (env : DispatchEnv) :
    Timely k₀ (dispatch cpu env k) := by
  unfold dispatch
  split
  case isTrue => exact h
  case isFalse => exact h.scanSharedDsq cpu env.moves _

theorem enable_timely {s : KernelSide} (h : Timely k₀ s.kern) (p : Proc) (alloc : Bool) :
    Timely k₀ (enable p alloc s).1.kern ∧ (enable p alloc s).1.kern.inserts = s.kern.inserts := by
  rcases enable_cases p alloc s with ⟨-,-,hres⟩ | ⟨-,hres⟩ <;> rw [hres]
  · exact ⟨(h.restart p).scxBpfError _,inserts_scxBpfError _ _⟩
  · exact ⟨h.modify rfl id h.clock_lt (Or.inl (Nat.le_add_right _ _)),rfl⟩

end KernelSide

open KernelSide in
theorem serverlessOps_keepsTime : SchedExtOps.KeepsTime TaskCtx.lastSumExecRuntime serverlessOps where
  selectCpu p cpu isIdle _ ho hnone :=
    ⟨selectCpu_timely (Timely.refl ho hnone) p cpu isIdle,selectCpu_local p cpu isIdle hnone⟩
  enqueue p idleCpu _ ho hnone := enqueue_timely (Timely.refl ho hnone) p idleCpu
  dispatch cpu env _ ho hnone := dispatch_timely (Timely.refl ho hnone) cpu env
  running _ _ ho hnone := Timely.refl ho hnone
  stopping _ _ ho hnone hwrap := (Timely.refl ho hnone).chargeStopping _ hwrap
  updateIdle _ _ _ ho hnone := Timely.refl ho hnone
  enable p alloc _ ho hnone := by
    obtain ⟨htimely,hinserts⟩ := enable_timely (Timely.refl ho hnone) p alloc
    refine ⟨htimely,fun i hi => ?_⟩
    have hi := (hinserts.trans hnone) ▸ hi
    cases hi
  disable _ _ ho hnone := Timely.refl ho hnone

end ServerlessSched.KernelAssigned
