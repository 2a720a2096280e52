import ServerlessSched.KernelAssigned.Overtaking
import ServerlessSched.UserAssigned.DecidedSlices

/-! # The userspace-assigned scheduler keeps to virtual time

Its two more insertions, for a decision and for a full map, are clamped like the others: the
fallback without the test of the clock, for a task whose time is the clock itself.
-/
namespace ServerlessSched.UserAssigned
open Kern

namespace KernelSide
variable {k₀ k : Kern TaskCtx} {s : KernelSide}

theorem selectCpu_timely (h : Timely k₀ k) (p : Proc) (cpu : ℕ) (isIdle : Bool) :
    Timely k₀ (selectCpu p cpu isIdle k) := by
  unfold selectCpu
  split
  case isFalse => exact h
  case isTrue =>
    cases (k.task p).ctx with
    | none => exact h.scxBpfError _
    | some tctx =>
      dsimp only
      split
      case isTrue => exact (h.scxBpfDsqInsert (fun hf => by cases hf) p tctx.slice).scxBpfKickCpu cpu .idle
      case isFalse => exact h

theorem enqueue_timely (h : Timely k₀ k) (userschedPid : ℕ) (p : Proc) (idleCpu : Option ℕ) :
    Timely k₀ (enqueue userschedPid p idleCpu k) := by
  unfold enqueue
  split
  case isTrue => exact h.scxBpfDsqInsert (fun hf => by cases hf) p sliceInf
  case isFalse =>
    cases (k.task p).ctx with
    | none => exact h.scxBpfError _
    | some tctx =>
      dsimp only
      split
      case isTrue => exact h.enqueueShared p tctx.slice idleCpu
      case isFalse => exact h

theorem callDaemon_timely (h : Timely k₀ k) (userschedPid : ℕ) (reserve : Bool) :
    Timely k₀ (callDaemon userschedPid reserve k) := by
  unfold callDaemon
  cases k.pids.holder userschedPid with
  | none =>
    cases reserve with
    | true => exact h.scxBpfError _
    | false => exact (h.scxBpfError _).scxBpfError _
  | some p =>
    have hinsert := h.scxBpfDsqInsert (fun (hf : DsqId.global = .shared) => by cases hf) p sliceInf
    cases reserve with
    | true => exact hinsert
    | false => exact hinsert.scxBpfError _

theorem applyDecision_timely (h : Timely k₀ k) (u : DispatchedTask) (idleCpu : Option ℕ) :
    Timely k₀ (applyDecision u idleCpu k) := by
  rcases applyDecision_cases u idleCpu k with ⟨-,hres⟩ | ⟨p,slice,-,-,hres⟩ <;> rw [hres]
  · exact h
  · have hmarked : Timely k₀ (k.modify p (markDecided u.slice)) := h.frame rfl rfl rfl (Same.modify rfl)
    refine (hmarked.scxBpfDsqInsertVtime p slice ?_).kickIdleCpu p idleCpu
    rw [modify_task_self]
    exact lagClamp_toNat h.clock_lt (h.vtime_lt p)

theorem dispatch_timely (h : Timely k₀ s.kern) (userschedPid cpu : ℕ) (env : DispatchEnv) :
    Timely k₀ (dispatch userschedPid cpu env s).kern := by
  have hserved : Timely k₀ (serveDaemon userschedPid env.reserve s).kern := by
    rw [serveDaemon_kern]
    split
    case isTrue => exact callDaemon_timely h userschedPid env.reserve
    case isFalse => exact h
  have hdequeued : Timely k₀
      (dequeueTasksFromUserspace env.pick (serveDaemon userschedPid env.reserve s)).kern := by
    rw [dequeueTasksFromUserspace_eq]
    exact applyDecisions_preserves _ (P := Timely k₀)
      (fun u _ idleCpu _ hk => applyDecision_timely hk u idleCpu) _ hserved
  unfold dispatch
  dsimp only
  split
  case isTrue => exact hdequeued
  case isFalse => exact hdequeued.scanSharedDsq cpu env.moves _

theorem stopping_timely (h : Timely k₀ k) (p : Proc) (hwrap : NoWrap TaskCtx.lastSumExecRuntime k (.stopping p)) :
    Timely k₀ (stopping p k) := h.chargeStopping _ hwrap

theorem disable_timely (h : Timely k₀ k) (p : Proc) : Timely k₀ (disable p k) :=
  h.frame rfl rfl rfl (Same.modify rfl)

theorem running_timely (h : Timely k₀ k) (p : Proc) : Timely k₀ (running p k) := by
  unfold running
  split
  case isFalse => exact h
  case isTrue hbefore =>
    have hlt := (timeBefore_iff h.clock_lt (h.vtime_lt p)).mp hbefore
    exact ⟨h.enabled.trans (Same.of_eq rfl rfl),h.withheld,h.seq,h.entries,h.clock_le.trans hlt.le,
      h.vtime_lt p,h.vtime_lt,h.vtime,h.inserted⟩

theorem updateIdle_timely (h : Timely k₀ s.kern) (cpu : ℕ) (idle : Bool) :
    Timely k₀ (updateIdle cpu idle s).kern := by
  unfold updateIdle
  split
  case isFalse => exact h
  case isTrue =>
    split
    case isTrue => exact h.scxBpfKickCpu cpu .plain
    case isFalse => exact h

/-- The fallback finds the task's time at the clock, where its clamp cannot wrap. -/
theorem enable_timely (h : Timely k₀ s.kern) (userschedPid : ℕ) (p : Proc) (alloc : Bool) :
    Timely k₀ (enable userschedPid p alloc s).1.kern := by
  have henrol : Timely k₀ (s.kern.modify p (enrol s.kern.globalVtime)) :=
    h.modify rfl id h.clock_lt (Or.inl (Nat.le_add_right _ _))
  rcases enable_cases userschedPid p alloc s with ⟨-,-,hres⟩ | ⟨-,hres⟩ <;> rw [hres]
  · exact (h.restart p).scxBpfError _
  · dsimp only
    split
    case isTrue => exact henrol
    case isFalse =>
      unfold enqueueTaskInUserspace
      cases (s.onKern (fun k => k.modify p (enrol k.globalVtime))).bss.link.enqueued.push p.pid with
      | some q => exact henrol
      | none =>
        refine (henrol.scxBpfDsqInsertVtime p sliceDfl ?_).scxBpfKickCpu _ .plain
        apply fallbackClamp_toNat h.clock_lt
        rw [Sched.onKern_kern,modify_task_self]
        exact le_rfl

end KernelSide

open KernelSide in
theorem serverlessOps_keepsTime (userschedPid : ℕ) :
    SchedExtOps.KeepsTime TaskCtx.lastSumExecRuntime (serverlessOps userschedPid) where
  selectCpu p cpu isIdle s ho hnone := by
    refine ⟨selectCpu_timely (Timely.refl ho hnone) p cpu isIdle,fun i hi hf => ?_⟩
    have hreason : InsertReason userschedPid _ (.selectCpu p cpu isIdle) i := selectCpu_inserts hnone hi
    cases hreason with
    | direct _ hdsq _ _ _ =>
      rw [hdsq] at hf
      cases hf
  enqueue p idleCpu _ ho hnone := enqueue_timely (Timely.refl ho hnone) userschedPid p idleCpu
  dispatch cpu env _ ho hnone := dispatch_timely (Timely.refl ho hnone) userschedPid cpu env
  running p _ ho hnone := running_timely (Timely.refl ho hnone) p
  stopping p _ ho hnone hwrap := stopping_timely (Timely.refl ho hnone) p hwrap
  updateIdle cpu idle _ ho hnone := updateIdle_timely (Timely.refl ho hnone) cpu idle
  enable p alloc s ho hnone := by
    refine ⟨enable_timely (Timely.refl ho hnone) userschedPid p alloc,fun i hi _ => ?_⟩
    cases enable_inserts hnone hi with
    | fallback hi _ _ _ _ => exact hi
  disable p _ ho hnone := disable_timely (Timely.refl ho hnone) p

/-- The condition on the times, for runs with an arbitrary userspace. -/
def NoWrap (s : KernelSide) : OpenEvent → Prop
  | .kernel e => s.kern.NoWrap TaskCtx.lastSumExecRuntime e
  | .userspace _ => True

end ServerlessSched.UserAssigned

namespace ServerlessSched
open Kern

/-- Both schedulers bound overtaking, from every kernel and in every run in which virtual times
stay below `2 ^ 63`. -/
theorem bounded_overtaking (userschedPid : ℕ) (k : Kern KernelAssigned.TaskCtx)
    (k' : Kern UserAssigned.TaskCtx) (hk : ∀ p, (k.task p).dsqVtime.toNat < 2 ^ 63)
    (hk' : ∀ p, (k'.task p).dsqVtime.toNat < 2 ^ 63) :
    BoundedOvertaking KernelAssigned.serverlessOps.step Sched.kern
        (fun s e => s.kern.NoWrap KernelAssigned.TaskCtx.lastSumExecRuntime e)
        (KernelAssigned.KernelSide.start k) ∧
      BoundedOvertaking (UserAssigned.KernelSide.openStep userschedPid) Sched.kern UserAssigned.NoWrap
        (UserAssigned.KernelSide.start k') := by
  constructor
  · refine boundedOvertaking_of_advances ⟨orderly_boot hk,fun i hi => (List.not_mem_nil hi).elim⟩ ?_
    intro s e t hs hwrap ht
    exact Or.inr (KernelAssigned.serverlessOps_keepsTime.step hs hwrap ht)
  · refine boundedOvertaking_of_advances ⟨orderly_boot hk',fun i hi => (List.not_mem_nil hi).elim⟩ ?_
    intro s e t hs hwrap ht
    cases e with
    | kernel e => exact Or.inr ((UserAssigned.serverlessOps_keepsTime userschedPid).step hs hwrap ht)
    | userspace l =>
      cases ht
      exact Or.inl rfl

theorem bounded_overtaking_fresh :
    BoundedOvertaking KernelAssigned.serverlessOps.step Sched.kern
        (fun s e => s.kern.NoWrap KernelAssigned.TaskCtx.lastSumExecRuntime e)
        (KernelAssigned.KernelSide.start Kern.fresh) ∧
      BoundedOvertaking (UserAssigned.KernelSide.openStep 1) Sched.kern UserAssigned.NoWrap
        (UserAssigned.KernelSide.start Kern.fresh) :=
  bounded_overtaking 1 Kern.fresh Kern.fresh (fun _ => Nat.two_pow_pos 63) (fun _ => Nat.two_pow_pos 63)

end ServerlessSched
