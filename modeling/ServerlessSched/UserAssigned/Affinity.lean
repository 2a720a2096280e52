import ServerlessSched.Kernel.Affinity
import ServerlessSched.KernelAssigned.Bpf
import ServerlessSched.UserAssigned.Board

/-! # Affinity under the two schedulers

Both walk the shared queue without a look at the masks, and both leave CPU 0 out of it but
not out of the wakeups.
-/
namespace ServerlessSched.KernelAssigned
open Kern

theorem scans_iff (cpu : ℕ) : serverlessOps.Scans cpu ↔ cpu ≠ 0 := by
  constructor
  · rintro h rfl
    refine h ⟨fun _ => false,fun _ => none,true⟩ ⟨{ Kern.fresh with sharedDsq := .insert .empty ⟨1,0⟩ },⟨0,0⟩⟩ ?_ rfl
    exact List.cons_ne_nil _ _
  · intro hcpu env s hwaiting hsame
    obtain ⟨p,ps,horder⟩ := List.exists_cons_of_ne_nil (sharedOrder_ne_nil.mpr hwaiting)
    have hdispatch : (serverlessOps.dispatch cpu env s).kern =
        scanSharedDsq cpu env.moves s.kern.sharedOrder s.kern := if_neg hcpu
    rw [hdispatch,moveRequests_scanSharedDsq,horder,scanRequests] at hsame
    simp at hsame

theorem enqueue_kicks {p : Proc} {idleCpu : Option ℕ} {k : Kern TaskCtx}
    (h : InsertsShared p k (KernelSide.enqueue p idleCpu k)) (cpu : ℕ) (hpick : idleCpu = some cpu) :
    (KernelSide.enqueue p idleCpu k).kickedCpus = k.kickedCpus ++ [cpu] := by
  obtain ⟨i,hi,-,-⟩ := h
  subst hpick
  unfold KernelSide.enqueue at hi ⊢
  cases hctx : (k.task p).ctx with
  | none => simp [hctx] at hi
  | some tctx => simp [enqueueShared,kickedCpus_kickIdleCpu_some,kickedCpus_scxBpfDsqInsertVtime]

end ServerlessSched.KernelAssigned

namespace ServerlessSched.UserAssigned
open Kern

namespace KernelSide

/-- What `dispatch` does before it turns to the shared queue. -/
def beforeScan (userschedPid : ℕ) (env : DispatchEnv) (s : KernelSide) : KernelSide :=
  dequeueTasksFromUserspace env.pick (s.serveDaemon userschedPid env.reserve)

theorem dispatch_eq (userschedPid cpu : ℕ) (env : DispatchEnv) (s : KernelSide) :
    (dispatch userschedPid cpu env s).kern =
      if cpu = 0 then (beforeScan userschedPid env s).kern
      else scanSharedDsq cpu env.moves (beforeScan userschedPid env s).kern.sharedOrder
        (beforeScan userschedPid env s).kern := by
  unfold dispatch
  exact apply_ite Sched.kern _ _ _

theorem callDaemon_sharedDsq (userschedPid : ℕ) (reserve : Bool) (k : Kern TaskCtx) :
    (callDaemon userschedPid reserve k).sharedDsq = k.sharedDsq := by
  unfold callDaemon
  cases k.pids.holder userschedPid <;> cases reserve <;> rfl

theorem callDaemon_moveRequests (userschedPid : ℕ) (reserve : Bool) (k : Kern TaskCtx) :
    (callDaemon userschedPid reserve k).moveRequests = k.moveRequests := by
  unfold callDaemon
  cases k.pids.holder userschedPid <;> cases reserve <;>
    simp [scxBpfError,scxBpfDsqInsert,moveRequests]

theorem applyDecision_moveRequests (u : DispatchedTask) (idleCpu : Option ℕ) (k : Kern TaskCtx) :
    (applyDecision u idleCpu k).moveRequests = k.moveRequests := by
  rcases applyDecision_cases u idleCpu k with ⟨-,h⟩ | ⟨p,slice,-,-,h⟩ <;> rw [h]
  rcases kickIdleCpu_eq ((k.modify p (markDecided u.slice)).scxBpfDsqInsertVtime p slice
    (lagClamp k.globalVtime (k.task p).dsqVtime)) p idleCpu with h | ⟨cpu,h⟩ <;> rw [h]
  · simp [scxBpfDsqInsertVtime,moveRequests]
  · simp [scxBpfDsqInsertVtime,scxBpfKickCpu,moveRequests]

/-- The queue the loop meets is the one the callback found: its own insertions land later. -/
theorem beforeScan_frame (userschedPid : ℕ) (env : DispatchEnv) (s : KernelSide) :
    (beforeScan userschedPid env s).kern.sharedDsq = s.kern.sharedDsq ∧
      (beforeScan userschedPid env s).kern.moveRequests = s.kern.moveRequests := by
  have hserve : (serveDaemon userschedPid env.reserve s).kern.sharedDsq = s.kern.sharedDsq ∧
      (serveDaemon userschedPid env.reserve s).kern.moveRequests = s.kern.moveRequests := by
    rw [serveDaemon_kern]
    split
    case isTrue => exact ⟨callDaemon_sharedDsq _ _ _,callDaemon_moveRequests _ _ _⟩
    case isFalse => exact ⟨rfl,rfl⟩
  rw [beforeScan,dequeueTasksFromUserspace_eq]
  apply applyDecisions_preserves env.pick
    (P := fun k => k.sharedDsq = s.kern.sharedDsq ∧ k.moveRequests = s.kern.moveRequests)
  · intro u _ idleCpu k hk
    exact ⟨(applyDecision_sharedDsq u idleCpu k).trans hk.1,
      (applyDecision_moveRequests u idleCpu k).trans hk.2⟩
  · exact hserve

/-- Unless a decision is for a task that waits already, the order is the one found, too. -/
theorem beforeScan_sharedOrder {userschedPid : ℕ} {env : DispatchEnv} {s : KernelSide}
    (h : ∀ u ∈ s.bss.link.dispatched.items, ∀ q ∈ s.kern.sharedDsq.waiting,
      s.kern.pids.holder u.pid ≠ some q) :
    (beforeScan userschedPid env s).kern.sharedOrder = s.kern.sharedOrder := by
  have hquiet := quiet_serveDaemon userschedPid env.reserve s
  have hpids : Same TaskStruct.dsqVtime s.kern (serveDaemon userschedPid env.reserve s).kern :=
    serveDaemon_same (fun _ _ => rfl) userschedPid env.reserve s
  have hdsq := (beforeScan_frame userschedPid env s).1
  have hvtime : ∀ q ∈ s.kern.sharedDsq.waiting,
      ((beforeScan userschedPid env s).kern.task q).dsqVtime = (s.kern.task q).dsqVtime := by
    intro q hq
    rw [beforeScan,dequeueTasksFromUserspace_eq]
    change ((applyDecisions _ _ _ _).task q).dsqVtime = _
    rw [applyDecisions_task_of_ne]
    · exact hpids.task q
    · rw [hquiet.dispatched,hpids.pids]
      exact fun u hu => h u hu q hq
  exact sharedOrder_congr hdsq hvtime

end KernelSide

open KernelSide

theorem scans_iff (userschedPid cpu : ℕ) : (serverlessOps userschedPid).Scans cpu ↔ cpu ≠ 0 := by
  constructor
  · rintro h rfl
    refine h ⟨fun _ => false,fun _ => none,true⟩
      ⟨{ Kern.fresh with sharedDsq := .insert .empty ⟨1,0⟩ },⟨.start,0,0⟩⟩ (List.cons_ne_nil _ _) ?_
    have hdispatch := dispatch_eq userschedPid 0
    exact (congrArg moveRequests (hdispatch _ _)).trans (beforeScan_frame _ _ _).2
  · intro hcpu env s hwaiting hsame
    obtain ⟨hdsq,hmoves⟩ := beforeScan_frame userschedPid env s
    rw [← hdsq] at hwaiting
    obtain ⟨p,ps,horder⟩ := List.exists_cons_of_ne_nil (sharedOrder_ne_nil.mpr hwaiting)
    have hdispatch := dispatch_eq userschedPid cpu env s
    rw [if_neg hcpu] at hdispatch
    change (dispatch userschedPid cpu env s).kern.moveRequests = _ at hsame
    rw [hdispatch,moveRequests_scanSharedDsq,horder,scanRequests,hmoves] at hsame
    simp at hsame

section Kicks
variable {p : Proc} {idleCpu : Option ℕ} {k : Kern TaskCtx}

/-- The daemon goes to the global queue, and a task without a slice nowhere. -/
theorem enqueue_kicks {userschedPid : ℕ} (h : InsertsShared p k (enqueue userschedPid p idleCpu k))
    (cpu : ℕ) (hpick : idleCpu = some cpu) :
    (enqueue userschedPid p idleCpu k).kickedCpus = k.kickedCpus ++ [cpu] := by
  obtain ⟨i,hi,-,hdsq⟩ := h
  subst hpick
  unfold enqueue at hi ⊢
  split at hi
  case isTrue =>
    rw [inserts_scxBpfDsqInsert] at hi
    rw [← List.cons.inj (List.append_cancel_left hi) |>.1] at hdsq
    cases hdsq
  case isFalse hpid =>
    rw [if_neg hpid]
    cases hctx : (k.task p).ctx with
    | none => simp [hctx] at hi
    | some tctx =>
      rw [hctx] at hi
      dsimp only at hi ⊢
      split at hi
      case isFalse => simp at hi
      case isTrue hslice =>
        rw [if_pos hslice]
        simp [enqueueShared,kickedCpus_kickIdleCpu_some,kickedCpus_scxBpfDsqInsertVtime]

theorem applyDecision_kicks {uTask : DispatchedTask} (h : InsertsShared p k (applyDecision uTask idleCpu k))
    (cpu : ℕ) (hpick : idleCpu = some cpu) :
    (applyDecision uTask idleCpu k).kickedCpus = k.kickedCpus ++ [cpu] := by
  obtain ⟨i,hi,-,-⟩ := h
  subst hpick
  rcases applyDecision_cases uTask (some cpu) k with ⟨-,hres⟩ | ⟨q,slice,-,-,hres⟩
  · rw [hres] at hi
    simp at hi
  · rw [hres,kickedCpus_kickIdleCpu_some,kickedCpus_scxBpfDsqInsertVtime]
    rfl

end Kicks

end ServerlessSched.UserAssigned

namespace ServerlessSched
open Kern

/-! ## The queue -/

/-- On every CPU but CPU 0, a dispatch of either scheduler respects affinity exactly when the
task at the head of the queue may run there. -/
theorem dispatch_respects_affinity_iff (mask : CpuMasks) {cpu : ℕ} (hcpu : cpu ≠ 0) (env : DispatchEnv)
    (userschedPid : ℕ) :
    (∀ k : Kern KernelAssigned.TaskCtx,
      (∀ p ∈ k.sharedOrder, mask p cpu = true → env.moves p = true) →
        (RespectsAffinity mask cpu k (KernelAssigned.KernelSide.dispatch cpu env k) ↔
          ∀ p ∈ k.sharedOrder.head?, mask p cpu = true)) ∧
    ∀ s k, k = (UserAssigned.KernelSide.beforeScan userschedPid env s).kern →
      (∀ p ∈ k.sharedOrder, mask p cpu = true → env.moves p = true) →
        (RespectsAffinity mask cpu k (UserAssigned.KernelSide.dispatch userschedPid cpu env s).kern ↔
          ∀ p ∈ k.sharedOrder.head?, mask p cpu = true) := by
  constructor
  · intro k hmoves
    rw [KernelAssigned.KernelSide.dispatch,if_neg hcpu]
    exact respectsAffinity_scan_iff hmoves
  · rintro s k rfl hmoves
    rw [UserAssigned.KernelSide.dispatch_eq,if_neg hcpu]
    exact respectsAffinity_scan_iff hmoves

section Pinned

def pinned : Proc := ⟨10,0⟩
def roaming : Proc := ⟨11,0⟩

/-- One task is bound to CPU 2, every other may run anywhere. -/
def pinnedMask : CpuMasks := fun p cpu => p ≠ pinned || cpu = 2

/-- The bound task waits with the lower virtual time. -/
def pinnedFirst (C : Type) : Kern C :=
  { Kern.fresh with
    task := fun p => { Kern.fresh.task p with dsqVtime := if p = pinned then 5 else 9 }
    sharedDsq := (StampedQueue.empty.insert roaming).insert pinned }

def pinnedEnv (cpu : ℕ) : DispatchEnv := ⟨fun p => pinnedMask p cpu,fun _ => none,true⟩

def pinnedSide : UserAssigned.KernelSide := ⟨pinnedFirst _,⟨.start,0,0⟩⟩

theorem pinnedSide_beforeScan (cpu : ℕ) :
    (UserAssigned.KernelSide.beforeScan 1 (pinnedEnv cpu) pinnedSide).kern = pinnedFirst _ := rfl

/-- A dispatch on CPU 1 asks for the task bound to CPU 2, although another one may be moved. -/
theorem affinity_ignored :
    (∀ p, pinnedMask p 1 = true → (pinnedEnv 1).moves p = true) ∧
      (pinnedFirst KernelAssigned.TaskCtx).nextAllowed pinnedMask 1 = some roaming ∧
      ¬RespectsAffinity pinnedMask 1 (pinnedFirst _)
        (KernelAssigned.KernelSide.dispatch 1 (pinnedEnv 1) (pinnedFirst _)) ∧
      ¬RespectsAffinity pinnedMask 1 (pinnedFirst _)
        (UserAssigned.KernelSide.dispatch 1 1 (pinnedEnv 1) pinnedSide).kern := by
  have hpinned : pinnedMask pinned 1 = false := rfl
  refine ⟨fun _ h => h,rfl,fun h => ?_,fun h => ?_⟩
  · rw [KernelAssigned.KernelSide.dispatch,if_neg one_ne_zero] at h
    exact absurd (head_allowed h pinned rfl) (by simp [hpinned])
  · rw [UserAssigned.KernelSide.dispatch_eq,if_neg one_ne_zero,pinnedSide_beforeScan] at h
    exact absurd (head_allowed h pinned rfl) (by simp [hpinned])

/-- On CPU 2, where the head of the same queue may run, both schedulers do what they should. -/
theorem dispatch_respects_affinity_pinned :
    RespectsAffinity pinnedMask 2 (pinnedFirst _)
        (KernelAssigned.KernelSide.dispatch 2 (pinnedEnv 2) (pinnedFirst _)) ∧
      RespectsAffinity pinnedMask 2 (pinnedFirst _)
        (UserAssigned.KernelSide.dispatch 1 2 (pinnedEnv 2) pinnedSide).kern := by
  have hhead : ∀ C, ∀ p ∈ (pinnedFirst C).sharedOrder.head?, pinnedMask p 2 = true := by
    intro C p hp
    cases hp
    rfl
  have h := dispatch_respects_affinity_iff pinnedMask two_ne_zero (pinnedEnv 2) 1
  exact ⟨(h.1 (pinnedFirst _) (fun _ _ hp => hp)).mpr (hhead _),
    (h.2 pinnedSide (pinnedFirst _) rfl (fun _ _ hp => hp)).mpr (hhead _)⟩

end Pinned

/-! ## The wakeup -/

/-- Wherever one of the three copies of the kick inserts a task into the shared queue, the
wakeup agrees with dispatch exactly when it leaves CPU 0 aside. -/
theorem kicks_agree_iff (mask : CpuMasks) (idle : ℕ → Bool) (p : Proc) {idleCpu : Option ℕ}
    (hpick : IdlePick mask idle p idleCpu) :
    (∀ k, InsertsShared p k (KernelAssigned.KernelSide.enqueue p idleCpu k) →
      (WakesServer KernelAssigned.serverlessOps.Scans mask idle p k
        (KernelAssigned.KernelSide.enqueue p idleCpu k) ↔ SparesCpuZero mask idle p idleCpu)) ∧
    (∀ userschedPid k, InsertsShared p k (UserAssigned.KernelSide.enqueue userschedPid p idleCpu k) →
      (WakesServer (UserAssigned.serverlessOps userschedPid).Scans mask idle p k
        (UserAssigned.KernelSide.enqueue userschedPid p idleCpu k) ↔ SparesCpuZero mask idle p idleCpu)) ∧
    ∀ userschedPid uTask k, InsertsShared p k (UserAssigned.KernelSide.applyDecision uTask idleCpu k) →
      (WakesServer (UserAssigned.serverlessOps userschedPid).Scans mask idle p k
        (UserAssigned.KernelSide.applyDecision uTask idleCpu k) ↔ SparesCpuZero mask idle p idleCpu) := by
  refine ⟨fun k hk => ?_,fun userschedPid k hk => ?_,fun userschedPid uTask k hk => ?_⟩
  · apply wakesServer_iff KernelAssigned.scans_iff hpick
    exact KernelAssigned.enqueue_kicks hk
  · apply wakesServer_iff (UserAssigned.scans_iff userschedPid) hpick
    exact UserAssigned.enqueue_kicks hk
  · apply wakesServer_iff (UserAssigned.scans_iff userschedPid) hpick
    exact UserAssigned.applyDecision_kicks hk

section Wakeups

/-- A living task with its slice, ready to be inserted. -/
def sliced {C : Type} (tctx : C) : Kern C :=
  (Kern.spawn roaming 1 ⟨0,0,fun _ => none⟩ Kern.fresh).modify roaming (fun t => { t with ctx := some tctx })

def slicedKernel : Kern KernelAssigned.TaskCtx := sliced ⟨sliceDfl,0⟩
def slicedUser : Kern UserAssigned.TaskCtx := sliced ⟨sliceDfl,0,true⟩

def anyCpu : CpuMasks := fun _ _ => true

def idleZeroAndThree : ℕ → Bool := fun cpu => cpu = 0 || cpu = 3

theorem inserts_sliced (idleCpu : Option ℕ) :
    InsertsShared roaming slicedKernel (KernelAssigned.KernelSide.enqueue roaming idleCpu slicedKernel) ∧
      InsertsShared roaming slicedUser (UserAssigned.KernelSide.enqueue 1 roaming idleCpu slicedUser) ∧
      InsertsShared roaming slicedUser (UserAssigned.KernelSide.applyDecision ⟨11,0⟩ idleCpu slicedUser) := by
  refine ⟨⟨_,inserts_enqueueShared _ _ _ _,rfl,rfl⟩,⟨_,inserts_enqueueShared _ _ _ _,rfl,rfl⟩,?_⟩
  rcases UserAssigned.KernelSide.applyDecision_cases ⟨11,0⟩ idleCpu slicedUser with ⟨h,-⟩ | ⟨p,slice,hp,hslice,h⟩
  · cases h
  · cases hp
    rw [h]
    exact ⟨_,(inserts_kickIdleCpu _ _ _).trans (inserts_scxBpfDsqInsertVtime _ _ _ _),rfl,rfl⟩

/-- The kernel may pick CPU 0 although CPU 3 is idle, and all three copies then wake CPU 0. -/
theorem wakeup_absorbed :
    IdlePick anyCpu idleZeroAndThree roaming (some 0) ∧
      (InsertsShared roaming slicedKernel (KernelAssigned.KernelSide.enqueue roaming (some 0) slicedKernel) ∧
        ¬WakesServer KernelAssigned.serverlessOps.Scans anyCpu idleZeroAndThree roaming slicedKernel
          (KernelAssigned.KernelSide.enqueue roaming (some 0) slicedKernel)) ∧
      (InsertsShared roaming slicedUser (UserAssigned.KernelSide.enqueue 1 roaming (some 0) slicedUser) ∧
        ¬WakesServer (UserAssigned.serverlessOps 1).Scans anyCpu idleZeroAndThree roaming slicedUser
          (UserAssigned.KernelSide.enqueue 1 roaming (some 0) slicedUser)) ∧
      InsertsShared roaming slicedUser (UserAssigned.KernelSide.applyDecision ⟨11,0⟩ (some 0) slicedUser) ∧
        ¬WakesServer (UserAssigned.serverlessOps 1).Scans anyCpu idleZeroAndThree roaming slicedUser
          (UserAssigned.KernelSide.applyDecision ⟨11,0⟩ (some 0) slicedUser) := by
  have hpick : IdlePick anyCpu idleZeroAndThree roaming (some 0) := ⟨rfl,rfl⟩
  have hzero : ¬SparesCpuZero anyCpu idleZeroAndThree roaming (some 0) := by
    rintro ⟨-,h⟩
    cases h rfl 3 rfl (by decide)
  obtain ⟨hkernel,huser,hdecision⟩ := inserts_sliced (some 0)
  refine ⟨hpick,⟨hkernel,fun h => hzero ?_⟩,⟨huser,fun h => hzero ?_⟩,hdecision,fun h => hzero ?_⟩
  · exact (wakesServer_iff KernelAssigned.scans_iff hpick (KernelAssigned.enqueue_kicks hkernel)).mp h
  · exact (wakesServer_iff (UserAssigned.scans_iff 1) hpick (UserAssigned.enqueue_kicks huser)).mp h
  · exact (wakesServer_iff (UserAssigned.scans_iff 1) hpick (UserAssigned.applyDecision_kicks hdecision)).mp h

/-- With the same idle CPUs and CPU 3 picked, all three copies wake a CPU that serves the queue. -/
theorem kicks_agree_three :
    WakesServer KernelAssigned.serverlessOps.Scans anyCpu idleZeroAndThree roaming slicedKernel
        (KernelAssigned.KernelSide.enqueue roaming (some 3) slicedKernel) ∧
      WakesServer (UserAssigned.serverlessOps 1).Scans anyCpu idleZeroAndThree roaming slicedUser
        (UserAssigned.KernelSide.enqueue 1 roaming (some 3) slicedUser) ∧
      WakesServer (UserAssigned.serverlessOps 1).Scans anyCpu idleZeroAndThree roaming slicedUser
        (UserAssigned.KernelSide.applyDecision ⟨11,0⟩ (some 3) slicedUser) := by
  have hpick : IdlePick anyCpu idleZeroAndThree roaming (some 3) := ⟨rfl,rfl⟩
  have hspares : SparesCpuZero anyCpu idleZeroAndThree roaming (some 3) := by
    refine ⟨⟨3,rfl,by decide⟩,fun h => ?_⟩
    cases h
  obtain ⟨hkernel,huser,hdecision⟩ := inserts_sliced (some 3)
  have h := kicks_agree_iff anyCpu idleZeroAndThree roaming hpick
  exact ⟨(h.1 slicedKernel hkernel).mpr hspares,(h.2.1 1 slicedUser huser).mpr hspares,
    (h.2.2 1 ⟨11,0⟩ slicedUser hdecision).mpr hspares⟩

end Wakeups

end ServerlessSched
