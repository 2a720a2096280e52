import ServerlessSched.KernelAssigned.Service
import ServerlessSched.UserAssigned.Affinity
import ServerlessSched.UserAssigned.Charges
import ServerlessSched.UserAssigned.Overtaking

/-! # The userspace-assigned scheduler credits its tasks

With that both schedulers owe a waiting task the same.
-/
namespace ServerlessSched.UserAssigned
open Kern Runs

def OpenEvent.kernelEvent : OpenEvent → Option KernelEvent
  | .kernel e => some e
  | .userspace _ => none

/-- What a run keeps for its accounts, whatever an observer's books say at first. -/
structure Solvent (s : KernelSide) : Prop where
  orderly : s.kern.Orderly
  balanced : ∃ g : Proc → Account, ∀ q, Balanced (s.meters q) (g q)

theorem solvent_start {k : Kern TaskCtx} (hk : ∀ p, (k.task p).dsqVtime.toNat < 2 ^ 63) :
    Solvent (KernelSide.start k) :=
  ⟨orderly_boot hk,fun _ => ⟨0,0,0⟩,fun _ => balanced_of_left rfl rfl⟩

/-- The unsettled runtime, as the meter shows it. -/
def Meter.owed (m : Meter) : ℕ := m.baseline.elim 0 (fun b => m.runtime.toNat - b.toNat)

namespace Solvent
open KernelSide
variable {userschedPid : ℕ} {s t : KernelSide} {q : Proc}

theorem step {e : OpenEvent} (hs : Solvent s) (hwrap : NoWrap s e)
    (h : openStep userschedPid s e = some t) : Solvent t := by
  obtain ⟨g,hg⟩ := hs.balanced
  refine ⟨?_,audit s e t g,balanced_step hg h⟩
  cases e with
  | kernel e => exact ((serverlessOps_keepsTime userschedPid).step hs.orderly hwrap h).orderly
  | userspace l =>
    cases h
    exact hs.orderly

theorem ctx (hs : Solvent s) (henabled : (s.kern.task q).enabled = true) :
    ∃ tctx, (s.kern.task q).ctx = some tctx ∧
      tctx.lastSumExecRuntime.toNat ≤ (s.kern.task q).sumExecRuntime.toNat := by
  obtain ⟨g,hg⟩ := hs.balanced
  obtain ⟨hbaseline,hle,-⟩ := (hg q).2 henabled
  obtain ⟨tctx,hctx,hlast⟩ := Option.map_eq_some_iff.mp hbaseline
  exact ⟨tctx,hctx,hlast ▸ hle⟩

end Solvent

namespace KernelSide
variable {userschedPid : ℕ} {s t : KernelSide} {k : Kern TaskCtx} {p q : Proc} {e : KernelEvent}

theorem owed_meters (s : KernelSide) (q : Proc) :
    (s.kern.task q).unsettled TaskCtx.lastSumExecRuntime = (s.meters q).owed := rfl

theorem renews_iff : Renews q (.kernel e) ↔ e.Renews q := by cases e <;> exact Iff.rfl

/-- A virtual time grows by what is charged and is otherwise raised only. -/
theorem step_vtime_le (hs : Solvent s) (hwrap : s.kern.NoWrap TaskCtx.lastSumExecRuntime e)
    (h : (serverlessOps userschedPid).step s e = some t) (hold : ¬e.Renews q) :
    (s.kern.task q).dsqVtime.toNat + s.kern.charge TaskCtx.lastSumExecRuntime q e ≤
      (t.kern.task q).dsqVtime.toNat := by
  obtain ⟨hissues,hperform⟩ := SchedExtOps.step_eq_some.mp h
  by_cases hstop : e = .stopping q
  · subst hstop
    obtain ⟨tctx,hctx,hle⟩ := hs.ctx (q := q) hissues
    have hcharged := step_stopping_vtime h hctx
    have hstop : ((stopping q s.kern).task q).dsqVtime =
        (s.kern.task q).dsqVtime + ((s.kern.task q).sumExecRuntime - tctx.lastSumExecRuntime) := chargeStopping_vtime hctx
    rw [hcharged,← hstop,stopping,chargeStopping_vtime_toNat hctx hle hwrap,charge,if_pos rfl]
  · have hnone : s.kern.charge TaskCtx.lastSumExecRuntime q e = 0 := by
      cases e with
      | stopping p => exact if_neg (fun hp => hstop (congrArg KernelEvent.stopping hp))
      | _ => rfl
    have hclamped : Clamped q s.kern t.kern := by
      rw [hperform]
      exact perform_clamped (mt renews_iff.mp hold) hstop (s.onKern Kern.clearCalls)
    rw [hnone,Nat.add_zero]
    rcases hclamped with hsame | ⟨hraised,-⟩
    · rw [hsame]
    · rw [hraised,lagClamp_toNat hs.orderly.clock_lt (hs.orderly.vtime_lt q)]
      exact le_max_left _ _

theorem step_owed (hs : Solvent s) (h : (serverlessOps userschedPid).step s e = some t) (hold : ¬e.Renews q)
    (henabled : (t.kern.task q).enabled = true) : (s.kern.task q).enabled = true ∧
      (s.kern.task q).unsettled TaskCtx.lastSumExecRuntime + e.cpuTime q ≤
        (t.kern.task q).unsettled TaskCtx.lastSumExecRuntime +
          s.kern.charge TaskCtx.lastSumExecRuntime q e := by
  have hissues := (SchedExtOps.step_eq_some.mp h).1
  have hmeter : t.meters q = s.meters.step e q := congrFun (step_meters h) q
  have henabled : (s.meters.step e q).enabled = true := hmeter ▸ henabled
  have hkept : s.meters.step e q = s.meters q → e.cpuTime q = 0 →
      (s.meters q).enabled = true ∧ (s.meters q).owed + e.cpuTime q ≤
        (s.meters.step e q).owed + s.kern.charge TaskCtx.lastSumExecRuntime q e := by
    intro hsame hcpu
    rw [hsame] at henabled ⊢
    exact ⟨henabled,by omega⟩
  rw [owed_meters,owed_meters,hmeter]
  cases e with
  | spawn p cpu mm => exact hkept (Function.update_of_ne (Ne.symm hold) _ _) rfl
  | tick p ns =>
    by_cases hq : q = p
    · subst hq
      have hfits : (s.meters q).runtime.toNat + ns < 2 ^ 64 := hissues.2
      simp only [Meters.step,Function.update_self] at henabled ⊢
      obtain ⟨g,hg⟩ := hs.balanced
      obtain ⟨hbaseline,hle,-⟩ := (hg q).2 henabled
      have hadded : ((s.meters q).runtime + UInt64.ofNat ns).toNat = (s.meters q).runtime.toNat + ns := by
        rw [UInt64.toNat_add,UInt64.toNat_ofNat']
        omega
      refine ⟨henabled,?_⟩
      simp only [Meter.owed,hbaseline,Option.elim_some,hadded,KernelEvent.cpuTime,if_pos,charge]
      omega
    · exact hkept (Function.update_of_ne hq _ _) (if_neg (Ne.symm hq))
  | exit p =>
    by_cases hq : q = p
    · subst hq
      simp [Meters.step] at henabled
    · exact hkept (Function.update_of_ne hq _ _) rfl
  | enable p alloc =>
    refine hkept ?_ rfl
    unfold Meters.step
    dsimp only
    split
    case isTrue => exact Function.update_of_ne (Ne.symm hold) _ _
    case isFalse => rfl
  | disable p =>
    by_cases hq : q = p
    · subst hq
      simp [Meters.step] at henabled
    · exact hkept (Function.update_of_ne hq _ _) rfl
  | stopping p =>
    by_cases hq : q = p
    · subst hq
      simp only [Meters.step,Function.update_self] at henabled ⊢
      refine ⟨henabled,?_⟩
      simp only [charge,if_pos,KernelEvent.cpuTime,owed_meters]
      omega
    · exact hkept (Function.update_of_ne hq _ _) rfl
  | _ => exact hkept rfl rfl

theorem creditedStep {e : OpenEvent} (hs : Solvent s) (hwrap : NoWrap s e)
    (h : openStep userschedPid s e = some t) :
    CreditedStep Sched.kern OpenEvent.kernelEvent TaskCtx.lastSumExecRuntime s e t := by
  cases e with
  | userspace l =>
    cases h
    exact ⟨fun _ => rfl,(fun _ he => by cases he),(fun _ he => by cases he),fun _ he => by cases he⟩
  | kernel e =>
    have hstep : (serverlessOps userschedPid).step s e = some t := h
    have hcredits : Credits TaskCtx.lastSumExecRuntime e s.kern t.kern :=
      credits_of_charge (fun q hold => step_vtime_le hs hwrap hstep hold)
        (fun q hold henabled => step_owed hs hstep hold henabled)
    refine ⟨fun he => (Option.some_ne_none _ he).elim,?_,?_,?_⟩ <;> rintro ke ⟨⟩
    · exact (SchedExtOps.step_eq_some.mp hstep).1
    · exact (serverlessOps_keepsTime userschedPid).step hs.orderly hwrap hstep
    · exact hcredits

end KernelSide

theorem serverlessOps_scansLast (userschedPid : ℕ) : SchedExtOps.ScansLast (serverlessOps userschedPid) :=
  fun cpu env s hcpu => ⟨(KernelSide.beforeScan userschedPid env s).kern,
    (KernelSide.beforeScan_frame userschedPid env s).1,
    (KernelSide.dispatch_eq userschedPid cpu env s).trans (if_neg hcpu)⟩

end ServerlessSched.UserAssigned

namespace ServerlessSched
open Kern

/-- Both schedulers account for the CPU time of the tasks ahead of a waiting one. -/
theorem bounded_service (userschedPid : ℕ) (k : Kern KernelAssigned.TaskCtx) (k' : Kern UserAssigned.TaskCtx)
    (hk : ∀ p, (k.task p).dsqVtime.toNat < 2 ^ 63) (hk' : ∀ p, (k'.task p).dsqVtime.toNat < 2 ^ 63) :
    BoundedService KernelAssigned.serverlessOps.step Sched.kern some KernelAssigned.TaskCtx.lastSumExecRuntime
        (fun s e => s.kern.NoWrap KernelAssigned.TaskCtx.lastSumExecRuntime e)
        (KernelAssigned.KernelSide.start k) ∧
      BoundedService (UserAssigned.KernelSide.openStep userschedPid) Sched.kern UserAssigned.OpenEvent.kernelEvent
        UserAssigned.TaskCtx.lastSumExecRuntime UserAssigned.NoWrap (UserAssigned.KernelSide.start k') := by
  constructor
  · exact boundedService_of_credited (I := KernelAssigned.Solvent)
      (fun s e t hs hwrap ht => KernelAssigned.Solvent.step hs hwrap ht)
      (fun s e t hs hwrap ht => KernelAssigned.KernelSide.creditedStep hs hwrap ht) (fun s hs => hs.orderly)
      (KernelAssigned.solvent_start hk)
  · exact boundedService_of_credited (I := UserAssigned.Solvent)
      (fun s e t hs hwrap ht => UserAssigned.Solvent.step hs hwrap ht)
      (fun s e t hs hwrap ht => UserAssigned.KernelSide.creditedStep hs hwrap ht) (fun s hs => hs.orderly)
      (UserAssigned.solvent_start hk')

theorem bounded_service_fresh :
    BoundedService KernelAssigned.serverlessOps.step Sched.kern some KernelAssigned.TaskCtx.lastSumExecRuntime
        (fun s e => s.kern.NoWrap KernelAssigned.TaskCtx.lastSumExecRuntime e)
        (KernelAssigned.KernelSide.start Kern.fresh) ∧
      BoundedService (UserAssigned.KernelSide.openStep 1) Sched.kern UserAssigned.OpenEvent.kernelEvent
        UserAssigned.TaskCtx.lastSumExecRuntime UserAssigned.NoWrap (UserAssigned.KernelSide.start Kern.fresh) :=
  bounded_service 1 Kern.fresh Kern.fresh (fun _ => Nat.two_pow_pos 63) (fun _ => Nat.two_pow_pos 63)

/-- Both schedulers serve a task the clock has left behind in its turn. -/
theorem served_in_turn (userschedPid : ℕ) (k : Kern KernelAssigned.TaskCtx) (k' : Kern UserAssigned.TaskCtx)
    (hk : ∀ p, (k.task p).dsqVtime.toNat < 2 ^ 63) (hk' : ∀ p, (k'.task p).dsqVtime.toNat < 2 ^ 63) :
    ServedInTurn KernelAssigned.serverlessOps.step Sched.kern some
        (fun s e => s.kern.NoWrap KernelAssigned.TaskCtx.lastSumExecRuntime e)
        (KernelAssigned.KernelSide.start k) ∧
      ServedInTurn (UserAssigned.KernelSide.openStep userschedPid) Sched.kern UserAssigned.OpenEvent.kernelEvent
        UserAssigned.NoWrap (UserAssigned.KernelSide.start k') := by
  constructor
  · refine servedInTurn_of_credited (I := KernelAssigned.Solvent)
      (fun s e t hs hwrap ht => KernelAssigned.Solvent.step hs hwrap ht)
      (fun s e t hs hwrap ht => KernelAssigned.KernelSide.creditedStep hs hwrap ht) (fun s hs => hs.orderly)
      (KernelAssigned.solvent_start hk) ?_
    intro s e t ke hs hwrap ht he d hoffers hd hstays
    cases he
    have hcredits := (KernelAssigned.KernelSide.creditedStep hs hwrap ht).credits e rfl
    exact KernelAssigned.serverlessOps_scansLast.serves ht hcredits hoffers hd hstays
  · refine servedInTurn_of_credited (I := UserAssigned.Solvent)
      (fun s e t hs hwrap ht => UserAssigned.Solvent.step hs hwrap ht)
      (fun s e t hs hwrap ht => UserAssigned.KernelSide.creditedStep hs hwrap ht) (fun s hs => hs.orderly)
      (UserAssigned.solvent_start hk') ?_
    intro s e t ke hs hwrap ht he d hoffers hd hstays
    have hcredits := (UserAssigned.KernelSide.creditedStep hs hwrap ht).credits ke he
    cases e with
    | userspace l => cases he
    | kernel e =>
      cases he
      exact (UserAssigned.serverlessOps_scansLast userschedPid).serves ht hcredits hoffers hd hstays

theorem served_in_turn_fresh :
    ServedInTurn KernelAssigned.serverlessOps.step Sched.kern some
        (fun s e => s.kern.NoWrap KernelAssigned.TaskCtx.lastSumExecRuntime e)
        (KernelAssigned.KernelSide.start Kern.fresh) ∧
      ServedInTurn (UserAssigned.KernelSide.openStep 1) Sched.kern UserAssigned.OpenEvent.kernelEvent
        UserAssigned.NoWrap (UserAssigned.KernelSide.start Kern.fresh) :=
  served_in_turn 1 Kern.fresh Kern.fresh (fun _ => Nat.two_pow_pos 63) (fun _ => Nat.two_pow_pos 63)

end ServerlessSched
