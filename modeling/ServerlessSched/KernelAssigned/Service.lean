import ServerlessSched.Kernel.Service
import ServerlessSched.KernelAssigned.Handover
import ServerlessSched.KernelAssigned.Overtaking

/-! # The kernel-assigned scheduler credits its tasks -/
namespace ServerlessSched.KernelAssigned
open Kern Runs

/-- What a run keeps for its accounts. -/
structure Solvent (s : KernelSide) : Prop where
  orderly : s.kern.Orderly
  sane : Sane s.kern.roll
  equipped : Equipped s.kern.roll

theorem solvent_start {k : Kern TaskCtx} (hk : ∀ p, (k.task p).dsqVtime.toNat < 2 ^ 63) :
    Solvent (KernelSide.start k) :=
  ⟨orderly_boot hk,(fun _ _ hctx => by cases hctx),equipped_boot k⟩

section
open KernelSide

theorem Solvent.step {s t : KernelSide} {e : KernelEvent} (hs : Solvent s)
    (hwrap : NoWrap TaskCtx.lastSumExecRuntime s.kern e) (h : serverlessOps.step s e = some t) : Solvent t := by
  refine ⟨(serverlessOps_keepsTime.step hs.orderly hwrap h).orderly,hs.sane.step h,?_⟩
  rw [step_roll h]
  exact hs.equipped.step e

end

namespace KernelSide
variable {s t : KernelSide} {k : Kern TaskCtx} {p q : Proc} {e : KernelEvent}

theorem enqueue_vtime_le (ho : k.Orderly) (p : Proc) (idleCpu : Option ℕ) (q : Proc) :
    (k.task q).dsqVtime.toNat ≤ ((enqueue p idleCpu k).task q).dsqVtime.toNat := by
  unfold enqueue
  cases (k.task p).ctx with
  | none => exact le_rfl
  | some tctx => exact enqueueShared_vtime_le ho.clock_lt p (ho.vtime_lt p) tctx.slice idleCpu q

theorem enable_task_ne (hq : q ≠ p) (alloc : Bool) (s : KernelSide) :
    (enable p alloc s).1.kern.task q = s.kern.task q := by
  have hne : ∀ f, (s.kern.modify p f).task q = s.kern.task q := fun f => modify_task_ne s.kern f hq
  rcases enable_cases p alloc s with ⟨-,-,hres⟩ | ⟨-,hres⟩ <;> rw [hres]
  · exact hne (fun t => { t with dsqVtime := s.kern.globalVtime })
  · exact hne _

/-- A virtual time grows by what is charged and is otherwise raised only. -/
theorem perform_vtime_le (hs : Solvent s) (hissues : s.kern.Issues e)
    (hwrap : NoWrap TaskCtx.lastSumExecRuntime s.kern e) (hold : ¬e.Renews q) :
    (s.kern.task q).dsqVtime.toNat + s.kern.charge TaskCtx.lastSumExecRuntime q e ≤
      ((serverlessOps.perform s e).kern.task q).dsqVtime.toNat := by
  have hkept : ∀ k : Kern TaskCtx, (k.task q).dsqVtime = (s.kern.task q).dsqVtime →
      (s.kern.task q).dsqVtime.toNat ≤ (k.task q).dsqVtime.toNat := fun k hk => (congrArg UInt64.toNat hk).ge
  have hsame : ∀ k : Kern TaskCtx, Same TaskStruct.dsqVtime s.kern k →
      (s.kern.task q).dsqVtime.toNat ≤ (k.task q).dsqVtime.toNat := fun k hk => hkept k (hk.task q)
  cases e with
  | spawn p cpu mm =>
    have hother : (s.kern.modify p (fun _ => ⟨0,0,0,cpu,mm,none,false,.idle⟩)).task q = s.kern.task q :=
      modify_task_ne _ _ (Ne.symm hold)
    exact hkept _ (congrArg TaskStruct.dsqVtime hother)
  | exec p mm => exact hsame _ (exec_same (fun _ _ => rfl) p mm s.kern)
  | tick p ns => exact hsame _ (tick_same (fun _ _ => rfl) p ns s.kern)
  | exit p =>
    have hreap : ∀ k : Kern TaskCtx, ((Kern.reap p k).task q).dsqVtime = (k.task q).dsqVtime := fun k => by
      have h : Same TaskStruct.dsqVtime k (k.modify p (fun t => { t with ctx := none })) := Same.modify rfl
      exact h.task q
    have hleave : Same TaskStruct.dsqVtime s.kern (Kern.leave p s.kern) := leave_same (fun _ => rfl) p s.kern
    unfold SchedExtOps.perform
    dsimp only
    split
    case isTrue => exact hkept _ ((hreap _).trans (hleave.task q))
    case isFalse => exact hkept _ (hreap s.kern)
  | enable p alloc =>
    have hne : q ≠ p := Ne.symm hold
    have henable : ((enable p alloc s).1.kern.task q).dsqVtime = (s.kern.task q).dsqVtime :=
      congrArg TaskStruct.dsqVtime (enable_task_ne hne alloc s)
    have hsettled : Same TaskStruct.dsqVtime (enable p alloc s).1.kern
        (Kern.setEnabled p ((enable p alloc s).1.kern.settle true)) :=
      (settle_same (fun _ _ => rfl) true _).trans (setEnabled_same (fun _ => rfl) p _)
    unfold SchedExtOps.perform
    dsimp only
    split
    case isTrue => exact hkept _ henable
    case isFalse => exact hkept _ ((hsettled.task q).trans henable)
  | disable p => exact hsame _ (leave_same (fun _ => rfl) p s.kern)
  | selectCpu p cpu isIdle =>
    exact hsame _ ((selectCpu_view (fun _ _ => rfl) p cpu isIdle s.kern).trans (settle_same (fun _ _ => rfl) true _))
  | enqueue p idleCpu =>
    have hphase : Same TaskStruct.dsqVtime s.kern (Kern.setPhase p .withheld s.kern) :=
      setPhase_same (fun _ _ => rfl) p _ _
    have hmarked : (Kern.setPhase p .withheld s.kern).Orderly := hs.orderly.setPhase (fun _ => hissues)
    have hsettle : Same TaskStruct.dsqVtime (enqueue p idleCpu (Kern.setPhase p .withheld s.kern)) _ :=
      settle_same (fun _ _ => rfl) false _
    exact (hsame _ hphase).trans ((enqueue_vtime_le hmarked p idleCpu q).trans
      (congrArg UInt64.toNat (hsettle.task q)).ge)
  | dispatch cpu env =>
    have hdispatch : Same TaskStruct.dsqVtime s.kern (dispatch cpu env s.kern) := by
      unfold dispatch
      split
      case isTrue => exact Same.rfl
      case isFalse => exact scanSharedDsq_same (fun _ _ => rfl) cpu env.moves _ s.kern
    exact hsame _ (hdispatch.trans (settle_same (fun _ _ => rfl) false _))
  | running p => exact hsame _ (setPhase_same (fun _ _ => rfl) p _ _)
  | stopping p =>
    have hphase : Same TaskStruct.dsqVtime (stopping p s.kern) (Kern.setPhase p .idle (stopping p s.kern)) :=
      setPhase_same (fun _ _ => rfl) p _ _
    apply le_of_le_of_eq _ (congrArg UInt64.toNat (hphase.task q)).symm
    unfold charge
    dsimp only
    split
    case isFalse hne =>
      have hother : (stopping p s.kern).task q = s.kern.task q := chargeStopping_task_ne (Ne.symm hne)
      rw [hother]
      exact le_rfl
    case isTrue heq =>
      subst heq
      have henabled : (s.kern.roll p).enabled = true := hissues
      obtain ⟨tctx,hctx⟩ := Option.isSome_iff_exists.mp (hs.equipped p henabled)
      exact (chargeStopping_vtime_toNat hctx (hs.sane p tctx hctx).1 hwrap).ge
  | updateIdle cpu idle => exact le_rfl

/-- The unsettled runtime, as the roll shows it. -/
def owed (c : Standing TaskCtx) : ℕ :=
  (c.ctx.map TaskCtx.lastSumExecRuntime).elim 0 (fun b => c.sumExecRuntime.toNat - b.toNat)

theorem owed_roll (k : Kern TaskCtx) (q : Proc) :
    (k.task q).unsettled TaskCtx.lastSumExecRuntime = owed (k.roll q) := rfl

theorem step_owed (hs : Solvent s) (h : serverlessOps.step s e = some t) (hold : ¬e.Renews q)
    (henabled : (t.kern.task q).enabled = true) : (s.kern.task q).enabled = true ∧
      (s.kern.task q).unsettled TaskCtx.lastSumExecRuntime + e.cpuTime q ≤
        (t.kern.task q).unsettled TaskCtx.lastSumExecRuntime +
          s.kern.charge TaskCtx.lastSumExecRuntime q e := by
  have hissues := (SchedExtOps.step_eq_some.mp h).1
  have hroll : t.kern.roll q = Roll.step s.kern.roll e q := congrFun (step_roll h) q
  have henabled : (Roll.step s.kern.roll e q).enabled = true := hroll ▸ henabled
  have hkept : Roll.step s.kern.roll e q = s.kern.roll q → e.cpuTime q = 0 →
      (s.kern.roll q).enabled = true ∧ owed (s.kern.roll q) + e.cpuTime q ≤
        owed (Roll.step s.kern.roll e q) + s.kern.charge TaskCtx.lastSumExecRuntime q e := by
    intro hsame hcpu
    rw [hsame] at henabled ⊢
    exact ⟨henabled,by omega⟩
  rw [owed_roll,owed_roll,hroll]
  cases e with
  | spawn p cpu mm => exact hkept (Function.update_of_ne (Ne.symm hold) _ _) rfl
  | exec p mm =>
    by_cases hq : q = p
    · subst hq
      simp only [Roll.step,Function.update_self] at henabled ⊢
      exact ⟨henabled,le_rfl⟩
    · exact hkept (Function.update_of_ne hq _ _) rfl
  | tick p ns =>
    by_cases hq : q = p
    · subst hq
      have hfits : (s.kern.roll q).sumExecRuntime.toNat + ns < 2 ^ 64 := hissues.2
      simp only [Roll.step,Function.update_self] at henabled ⊢
      obtain ⟨tctx,hctx⟩ := Option.isSome_iff_exists.mp (hs.equipped q henabled)
      have hle := (hs.sane q tctx hctx).1
      have hadded : ((s.kern.roll q).sumExecRuntime + UInt64.ofNat ns).toNat =
          (s.kern.roll q).sumExecRuntime.toNat + ns := by
        rw [UInt64.toNat_add,UInt64.toNat_ofNat']
        omega
      refine ⟨henabled,?_⟩
      simp only [owed,hctx,Option.map_some,Option.elim_some,hadded,KernelEvent.cpuTime,if_pos,charge]
      omega
    · exact hkept (Function.update_of_ne hq _ _) (if_neg (Ne.symm hq))
  | exit p =>
    by_cases hq : q = p
    · subst hq
      simp [Roll.step] at henabled
    · exact hkept (Function.update_of_ne hq _ _) rfl
  | enable p alloc =>
    refine hkept ?_ rfl
    unfold Roll.step
    dsimp only
    split
    case isTrue => exact Function.update_of_ne (Ne.symm hold) _ _
    case isFalse => rfl
  | disable p =>
    by_cases hq : q = p
    · subst hq
      simp [Roll.step] at henabled
    · exact hkept (Function.update_of_ne hq _ _) rfl
  | stopping p =>
    by_cases hq : q = p
    · subst hq
      simp only [Roll.step,Function.update_self] at henabled ⊢
      refine ⟨henabled,?_⟩
      simp only [charge,if_pos,KernelEvent.cpuTime,owed_roll]
      omega
    · exact hkept (Function.update_of_ne hq _ _) rfl
  | _ => exact hkept rfl rfl

theorem creditedStep (hs : Solvent s) (hwrap : NoWrap TaskCtx.lastSumExecRuntime s.kern e)
    (h : serverlessOps.step s e = some t) :
    CreditedStep (E := KernelEvent) Sched.kern some TaskCtx.lastSumExecRuntime s e t := by
  obtain ⟨hissues,hperform⟩ := SchedExtOps.step_eq_some.mp h
  have hadvances := serverlessOps_keepsTime.step hs.orderly hwrap h
  have hcleared : Solvent (s.onKern Kern.clearCalls) :=
    ⟨hs.orderly.frame rfl rfl (Same.of_eq rfl rfl),hs.sane,hs.equipped⟩
  have hissues' : (s.onKern Kern.clearCalls).kern.Issues e := by cases e <;> exact hissues
  have hwrap' : NoWrap TaskCtx.lastSumExecRuntime (s.onKern Kern.clearCalls).kern e := by
    cases e <;> exact hwrap
  have hcharge : ∀ q, (s.onKern Kern.clearCalls).kern.charge TaskCtx.lastSumExecRuntime q e =
      s.kern.charge TaskCtx.lastSumExecRuntime q e := fun q => by cases e <;> rfl
  have hcredits : Credits TaskCtx.lastSumExecRuntime e s.kern t.kern := by
    apply credits_of_charge
    · intro q hold
      have hle := perform_vtime_le hcleared hissues' hwrap' hold
      rw [hcharge,← hperform] at hle
      exact hle
    · exact fun q hold henabled => step_owed hs h hold henabled
  refine ⟨fun he => (Option.some_ne_none _ he).elim,?_,?_,?_⟩ <;> rintro ke ⟨⟩
  · exact hissues
  · exact hadvances
  · exact hcredits

end KernelSide

theorem serverlessOps_scansLast : SchedExtOps.ScansLast serverlessOps := fun _ _ s hcpu =>
  ⟨s.kern,rfl,if_neg hcpu⟩

end ServerlessSched.KernelAssigned
