import ServerlessSched.UserAssigned.DecidedSlices

/-! # What a stop charges

The baseline that `stopping` charges against lives in a task's context, which `enable` creates
and `disable` deletes. The accounts of an observer add up what the stops of a task have
charged, and its meter agrees with them after every step.
-/
namespace ServerlessSched.UserAssigned
open Kern Runs

/-- What the charge of a task is computed from. -/
structure Meter where
  enabled : Bool
  runtime : UInt64
  baseline : Option UInt64

def metered (t : TaskStruct TaskCtx) : Meter :=
  ⟨t.enabled,t.sumExecRuntime,t.ctx.map TaskCtx.lastSumExecRuntime⟩

abbrev Meters := Proc → Meter

def Meters.step (m : Meters) : KernelEvent → Meters
  | .spawn p _ _ => Function.update m p ⟨false,0,none⟩
  | .tick p ns => Function.update m p { m p with runtime := (m p).runtime + UInt64.ofNat ns }
  | .exit p => Function.update m p { m p with enabled := false, baseline := none }
  | .enable p alloc =>
    if (m p).baseline.isSome ∨ alloc = true then
      Function.update m p ⟨true,(m p).runtime,some ((m p).baseline.getD (m p).runtime)⟩
    else m
  | .disable p => Function.update m p { m p with enabled := false, baseline := none }
  | .stopping p => Function.update m p { m p with baseline := (m p).baseline.map (fun _ => (m p).runtime) }
  | _ => m

namespace KernelSide
variable {userschedPid : ℕ} {s t : KernelSide} {k k' : Kern TaskCtx} {p q : Proc}

def meters (s : KernelSide) : Meters := fun q => metered (s.kern.task q)

/-! ## The events on the meters -/

theorem meters_of_same (h : Same metered s.kern t.kern) : t.meters = s.meters := funext h.task

theorem metered_of_standing (h : Same TaskStruct.standing k k') : Same metered k k' :=
  h.map (fun v : Standing TaskCtx => Meter.mk v.enabled v.sumExecRuntime (v.ctx.map TaskCtx.lastSumExecRuntime))

/-- The meters once the task `p` alone has changed. -/
theorem meters_update {m : Meter} (hp : metered (t.kern.task p) = m)
    (hne : ∀ q, q ≠ p → metered (t.kern.task q) = metered (s.kern.task q)) :
    t.meters = Function.update s.meters p m := Function.eq_update_iff.mpr ⟨hp,hne⟩

theorem meters_modify (f : TaskStruct TaskCtx → TaskStruct TaskCtx) (ht : t.kern.task = (s.kern.modify p f).task) :
    t.meters = Function.update s.meters p (metered (f (s.kern.task p))) := by
  apply meters_update
  · rw [ht,modify_task_self]
  · intro q hq
    rw [ht,modify_task_ne _ _ hq]

theorem stopping_meters (p : Proc) (s : KernelSide) :
    meters ((s.onKern (stopping p)).onKern (Kern.setPhase p .idle)) = s.meters.step (.stopping p) := by
  have hphase : meters ((s.onKern (stopping p)).onKern (Kern.setPhase p .idle)) =
      meters (s.onKern (stopping p)) := meters_of_same (setPhase_same (fun _ _ => rfl) p .idle _)
  rw [hphase]
  cases hctx : (s.kern.task p).ctx with
  | none =>
    have hstop : stopping p s.kern = s.kern.scxBpfError s!"Failed to get task ctx for {p.pid}" := by
      unfold stopping chargeStopping
      rw [hctx]
    have hkept : (s.meters p).baseline.map (fun _ => (s.meters p).runtime) = (s.meters p).baseline := by
      simp [meters,metered,hctx]
    rw [Meters.step,hkept,Function.update_eq_self]
    apply meters_of_same
    rw [Sched.onKern_kern,hstop]
    exact Same.record _ _
  | some tctx =>
    have hstop : stopping p s.kern = s.kern.modify p (fun t => { t with
        ctx := some { tctx with lastSumExecRuntime := t.sumExecRuntime }
        dsqVtime := t.dsqVtime + (t.sumExecRuntime - tctx.lastSumExecRuntime) }) := by
      unfold stopping chargeStopping
      rw [hctx]
    apply (meters_modify _ (congrArg Kern.task hstop)).trans
    simp [Meters.step,meters,metered,hctx]

theorem exit_meters (p : Proc) (s : KernelSide) :
    meters ((serverlessOps userschedPid).perform s (.exit p)) = s.meters.step (.exit p) := by
  unfold SchedExtOps.perform
  dsimp only
  cases hp : (s.kern.task p).enabled with
  | true =>
    apply meters_update
    · simp [serverlessOps,disable,Kern.leave,Kern.reap,metered,meters]
    · intro q hq
      simp [serverlessOps,disable,Kern.leave,Kern.reap,hq]
  | false =>
    apply meters_update
    · simp [Kern.reap,metered,meters,hp]
    · intro q hq
      simp [Kern.reap,hq]

theorem enable_meters (p : Proc) (alloc : Bool) (s : KernelSide) :
    meters ((serverlessOps userschedPid).perform s (.enable p alloc)) = s.meters.step (.enable p alloc) := by
  have hstored : (s.meters p).baseline.isSome = (s.kern.task p).ctx.isSome := Option.isSome_map
  rw [SchedExtOps.perform,Meters.step,hstored]
  rcases enable_cases userschedPid p alloc s with ⟨hnone,halloc,hres⟩ | ⟨hok,hres⟩
  · have hfails : ((serverlessOps userschedPid).enable p alloc s).2 < 0 :=
      lt_of_eq_of_lt (congrArg Prod.snd hres) (show -enomem < 0 by decide)
    rw [if_pos hfails,if_neg (by rw [hnone,halloc]; simp)]
    exact (congrArg (fun u : KernelSide × ℤ => u.1.meters) hres).trans
      (meters_of_same (metered_of_standing (refuse_same p s.kern)))
  · have hsucceeds : ¬((serverlessOps userschedPid).enable p alloc s).2 < 0 :=
      not_lt_of_ge (le_of_eq (congrArg Prod.snd hres).symm)
    rw [if_neg hsucceeds,if_pos hok]
    have henrol : Same metered (s.kern.modify p (enrol s.kern.globalVtime))
        ((serverlessOps userschedPid).enable p alloc s).1.kern := by
      rw [show ((serverlessOps userschedPid).enable p alloc s).1 = _ from congrArg Prod.fst hres]
      dsimp only
      split
      case isTrue => exact Same.rfl
      case isFalse =>
        exact metered_of_standing
          (enqueueTaskInUserspace_effect p (s.onKern (fun k => k.modify p (enrol k.globalVtime)))).1
    have hsettle : Same metered ((serverlessOps userschedPid).enable p alloc s).1.kern _ :=
      settle_same (fun _ _ => rfl) true _
    have hadmitted : meters (((serverlessOps userschedPid).enable p alloc s).1.onKern (Kern.settle true)) =
        Function.update s.meters p (metered (enrol s.kern.globalVtime (s.kern.task p))) :=
      (funext (henrol.trans hsettle).task).trans
        (@meters_modify s (s.onKern (fun k => k.modify p (enrol s.kern.globalVtime))) p (enrol s.kern.globalVtime) rfl)
    apply (meters_modify _ rfl).trans
    have hmeter : metered { (((serverlessOps userschedPid).enable p alloc s).1.onKern
        (Kern.settle true)).kern.task p with enabled := true } =
        { metered (enrol s.kern.globalVtime (s.kern.task p)) with enabled := true } := by
      have hp := congrFun hadmitted p
      rw [Function.update_self] at hp
      exact congrArg (fun m : Meter => { m with enabled := true }) hp
    rw [hmeter,hadmitted,Function.update_idem]
    cases hctx : (s.kern.task p).ctx <;> simp [metered,meters,enrol,withStorage,hctx]

theorem dispatch_metered (userschedPid cpu : ℕ) (env : DispatchEnv) (s : KernelSide) :
    Same metered s.kern (dispatch userschedPid cpu env s).kern := by
  have hserved : Same metered s.kern (serveDaemon userschedPid env.reserve s).kern :=
    serveDaemon_same (fun _ _ => rfl) userschedPid env.reserve s
  have hdecided : Same metered s.kern
      (dequeueTasksFromUserspace env.pick (serveDaemon userschedPid env.reserve s)).kern := by
    rw [dequeueTasksFromUserspace_eq]
    refine hserved.trans (applyDecisions_same _ _ _ _ (fun t _ _ _ => ?_))
    simp [metered,Function.comp_def,TaskCtx.decide]
  unfold dispatch
  dsimp only
  split
  case isTrue => exact hdecided
  case isFalse => exact hdecided.trans (scanSharedDsq_same (fun _ _ => rfl) cpu env.moves _ _)

theorem perform_meters (s : KernelSide) (e : KernelEvent) :
    meters ((serverlessOps userschedPid).perform s e) = s.meters.step e := by
  cases e with
  | spawn p cpu mm =>
    exact @meters_modify s (s.onKern (Kern.spawn p cpu mm)) p (fun _ => ⟨0,0,0,cpu,mm,none,false,.idle⟩) rfl
  | exec p mm => exact meters_of_same (exec_same (fun _ _ => rfl) p mm s.kern)
  | tick p ns =>
    exact @meters_modify s (s.onKern (Kern.tick p ns)) p
      (fun t => { t with sumExecRuntime := t.sumExecRuntime + UInt64.ofNat ns }) rfl
  | exit p => exact exit_meters p s
  | enable p alloc => exact enable_meters p alloc s
  | disable p =>
    apply meters_update
    · simp [SchedExtOps.perform,serverlessOps,disable,Kern.leave,metered,meters]
    · intro q hq
      simp [SchedExtOps.perform,serverlessOps,disable,Kern.leave,hq]
  | selectCpu p cpu isIdle =>
    exact meters_of_same ((selectCpu_same (fun _ _ => rfl) p cpu isIdle s.kern).trans
      (settle_same (fun _ _ => rfl) true _))
  | enqueue p idleCpu =>
    have hphase : Same metered s.kern (Kern.setPhase p .withheld s.kern) := setPhase_same (fun _ _ => rfl) p _ _
    have henqueue := metered_of_standing (enqueue_same userschedPid p idleCpu (Kern.setPhase p .withheld s.kern))
    exact meters_of_same ((hphase.trans henqueue).trans (settle_same (fun _ _ => rfl) false _))
  | dispatch cpu env =>
    exact meters_of_same ((dispatch_metered userschedPid cpu env s).trans (settle_same (fun _ _ => rfl) false _))
  | running p =>
    have hphase : Same metered s.kern (Kern.setPhase p .running s.kern) := setPhase_same (fun _ _ => rfl) p _ _
    exact meters_of_same (hphase.trans (running_same p _))
  | stopping p => exact stopping_meters p s
  | updateIdle cpu idle => exact meters_of_same (updateIdle_same cpu idle s)

theorem step_meters {e : KernelEvent} (h : (serverlessOps userschedPid).step s e = some t) :
    t.meters = s.meters.step e := by
  obtain ⟨-,rfl⟩ := SchedExtOps.step_eq_some.mp h
  exact perform_meters (s.onKern Kern.clearCalls) e

theorem step_stopping_vtime {tctx : TaskCtx} (h : (serverlessOps userschedPid).step s (.stopping p) = some t)
    (hctx : (s.kern.task p).ctx = some tctx) : (t.kern.task p).dsqVtime =
      (s.kern.task p).dsqVtime + ((s.kern.task p).sumExecRuntime - tctx.lastSumExecRuntime) := by
  obtain ⟨-,rfl⟩ := SchedExtOps.step_eq_some.mp h
  change ((Kern.setPhase p .idle (stopping p s.kern.clearCalls)).task p).dsqVtime = _
  rw [Kern.setPhase,modify_task_self]
  exact chargeStopping_vtime (k := s.kern.clearCalls) hctx

end KernelSide

/-! ## The accounts -/

/-- What an observer notes about a task: its runtime when it was enabled last, its runtime at
its latest stop (that of the enabling if there is none), and the sum of what the stops since
then have added to its virtual time. -/
structure Account where
  base : UInt64
  settled : UInt64
  charged : ℕ

def audit (s : KernelSide) (e : OpenEvent) (t : KernelSide) (g : Proc → Account) : Proc → Account :=
  match e with
  | .kernel (.enable p _) =>
    if (t.kern.task p).enabled then
      Function.update g p ⟨(s.kern.task p).sumExecRuntime,(s.kern.task p).sumExecRuntime,0⟩
    else g
  | .kernel (.stopping p) => Function.update g p { g p with
      settled := (s.kern.task p).sumExecRuntime
      charged := (g p).charged + ((t.kern.task p).dsqVtime - (s.kern.task p).dsqVtime).toNat }
  | _ => g

/-- The baseline of an enabled task is its runtime when it was charged last, which its runtime
has not fallen behind, and the charges add up; no other task has a baseline. -/
def Balanced (m : Meter) (a : Account) : Prop :=
  (m.enabled = false → m.baseline = none) ∧
  (m.enabled = true → m.baseline = some a.settled ∧ a.settled.toNat ≤ m.runtime.toNat ∧
    a.base.toNat + a.charged = a.settled.toNat)

section Accounts
open KernelSide
variable {userschedPid : ℕ} {s t : KernelSide} {g : Proc → Account}

theorem balanced_of_left {c : Meter} {a : Account} (henabled : c.enabled = false) (hnone : c.baseline = none) :
    Balanced c a := ⟨fun _ => hnone,fun h => by rw [henabled] at h; cases h⟩

theorem balanced_step {e : OpenEvent} (hs : ∀ q, Balanced (s.meters q) (g q))
    (h : openStep userschedPid s e = some t) : ∀ q, Balanced (t.meters q) (audit s e t g q) := by
  cases e with
  | userspace l =>
    cases h
    exact hs
  | kernel e =>
    have hstep : (serverlessOps userschedPid).step s e = some t := h
    obtain ⟨hissues,-⟩ := SchedExtOps.step_eq_some.mp hstep
    have hmeters := step_meters hstep
    cases e with
    | spawn p cpu mm =>
      rw [hmeters]
      exact entries_update hs (balanced_of_left rfl rfl)
    | exit p =>
      rw [hmeters]
      exact entries_update hs (balanced_of_left rfl rfl)
    | disable p =>
      rw [hmeters]
      exact entries_update hs (balanced_of_left rfl rfl)
    | tick p ns =>
      have hfits : (s.kern.task p).sumExecRuntime.toNat + ns < 2 ^ 64 := hissues.2
      rw [hmeters]
      refine entries_update hs ⟨(hs p).1,fun henabled => ?_⟩
      obtain ⟨hbaseline,hle,hsum⟩ := (hs p).2 henabled
      refine ⟨hbaseline,hle.trans ?_,hsum⟩
      change (s.kern.task p).sumExecRuntime.toNat ≤ ((s.kern.task p).sumExecRuntime + UInt64.ofNat ns).toNat
      exact toNat_le_add_ofNat hfits
    | enable p alloc =>
      have hnew : (s.meters p).enabled = false := hissues.2
      have hnone : (s.meters p).baseline = none := (hs p).1 hnew
      have hafter : (t.kern.task p).enabled = (s.meters.step (.enable p alloc) p).enabled :=
        congrArg (fun m : Meters => (m p).enabled) hmeters
      rw [hmeters,audit,hafter]
      unfold Meters.step
      dsimp only
      split
      case isTrue =>
        rw [Function.update_self,if_pos rfl,hnone]
        exact (entries_update_iff hs).mpr ⟨fun hleft => (Bool.noConfusion hleft),fun _ => ⟨rfl,le_rfl,rfl⟩⟩
      case isFalse =>
        rw [hnew,if_neg Bool.false_ne_true]
        exact hs
    | stopping p =>
      have henabled : (s.meters p).enabled = true := hissues
      obtain ⟨hbaseline,hle,hsum⟩ := (hs p).2 henabled
      obtain ⟨tctx,hctx,hlast⟩ := Option.map_eq_some_iff.mp hbaseline
      have hadded : (t.kern.task p).dsqVtime - (s.kern.task p).dsqVtime =
          (s.kern.task p).sumExecRuntime - tctx.lastSumExecRuntime := by
        rw [step_stopping_vtime hstep hctx,UInt64.add_comm,UInt64.add_sub_cancel]
      have hdelta : ((t.kern.task p).dsqVtime - (s.kern.task p).dsqVtime).toNat =
          (s.kern.task p).sumExecRuntime.toNat - (g p).settled.toNat := by
        rw [hadded,hlast]
        exact toNat_sub_of_toNat_le hle
      have hle : (g p).settled.toNat ≤ (s.kern.task p).sumExecRuntime.toNat := hle
      rw [hmeters]
      refine (entries_update_iff hs).mpr ⟨fun hleft => ?_,fun _ => ⟨?_,le_rfl,?_⟩⟩
      · rw [henabled] at hleft
        cases hleft
      · rw [hbaseline]
        rfl
      · dsimp only
        omega
    | _ =>
      rw [hmeters]
      exact hs

/-- The accounts of every run balance, whatever they say at first. -/
theorem balanced_run {k : Kern TaskCtx} {g₀ : Proc → Account} {es : List OpenEvent}
    (hr : run (withGhost (openStep userschedPid) audit) (start k,g₀) es = some (s,g)) :
    ∀ q, Balanced (s.meters q) (g q) :=
  run_invariant (P := fun p : KernelSide × (Proc → Account) => ∀ q, Balanced (p.1.meters q) (p.2 q))
    (fun p e q hp hq => by
      obtain ⟨hstep,hghost⟩ := withGhost_eq_some.mp hq
      rw [hghost]
      exact balanced_step hp hstep)
    (fun q => balanced_of_left rfl rfl) hr

end Accounts

end ServerlessSched.UserAssigned
