import ServerlessSched.UserAssigned.Meters

/-! # CPU time is charged once

A stop adds to the virtual time of its task what the accounts say. Every other change of it is
an insertion that raises it, as long as the signed comparison of the clamp can tell.
-/
namespace ServerlessSched.UserAssigned
open Kern Runs

/-- The virtual time of `q` during a callback that started in `k₀`: as it was, or clamped by an
insertion the callback has asked for. -/
def Clamped (q : Proc) (k₀ k : Kern TaskCtx) : Prop :=
  (k.task q).dsqVtime = (k₀.task q).dsqVtime ∨
    (k.task q).dsqVtime = lagClamp k₀.globalVtime (k₀.task q).dsqVtime ∧
      ∃ i ∈ k.inserts, i.task = q ∧ i.dsq = .shared ∧ i.vtime = some (k.task q).dsqVtime

namespace Clamped
variable {k₀ k k' : Kern TaskCtx} {p q : Proc}

theorem refl : Clamped q k k := Or.inl rfl

theorem of_same (h : Same TaskStruct.dsqVtime k k') : Clamped q k k' := Or.inl (h.task q)

theorem frame (h : Clamped q k₀ k) (hsame : Same TaskStruct.dsqVtime k k') (hinserts : k'.inserts = k.inserts) :
    Clamped q k₀ k' := by
  unfold Clamped
  rw [hsame.task q,hinserts]
  exact h

theorem insertVtime (h : Clamped q k₀ k) (hclock : k.globalVtime = k₀.globalVtime) (p : Proc) (slice : UInt64)
    {v : UInt64} (hv : v = lagClamp k.globalVtime (k.task p).dsqVtime) :
    Clamped q k₀ (k.scxBpfDsqInsertVtime p slice v) := by
  unfold Clamped
  rw [inserts_scxBpfDsqInsertVtime]
  by_cases hq : q = p
  · subst hq
    have hnew : ((k.scxBpfDsqInsertVtime q slice v).task q).dsqVtime = v :=
      congrArg TaskStruct.dsqVtime (modify_task_self _ q _)
    rw [hnew]
    right
    constructor
    · rw [hv,hclock]
      rcases h with hsame | ⟨hclamped,-⟩
      · rw [hsame]
      · rw [hclamped,lagClamp_lagClamp]
    · exact ⟨_,List.mem_append_right _ List.mem_cons_self,rfl,rfl,rfl⟩
  · have hother : (k.scxBpfDsqInsertVtime p slice v).task q = k.task q := modify_task_ne _ _ hq
    rw [hother]
    refine h.imp_right (fun hclamped => ⟨hclamped.1,?_⟩)
    obtain ⟨i,hi,hrest⟩ := hclamped.2
    exact ⟨i,List.mem_append_left _ hi,hrest⟩

theorem kickIdleCpu (h : Clamped q k₀ k) (p : Proc) (idleCpu : Option ℕ) :
    Clamped q k₀ (k.kickIdleCpu p idleCpu) :=
  h.frame (Same.of_eq (kickIdleCpu_pids k p idleCpu) (kickIdleCpu_task k p idleCpu)) (inserts_kickIdleCpu k p idleCpu)

theorem settle (h : Clamped q k₀ k) (force : Bool) : Clamped q k₀ (k.settle force) :=
  h.frame (settle_same (fun _ _ => rfl) force k) (inserts_settle force k)

end Clamped

namespace KernelSide
variable {userschedPid : ℕ} {s t : KernelSide} {k₀ k : Kern TaskCtx} {p q : Proc}

theorem applyDecision_clamped (h : Clamped q k₀ k) (hclock : k.globalVtime = k₀.globalVtime)
    (u : DispatchedTask) (idleCpu : Option ℕ) : Clamped q k₀ (applyDecision u idleCpu k) := by
  rcases applyDecision_cases u idleCpu k with ⟨-,hres⟩ | ⟨p,slice,-,-,hres⟩ <;> rw [hres]
  · exact h
  · have hmarked : Clamped q k₀ (k.modify p (markDecided u.slice)) := h.frame (Same.modify rfl) rfl
    refine (hmarked.insertVtime hclock p slice ?_).kickIdleCpu p idleCpu
    rw [modify_task_self]
    rfl

theorem enqueue_clamped (p : Proc) (idleCpu : Option ℕ) (k : Kern TaskCtx) :
    Clamped q k (enqueue userschedPid p idleCpu k) := by
  unfold enqueue
  split
  case isTrue => exact Clamped.of_same (scxBpfDsqInsert_same k p _ _ (fun _ _ => rfl))
  case isFalse =>
    cases (k.task p).ctx with
    | none => exact Clamped.of_same (Same.record k _)
    | some tctx =>
      dsimp only
      split
      case isTrue => exact (Clamped.refl.insertVtime rfl p tctx.slice rfl).kickIdleCpu p idleCpu
      case isFalse => exact Clamped.refl

theorem dispatch_clamped (cpu : ℕ) (env : DispatchEnv) (s : KernelSide) :
    Clamped q s.kern (dispatch userschedPid cpu env s).kern := by
  have hserved : Clamped q s.kern (serveDaemon userschedPid env.reserve s).kern :=
    Clamped.of_same (serveDaemon_same (fun _ _ => rfl) userschedPid env.reserve s)
  have hdecided : Clamped q s.kern
      (dequeueTasksFromUserspace env.pick (serveDaemon userschedPid env.reserve s)).kern := by
    rw [dequeueTasksFromUserspace_eq]
    have hround : ∀ u ∈ (serveDaemon userschedPid env.reserve s).bss.link.dispatched.items, ∀ idleCpu k,
        k.globalVtime = s.kern.globalVtime ∧ Clamped q s.kern k →
          (applyDecision u idleCpu k).globalVtime = s.kern.globalVtime ∧
            Clamped q s.kern (applyDecision u idleCpu k) := fun u _ idleCpu k hk =>
      ⟨(applyDecision_globalVtime u idleCpu k).trans hk.1,applyDecision_clamped hk.2 hk.1 u idleCpu⟩
    have hloop := applyDecisions_preserves env.pick
      (P := fun k => k.globalVtime = s.kern.globalVtime ∧ Clamped q s.kern k) hround maxEnqueuedTasks
      ⟨serveDaemon_globalVtime userschedPid env.reserve s,hserved⟩
    exact hloop.2
  unfold dispatch
  dsimp only
  split
  case isTrue => exact hdecided
  case isFalse => exact hdecided.frame (scanSharedDsq_same (fun _ _ => rfl) cpu env.moves _ _) (inserts_scanSharedDsq _ _ _ _)

theorem enqueueTaskInUserspace_task_ne (hq : q ≠ p) (s : KernelSide) :
    (enqueueTaskInUserspace p s).kern.task q = s.kern.task q := by
  unfold enqueueTaskInUserspace
  cases s.bss.link.enqueued.push p.pid with
  | none =>
    dsimp only [scxBpfKickCpu,scxBpfDsqInsertVtime]
    rw [record_task,modify_task_ne _ _ hq,record_task]
  | some rest => rfl

theorem enable_task_ne (hq : q ≠ p) (alloc : Bool) (s : KernelSide) :
    (enable userschedPid p alloc s).1.kern.task q = s.kern.task q := by
  have hne : ∀ f, (s.kern.modify p f).task q = s.kern.task q := fun f => modify_task_ne s.kern f hq
  rcases enable_cases userschedPid p alloc s with ⟨-,-,hres⟩ | ⟨-,hres⟩ <;> rw [hres]
  · exact hne (fun t => { t with dsqVtime := s.kern.globalVtime })
  · dsimp only
    split
    case isTrue => exact hne _
    case isFalse => exact (enqueueTaskInUserspace_task_ne hq _).trans (hne _)

theorem disable_vtime_same (p : Proc) (k : Kern TaskCtx) : Same TaskStruct.dsqVtime k (Kern.leave p (disable p k)) :=
  Same.trans (Same.modify rfl) (leave_same (fun _ => rfl) p _)

/-- The events that give `q` a new virtual time. -/
def Renews (q : Proc) : OpenEvent → Prop
  | .kernel (.spawn p _ _) => p = q
  | .kernel (.enable p _) => p = q
  | _ => False

theorem perform_clamped {e : KernelEvent} (hold : ¬Renews q (.kernel e)) (hstop : e ≠ .stopping q)
    (s : KernelSide) : Clamped q s.kern ((serverlessOps userschedPid).perform s e).kern := by
  cases e with
  | spawn p cpu mm =>
    have hq : q ≠ p := Ne.symm hold
    have hother : (s.kern.modify p (fun _ => ⟨0,0,0,cpu,mm,none,false,.idle⟩)).task q = s.kern.task q :=
      modify_task_ne _ _ hq
    exact Or.inl (congrArg TaskStruct.dsqVtime hother)
  | exec p mm => exact Clamped.of_same (exec_same (fun _ _ => rfl) p mm s.kern)
  | tick p ns => exact Clamped.of_same (tick_same (fun _ _ => rfl) p ns s.kern)
  | exit p =>
    have hreap : ∀ k : Kern TaskCtx, ((Kern.reap p k).task q).dsqVtime = (k.task q).dsqVtime := fun k => by
      have hsame : Same TaskStruct.dsqVtime k (k.modify p (fun t => { t with ctx := none })) := Same.modify rfl
      exact hsame.task q
    unfold SchedExtOps.perform
    dsimp only
    split
    case isTrue => exact Or.inl ((hreap _).trans ((disable_vtime_same p s.kern).task q))
    case isFalse => exact Or.inl (hreap _)
  | enable p alloc =>
    have henable : ((enable userschedPid p alloc s).1.kern.task q).dsqVtime = (s.kern.task q).dsqVtime :=
      congrArg TaskStruct.dsqVtime (enable_task_ne (Ne.symm hold) alloc s)
    have hsettled : Same TaskStruct.dsqVtime (enable userschedPid p alloc s).1.kern
        (Kern.setEnabled p ((enable userschedPid p alloc s).1.kern.settle true)) :=
      (settle_same (fun _ _ => rfl) true _).trans (setEnabled_same (fun _ => rfl) p _)
    unfold SchedExtOps.perform
    dsimp only
    split
    case isTrue => exact Or.inl henable
    case isFalse => exact Or.inl ((hsettled.task q).trans henable)
  | disable p => exact Clamped.of_same (disable_vtime_same p s.kern)
  | selectCpu p cpu isIdle =>
    exact Clamped.of_same ((selectCpu_same (fun _ _ => rfl) p cpu isIdle s.kern).trans
      (settle_same (fun _ _ => rfl) true _))
  | enqueue p idleCpu =>
    have hphase : Same TaskStruct.dsqVtime s.kern (Kern.setPhase p .withheld s.kern) :=
      setPhase_same (fun _ _ => rfl) p _ _
    have hafter : Clamped q (Kern.setPhase p .withheld s.kern)
        (enqueue userschedPid p idleCpu (Kern.setPhase p .withheld s.kern)) := enqueue_clamped p idleCpu _
    unfold Clamped at hafter
    rw [hphase.task q] at hafter
    have hfrom : Clamped q s.kern (enqueue userschedPid p idleCpu (Kern.setPhase p .withheld s.kern)) := hafter
    exact hfrom.settle false
  | dispatch cpu env => exact (dispatch_clamped cpu env s).settle false
  | running p =>
    have hphase : Same TaskStruct.dsqVtime s.kern (Kern.setPhase p .running s.kern) :=
      setPhase_same (fun _ _ => rfl) p _ _
    exact Clamped.of_same (hphase.trans (running_same p _))
  | stopping p =>
    have hq : q ≠ p := fun hq => hstop (congrArg KernelEvent.stopping hq.symm)
    have hother : ((stopping p s.kern).task q).dsqVtime = (s.kern.task q).dsqVtime :=
      congrArg TaskStruct.dsqVtime (chargeStopping_task_ne hq)
    have hphase : Same TaskStruct.dsqVtime (stopping p s.kern) (Kern.setPhase p .idle (stopping p s.kern)) :=
      setPhase_same (fun _ _ => rfl) p _ _
    exact Or.inl ((hphase.task q).trans hother)
  | updateIdle cpu idle => exact Clamped.of_same (updateIdle_same cpu idle s)

/-- The virtual time of `q` is less than `2 ^ 63` ahead of the clock minus the lag limit. -/
def WithinReach (k : Kern TaskCtx) (q : Proc) : Prop :=
  lagLimit < k.globalVtime → (k.task q).dsqVtime.toNat < k.globalVtime.toNat - lagLimit.toNat + 2 ^ 63

/-- The charge of `q` does not wrap at its stops, and its insertions find it within reach. -/
def InRange (q : Proc) (s : KernelSide) : OpenEvent → Prop
  | .kernel (.stopping p) => p = q → ∀ tctx, (s.kern.task q).ctx = some tctx →
      (s.kern.task q).dsqVtime.toNat + ((s.kern.task q).sumExecRuntime - tctx.lastSumExecRuntime).toNat < 2 ^ 64
  | .kernel (.enqueue p _) => p = q → (∃ tctx, (s.kern.task q).ctx = some tctx ∧ tctx.hasSlice = true) →
      WithinReach s.kern q
  | .kernel (.dispatch _ _) => (∃ u ∈ s.bss.link.dispatched.items, s.kern.pids.holder u.pid = some q) →
      WithinReach s.kern q
  | _ => True

/-- The ways in which a step may change the virtual time of a task. -/
inductive Moved (q : Proc) (s : KernelSide) (e : OpenEvent) (t : KernelSide) : Prop
  | kept (h : (t.kern.task q).dsqVtime = (s.kern.task q).dsqVtime)
  | charged (tctx : TaskCtx) (he : e = .kernel (.stopping q)) (hctx : (s.kern.task q).ctx = some tctx)
      (h : (t.kern.task q).dsqVtime.toNat = (s.kern.task q).dsqVtime.toNat +
        ((s.kern.task q).sumExecRuntime.toNat - tctx.lastSumExecRuntime.toNat))
  | raised (i : DsqInsert TaskCtx) (hi : i ∈ t.kern.inserts) (htask : i.task = q) (hdsq : i.dsq = .shared)
      (hvtime : i.vtime = some (t.kern.task q).dsqVtime)
      (hlt : (s.kern.task q).dsqVtime.toNat < (t.kern.task q).dsqVtime.toNat)
      (h : (t.kern.task q).dsqVtime.toNat + lagLimit.toNat = s.kern.globalVtime.toNat)

theorem Moved.le {e : OpenEvent} (h : Moved q s e t) :
    (s.kern.task q).dsqVtime.toNat ≤ (t.kern.task q).dsqVtime.toNat := by
  cases h with
  | kept h => exact (congrArg UInt64.toNat h).ge
  | charged tctx he hctx h => omega
  | raised i hi htask hdsq hvtime hlt h => exact hlt.le

/-- An insertion into the shared queue finds its task within reach, if the event is in range. -/
theorem withinReach_of_insert {e : KernelEvent} (h : (serverlessOps userschedPid).step s e = some t)
    (hold : ¬Renews q (.kernel e)) (hin : InRange q s (.kernel e)) {i : DsqInsert TaskCtx}
    (hi : i ∈ t.kern.inserts) (htask : i.task = q) (hdsq : i.dsq = .shared) : WithinReach s.kern q := by
  subst htask
  cases step_inserts h hi with
  | fallback hi' _ _ _ _ => exact absurd hi'.symm hold
  | direct _ hlocal _ _ _ =>
    rw [hdsq] at hlocal
    cases hlocal
  | enqueued hi' _ hctx hslice _ =>
    subst hi'
    exact hin rfl ⟨_,hctx,hslice⟩
  | daemonEnqueued _ _ hglobal =>
    rw [hdsq] at hglobal
    cases hglobal
  | daemonServed _ hglobal =>
    rw [hdsq] at hglobal
    cases hglobal
  | decision hu hi' => exact hin ⟨_,hu,hi'.holder⟩

theorem moved_step {g : Proc → Account} {e : OpenEvent} (hs : ∀ q, Balanced (s.meters q) (g q))
    (h : openStep userschedPid s e = some t) (hold : ¬Renews q e) (hin : InRange q s e) : Moved q s e t := by
  cases e with
  | userspace l =>
    cases h
    exact .kept rfl
  | kernel e =>
    have hstep : (serverlessOps userschedPid).step s e = some t := h
    obtain ⟨hissues,hperform⟩ := SchedExtOps.step_eq_some.mp hstep
    by_cases hstop : e = .stopping q
    · subst hstop
      have henabled : (s.meters q).enabled = true := hissues
      obtain ⟨hbaseline,hle,-⟩ := (hs q).2 henabled
      obtain ⟨tctx,hctx,hlast⟩ := Option.map_eq_some_iff.mp hbaseline
      have hle' : tctx.lastSumExecRuntime.toNat ≤ (s.kern.task q).sumExecRuntime.toNat := hlast ▸ hle
      have hdelta : ((s.kern.task q).sumExecRuntime - tctx.lastSumExecRuntime).toNat =
          (s.kern.task q).sumExecRuntime.toNat - tctx.lastSumExecRuntime.toNat :=
        toNat_sub_of_toNat_le hle'
      have hfits := hin rfl tctx hctx
      refine .charged tctx rfl hctx ?_
      rw [step_stopping_vtime hstep hctx,UInt64.toNat_add,Nat.mod_eq_of_lt hfits,hdelta]
    · have hclamped : Clamped q s.kern t.kern := by
        rw [hperform]
        exact perform_clamped hold hstop (s.onKern Kern.clearCalls)
      rcases hclamped with hsame | ⟨hv,i,hi,htask,hdsq,hvtime⟩
      · exact .kept hsame
      · have hreach := withinReach_of_insert hstep hold hin hi htask hdsq
        rcases lagClamp_raises hreach with hsame | ⟨hlt,hlag⟩
        · exact .kept (hv.trans hsame)
        · rw [← hv] at hlt hlag
          exact .raised i hi htask hdsq hvtime hlt hlag

/-- Between two enablings a virtual time never decreases. -/
theorem vtime_le_of_run {g : Proc → Account} {es : List OpenEvent} (hs : ∀ q, Balanced (s.meters q) (g q))
    (hr : run (openStep userschedPid) s es = some t) (hold : ∀ e ∈ es, ¬Renews q e)
    (hin : Along (openStep userschedPid) (InRange q) s es) :
    (s.kern.task q).dsqVtime.toNat ≤ (t.kern.task q).dsqVtime.toNat := by
  induction es generalizing s g with
  | nil =>
    cases hr
    exact le_rfl
  | cons e es ih =>
    obtain ⟨u,hu,hr⟩ := run_cons_eq_some.mp hr
    obtain ⟨hin,hrest⟩ := hin u hu
    have hmoved := moved_step hs hu (hold e List.mem_cons_self) hin
    exact hmoved.le.trans (ih (balanced_step hs hu) hr (fun f hf => hold f (List.mem_cons_of_mem e hf)) hrest)

end KernelSide

open KernelSide in
/-- In every run the stops of an enabled task have charged the runtime between its enabling and
its latest stop, no more and no less, and the next charge cannot underflow. As long as its
times stay in range its virtual time never decreases until it is enabled anew, and what
changes it is a charge or an insertion that raises it to the clock minus the lag limit. -/
theorem charged_once {userschedPid : ℕ} {k : Kern TaskCtx} {g₀ : Proc → Account} {es : List OpenEvent}
    {s : KernelSide} {g : Proc → Account}
    (hr : run (withGhost (openStep userschedPid) audit) (start k,g₀) es = some (s,g)) :
    (∀ p, (s.kern.task p).enabled = true → ∃ tctx, (s.kern.task p).ctx = some tctx ∧
      tctx.lastSumExecRuntime = (g p).settled ∧
      tctx.lastSumExecRuntime.toNat ≤ (s.kern.task p).sumExecRuntime.toNat ∧
      (g p).base.toNat + (g p).charged = (g p).settled.toNat) ∧
    (∀ q e t, openStep userschedPid s e = some t → ¬Renews q e → InRange q s e → Moved q s e t) ∧
    ∀ q fs t, run (openStep userschedPid) s fs = some t → (∀ e ∈ fs, ¬Renews q e) →
      Along (openStep userschedPid) (InRange q) s fs →
        (s.kern.task q).dsqVtime.toNat ≤ (t.kern.task q).dsqVtime.toNat := by
  have hs := balanced_run hr
  refine ⟨fun p henabled => ?_,fun q e t => moved_step hs,fun q fs t => vtime_le_of_run hs⟩
  obtain ⟨hbaseline,hle,hsum⟩ := (hs p).2 henabled
  obtain ⟨tctx,hctx,hlast⟩ := Option.map_eq_some_iff.mp hbaseline
  exact ⟨tctx,hctx,hlast,hlast ▸ hle,hsum⟩

/-- PID 7 is enabled and decided, runs for five milliseconds and stops. -/
def chargedStop : List OpenEvent :=
  decidedOnce ++ [.kernel (.running ⟨7,0⟩),.kernel (.tick ⟨7,0⟩ 5000000),.kernel (.stopping ⟨7,0⟩)]

open KernelSide in
theorem charged_once_stop :
    ∃ s g, run (withGhost (openStep 1) audit) (start Kern.fresh,fun _ => ⟨0,0,0⟩) chargedStop = some (s,g) ∧
      (g ⟨7,0⟩).charged = 5000000 ∧
      ∀ t, openStep 1 s (.kernel (.enqueue ⟨7,0⟩ none)) = some t →
        5000000 ≤ (t.kern.task ⟨7,0⟩).dsqVtime.toNat := by
  obtain ⟨p,hr,henabled,hbase,hsettled,hvtime,hclock⟩ : ∃ p,
      run (withGhost (openStep 1) audit) (start Kern.fresh,fun _ => ⟨0,0,0⟩) chargedStop = some p ∧
      (p.1.kern.task ⟨7,0⟩).enabled = true ∧ (p.2 ⟨7,0⟩).base = 0 ∧ (p.2 ⟨7,0⟩).settled = 5000000 ∧
      (p.1.kern.task ⟨7,0⟩).dsqVtime = 5000000 ∧ p.1.kern.globalVtime = 0 :=
    ⟨_,rfl,rfl,rfl,rfl,rfl,rfl⟩
  obtain ⟨hcharged,hmoved,-⟩ := charged_once hr
  obtain ⟨tctx,-,-,-,hsum⟩ := hcharged ⟨7,0⟩ henabled
  refine ⟨p.1,p.2,hr,?_,fun t ht => ?_⟩
  · rw [hbase,hsettled] at hsum
    simpa using hsum
  · have hreach : InRange ⟨7,0⟩ p.1 (.kernel (.enqueue ⟨7,0⟩ none)) := fun _ _ hlag => by
      rw [hclock] at hlag
      exact absurd hlag (by decide)
    have hle := (hmoved ⟨7,0⟩ _ t ht id hreach).le
    rw [hvtime] at hle
    exact hle

/-- PID 7 is charged more than `2 ^ 63` nanoseconds at one stop; then PID 8 runs and moves the
clock past the lag limit. -/
def chargedFar : List OpenEvent :=
  decidedOnce ++ [.kernel (.running ⟨7,0⟩),.kernel (.tick ⟨7,0⟩ (2 ^ 63 + 20000001)),.kernel (.stopping ⟨7,0⟩),
    .kernel (.spawn ⟨8,0⟩ 1 ⟨0,0,fun _ => none⟩),.kernel (.enable ⟨8,0⟩ true),.kernel (.running ⟨8,0⟩),
    .kernel (.tick ⟨8,0⟩ 20000001),.kernel (.stopping ⟨8,0⟩),.kernel (.running ⟨8,0⟩)]

open KernelSide in
/-- Nothing has wrapped, both virtual times are what the stops have charged; but the next
insertion of PID 7 takes its virtual time for one behind the clock and lowers it to 1. -/
theorem vtime_lowered :
    ∃ s g t, run (withGhost (openStep 1) audit) (start Kern.fresh,fun _ => ⟨0,0,0⟩) chargedFar = some (s,g) ∧
      (s.kern.task ⟨7,0⟩).dsqVtime.toNat = (g ⟨7,0⟩).charged ∧
      (s.kern.task ⟨8,0⟩).dsqVtime.toNat = (g ⟨8,0⟩).charged ∧
      openStep 1 s (.kernel (.enqueue ⟨7,0⟩ none)) = some t ∧
      (s.kern.task ⟨7,0⟩).enabled = true ∧ (t.kern.task ⟨7,0⟩).enabled = true ∧
      (s.kern.task ⟨7,0⟩).dsqVtime.toNat = 2 ^ 63 + 20000001 ∧ (t.kern.task ⟨7,0⟩).dsqVtime.toNat = 1 :=
  ⟨_,_,_,rfl,by decide +kernel,by decide +kernel,rfl,by decide +kernel,by decide +kernel,by decide +kernel,
    by decide +kernel⟩

end ServerlessSched.UserAssigned
