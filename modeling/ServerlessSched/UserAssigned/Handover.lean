import ServerlessSched.Kernel.Handover
import ServerlessSched.UserAssigned.DecidedSlices

/-! # Whom the userspace-assigned scheduler withholds

Exactly the enabled tasks without a decision, never the daemon. As long as no storage is refused
the callbacks find the context of every enabled task, and report only a daemon that is gone and a
full ring buffer.
-/
namespace ServerlessSched.UserAssigned
open Kern Runs

namespace KernelSide
variable {userschedPid : ℕ} {s t : KernelSide} {k : Kern TaskCtx} {p q : Proc} {e : KernelEvent}

/-- What is reported at an event: at a dispatch that lets the daemon in, a daemon that is gone and a
full ring buffer. -/
def reports (userschedPid : ℕ) (s : KernelSide) : KernelEvent → List String
  | .dispatch _ env =>
    if s.bss.link.userschedNeeded then
      (if (s.kern.pids.holder userschedPid).isSome then [] else [s!"Failed to find usersched task {userschedPid}"]) ++
        if env.reserve then [] else ["failed to reserve ringbuf slot\n"]
    else []
  | _ => []

/-! ## Phases -/

theorem enqueueTaskInUserspace_phase (p : Proc) (s : KernelSide) :
    Same TaskStruct.phase s.kern (enqueueTaskInUserspace p s).kern := by
  unfold enqueueTaskInUserspace
  cases s.bss.link.enqueued.push p.pid with
  | none => exact (scxBpfDsqInsertVtime_same _ p _ _ (fun _ _ _ => rfl)).trans (Same.record _ _)
  | some q => exact Same.rfl

theorem enable_phase (userschedPid : ℕ) (p : Proc) (alloc : Bool) (s : KernelSide) :
    Same TaskStruct.phase s.kern (enable userschedPid p alloc s).1.kern := by
  have henrol : Same TaskStruct.phase s.kern (s.kern.modify p (enrol s.kern.globalVtime)) := Same.modify rfl
  rcases enable_cases userschedPid p alloc s with ⟨-,-,hres⟩ | ⟨-,hres⟩ <;> rw [hres]
  · exact Same.trans (Same.modify rfl) (Same.record _ _)
  · dsimp only
    split
    case isTrue => exact henrol
    case isFalse =>
      exact henrol.trans (enqueueTaskInUserspace_phase p (s.onKern (fun k => k.modify p (enrol k.globalVtime))))

theorem enqueue_phase (userschedPid : ℕ) (p : Proc) (idleCpu : Option ℕ) (k : Kern TaskCtx) :
    Same TaskStruct.phase k (enqueue userschedPid p idleCpu k) := by
  unfold enqueue
  split
  case isTrue => exact scxBpfDsqInsert_same k p _ _ (fun _ _ => rfl)
  case isFalse =>
    cases (k.task p).ctx with
    | none => exact Same.record k _
    | some tctx =>
      dsimp only
      split
      case isTrue => exact enqueueShared_same k p _ idleCpu (fun _ _ _ => rfl)
      case isFalse => exact Same.rfl

theorem dispatch_withheld {cpu : ℕ} {env : DispatchEnv} (hq : (dispatch userschedPid cpu env s).kern.Withheld q) :
    s.kern.Withheld q := by
  have hdecided : Same TaskStruct.phase s.kern
      (dequeueTasksFromUserspace env.pick (serveDaemon userschedPid env.reserve s)).kern := by
    rw [dequeueTasksFromUserspace_eq]
    exact (serveDaemon_same (fun _ _ => rfl) userschedPid env.reserve s).trans
      (applyDecisions_same _ _ _ _ (fun _ _ _ _ => rfl))
  unfold dispatch at hq
  dsimp only at hq
  split at hq
  case isTrue => exact withheld_of_same hdecided hq
  case isFalse => exact withheld_of_same hdecided (withheld_scanSharedDsq hq)

theorem serverlessOps_neverWithholds : SchedExtOps.NeverWithholds (serverlessOps userschedPid) where
  selectCpu p cpu isIdle s _ hq := withheld_of_same (selectCpu_same (fun _ _ => rfl) p cpu isIdle s.kern) hq
  enqueue p idleCpu s _ hq := withheld_of_same (enqueue_phase userschedPid p idleCpu s.kern) hq
  dispatch _ _ _ _ hq := dispatch_withheld hq
  running p s _ hq := withheld_of_same (running_same p s.kern) hq
  stopping _ _ _ hq := withheld_of_same (chargeStopping_same (fun _ _ _ _ => rfl) _ _) hq
  updateIdle cpu idle s _ hq := withheld_of_same (updateIdle_same cpu idle s) hq
  enable p alloc s _ hq := withheld_of_same (enable_phase userschedPid p alloc s) hq
  disable p s _ hq := by
    have hsame : Same TaskStruct.phase s.kern (disable p s.kern) := Same.modify rfl
    exact withheld_of_same hsame hq

/-! ## Errors -/

theorem selectCpu_errors (h : (k.task p).ctx.isSome) (cpu : ℕ) (isIdle : Bool) :
    (selectCpu p cpu isIdle k).errors = k.errors := by
  obtain ⟨tctx,hctx⟩ := Option.isSome_iff_exists.mp h
  unfold selectCpu
  split
  case isFalse => rfl
  case isTrue =>
    rw [hctx]
    dsimp only
    split
    case isTrue => rw [errors_scxBpfKickCpu,errors_scxBpfDsqInsert]
    case isFalse => rfl

theorem enqueue_errors (h : (k.task p).ctx.isSome) (idleCpu : Option ℕ) :
    (enqueue userschedPid p idleCpu k).errors = k.errors := by
  obtain ⟨tctx,hctx⟩ := Option.isSome_iff_exists.mp h
  unfold enqueue
  split
  case isTrue => exact errors_scxBpfDsqInsert _ _ _ _
  case isFalse =>
    rw [hctx]
    dsimp only
    split
    case isTrue => exact errors_enqueueShared _ _ _ _
    case isFalse => rfl

theorem serveDaemon_errors (cpu : ℕ) (env : DispatchEnv) (s : KernelSide) :
    (serveDaemon userschedPid env.reserve s).kern.errors = s.kern.errors ++ reports userschedPid s (.dispatch cpu env) := by
  rw [serveDaemon_kern,reports]
  split
  case isFalse => exact (List.append_nil _).symm
  case isTrue =>
    unfold callDaemon
    cases s.kern.pids.holder userschedPid <;> cases env.reserve <;> simp

theorem applyDecision_errors (u : DispatchedTask) (idleCpu : Option ℕ) (k : Kern TaskCtx) :
    (applyDecision u idleCpu k).errors = k.errors := by
  rcases applyDecision_cases u idleCpu k with ⟨-,h⟩ | ⟨p,slice,-,-,h⟩ <;> rw [h]
  rw [errors_kickIdleCpu,errors_scxBpfDsqInsertVtime,errors_modify]

theorem dispatch_errors (cpu : ℕ) (env : DispatchEnv) (s : KernelSide) :
    (dispatch userschedPid cpu env s).kern.errors = s.kern.errors ++ reports userschedPid s (.dispatch cpu env) := by
  have hdecided : (dequeueTasksFromUserspace env.pick (serveDaemon userschedPid env.reserve s)).kern.errors =
      s.kern.errors ++ reports userschedPid s (.dispatch cpu env) := by
    rw [dequeueTasksFromUserspace_eq,← serveDaemon_errors cpu env s]
    exact applyDecisions_preserves env.pick
      (P := fun k => k.errors = (serveDaemon userschedPid env.reserve s).kern.errors)
      (fun u _ idleCpu k hk => (applyDecision_errors u idleCpu k).trans hk) maxEnqueuedTasks rfl
  unfold dispatch
  dsimp only
  split
  case isTrue => exact hdecided
  case isFalse => exact (errors_scanSharedDsq _ _ _ _).trans hdecided

theorem enable_of_granted (p : Proc) (s : KernelSide) :
    (enable userschedPid p true s).1.kern.errors = s.kern.errors ∧ (enable userschedPid p true s).2 = 0 := by
  rcases enable_cases userschedPid p true s with ⟨-,hfalse,-⟩ | ⟨-,hres⟩
  · cases hfalse
  · rw [hres]
    refine ⟨?_,rfl⟩
    dsimp only
    split
    case isTrue => rfl
    case isFalse =>
      unfold enqueueTaskInUserspace
      cases (s.onKern (fun k => k.modify p (enrol k.globalVtime))).bss.link.enqueued.push p.pid <;> simp

theorem serverlessOps_succeeds : (serverlessOps userschedPid).Succeeds := fun p s => (enable_of_granted p s).2

theorem updateIdle_errors (cpu : ℕ) (idle : Bool) (s : KernelSide) :
    (updateIdle cpu idle s).kern.errors = s.kern.errors := by
  unfold updateIdle
  split
  case isFalse => rfl
  case isTrue =>
    split
    case isTrue => exact errors_scxBpfKickCpu _ _ _
    case isFalse => rfl

theorem perform_errors (hs : s.board.Sound) (hissues : s.kern.Issues e) (he : e.Granted)
    (hnone : s.kern.errors = []) : ((serverlessOps userschedPid).perform s e).kern.errors = reports userschedPid s e := by
  have hctx : ∀ p, (s.kern.task p).enabled = true → (s.kern.task p).ctx.isSome := fun p henabled =>
    Option.isSome_map.symm.trans ((hs.status_isSome p).trans henabled)
  cases e with
  | spawn p cpu mm => exact hnone
  | exec p mm => exact hnone
  | tick p ns => exact hnone
  | exit p =>
    unfold SchedExtOps.perform
    dsimp only
    split <;> exact hnone
  | enable p alloc =>
    obtain rfl : alloc = true := he
    have henable : (enable userschedPid p true s).1.kern.errors = [] := (enable_of_granted p s).1.trans hnone
    unfold SchedExtOps.perform
    dsimp only
    split
    case isTrue => exact henable
    case isFalse => exact (errors_settle true _).trans henable
  | disable p => exact hnone
  | selectCpu p cpu isIdle =>
    exact ((errors_settle true _).trans (selectCpu_errors (hctx p hissues) cpu isIdle)).trans hnone
  | enqueue p idleCpu =>
    have hmarked : ((Kern.setPhase p .withheld s.kern).task p).ctx.isSome := by
      rw [setPhase_ctx]
      exact hctx p hissues
    exact ((errors_settle false _).trans (enqueue_errors hmarked idleCpu)).trans hnone
  | dispatch cpu env =>
    apply (errors_settle false _).trans
    exact (dispatch_errors cpu env s).trans (by rw [hnone]; rfl)
  | running p =>
    have hrunning : (running p (Kern.setPhase p .running s.kern)).errors = (Kern.setPhase p .running s.kern).errors := by
      unfold running
      split <;> rfl
    exact hrunning.trans hnone
  | stopping p => exact (errors_chargeStopping (hctx p hissues)).trans hnone
  | updateIdle cpu idle => exact (updateIdle_errors cpu idle s).trans hnone

/-! ## Who is withheld -/

/-- An enabled task other than the daemon that has no slice yet. -/
def Undecided (userschedPid : ℕ) (s : KernelSide) (q : Proc) : Prop :=
  (s.kern.task q).enabled = true ∧ q.pid ≠ userschedPid ∧
    ∃ tctx, (s.kern.task q).ctx = some tctx ∧ tctx.hasSlice = false

theorem undecided_iff : Undecided userschedPid s q ↔
    s.board.enabled q = true ∧ q.pid ≠ userschedPid ∧ s.board.status q = some none := by
  have hverdict : ∀ tctx : TaskCtx, tctx.verdict = none ↔ tctx.hasSlice = false := by
    intro tctx
    simp [TaskCtx.verdict]
  have hstatus : s.board.status q = some none ↔
      ∃ tctx, (s.kern.task q).ctx = some tctx ∧ tctx.hasSlice = false :=
    Option.map_eq_some_iff.trans (exists_congr fun tctx => and_congr_right fun _ => hverdict tctx)
  rw [hstatus]
  exact Iff.rfl

theorem Undecided.of_board (h : Undecided userschedPid s q) (henabled : t.board.enabled q = s.board.enabled q)
    (hstatus : t.board.status q = s.board.status q) : Undecided userschedPid t q := by
  rw [undecided_iff] at h ⊢
  rw [henabled,hstatus]
  exact h

/-- A task that is handed over is inserted or has no slice. -/
theorem enqueue_inserted (hctx : (k.task q).ctx.isSome) (idleCpu : Option ℕ) :
    (∃ i ∈ (enqueue userschedPid q idleCpu k).inserts, i.task = q) ∨
      q.pid ≠ userschedPid ∧ (∃ tctx, (k.task q).ctx = some tctx ∧ tctx.hasSlice = false) ∧
        enqueue userschedPid q idleCpu k = k := by
  obtain ⟨tctx,hctx⟩ := Option.isSome_iff_exists.mp hctx
  unfold enqueue
  split
  case isTrue =>
    rw [inserts_scxBpfDsqInsert]
    exact Or.inl ⟨_,List.mem_append_right _ List.mem_cons_self,rfl⟩
  case isFalse hpid =>
    rw [hctx]
    dsimp only
    split
    case isTrue =>
      rw [inserts_enqueueShared]
      exact Or.inl ⟨_,List.mem_append_right _ List.mem_cons_self,rfl⟩
    case isFalse hslice => exact Or.inr ⟨hpid,⟨tctx,rfl,Bool.eq_false_iff.mpr hslice⟩,rfl⟩

theorem decisions_nil_of_not_inserted {cpu : ℕ} {env : DispatchEnv}
    (h : (serverlessOps userschedPid).step s (.dispatch cpu env) = some t) (hq : ∀ i ∈ t.kern.inserts, i.task ≠ q) :
    decisionsFor s.kern.pids q s.bss.link.dispatched.items = [] := by
  obtain ⟨is,his,hall⟩ := step_dispatch_inserts h
  refine List.eq_nil_iff_forall_not_mem.mpr (fun d hd => ?_)
  obtain ⟨u,hu,hholder,-⟩ := mem_decisionsFor.mp hd
  have hlisted : u ∈ s.bss.link.dispatched.items.filter (fun u => (s.kern.pids.holder u.pid).isSome) :=
    List.mem_filter.mpr ⟨hu,by rw [hholder]; rfl⟩
  obtain ⟨i,hi,hui⟩ := exists_entry hall hlisted
  refine hq i ?_ (Option.some.inj (hui.holder.symm.trans hholder))
  rw [his]
  exact List.mem_append_right _ hi

/-- A task without a slice that an event spares stays without one, unless the event decides it. -/
theorem Undecided.step (hs : Undecided userschedPid s q) (h : (serverlessOps userschedPid).step s e = some t)
    (hspares : s.kern.Spares q e) (hq : t.kern.Withheld q) : Undecided userschedPid t q := by
  obtain ⟨hadmits,hboard⟩ := board_step h
  have hsame : t.board = s.board → Undecided userschedPid t q := fun hb => hs.of_board (by rw [hb]) (by rw [hb])
  have hleave : ∀ p pids, p ≠ q → t.board = { s.board.leave p with pids := pids } → Undecided userschedPid t q := by
    intro p pids hne hb
    apply hs.of_board
    · rw [hb]
      exact Function.update_of_ne (Ne.symm hne) _ _
    · rw [hb]
      exact Function.update_of_ne (Ne.symm hne) _ _
  cases e with
  | spawn p cpu mm => exact hleave p _ hspares hboard
  | exit p =>
    refine hleave p _ (fun heq => ?_) hboard
    have henabled := hs.1
    rw [hspares heq] at henabled
    cases henabled
  | disable p => exact hleave p s.board.pids hspares hboard
  | enable p alloc =>
    have hne : q ≠ p := by
      rintro rfl
      have henabled : s.board.enabled q = true := hs.1
      rw [hadmits.2] at henabled
      cases henabled
    unfold Board.step at hboard
    dsimp only at hboard
    split at hboard
    case isFalse => exact hsame hboard
    case isTrue =>
      apply hs.of_board
      · rw [hboard]
        exact Function.update_of_ne hne _ _
      · rw [hboard]
        exact Function.update_of_ne hne _ _
  | dispatch cpu env =>
    have hnone := decisions_nil_of_not_inserted h (SchedExtOps.not_inserted h hq (Or.inr ⟨cpu,env,rfl⟩))
    apply hs.of_board
    · rw [hboard]
      rfl
    · rw [hboard]
      exact Board.consume_status_of_none (List.getLast?_eq_none_iff.mpr hnone)
  | _ => exact hsame hboard

/-- Withheld tasks have no slice. -/
def WithheldUndecided (userschedPid : ℕ) (s : KernelSide) : Prop :=
  s.board.Sound ∧ ∀ q, s.kern.Withheld q → Undecided userschedPid s q

theorem enqueue_withheld_iff {idleCpu : Option ℕ} (hs : s.board.Sound)
    (h : (serverlessOps userschedPid).step s (.enqueue q idleCpu) = some t) :
    t.kern.Withheld q ↔ Undecided userschedPid s q := by
  obtain ⟨hissues,hperform⟩ := SchedExtOps.step_eq_some.mp h
  have hctx : ((Kern.setPhase q .withheld s.kern.clearCalls).task q).ctx = (s.kern.task q).ctx :=
    setPhase_ctx .withheld s.kern.clearCalls
  have hsome : ((Kern.setPhase q .withheld s.kern.clearCalls).task q).ctx.isSome := by
    rw [hctx]
    exact Option.isSome_map.symm.trans ((hs.status_isSome q).trans hissues)
  have hkern : t.kern = (enqueue userschedPid q idleCpu (Kern.setPhase q .withheld s.kern.clearCalls)).settle false :=
    congrArg Sched.kern hperform
  have hcases := @enqueue_inserted userschedPid _ q hsome idleCpu
  rcases hcases with ⟨i,hi,htask⟩ | ⟨hpid,⟨tctx,htctx,hslice⟩,hnone⟩
  · rw [hkern]
    refine iff_of_false (fun hq => (withheld_settle hq).2 i hi htask) ?_
    rintro ⟨-,hpid,tctx,htctx,hslice⟩
    have hnothing : enqueue userschedPid q idleCpu (Kern.setPhase q .withheld s.kern.clearCalls) =
        Kern.setPhase q .withheld s.kern.clearCalls := by
      unfold enqueue
      rw [if_neg hpid,hctx,htctx]
      exact if_neg (by rw [hslice]; decide)
    rw [hnothing] at hi
    cases hi
  · refine iff_of_true ?_ ⟨hissues,hpid,tctx,hctx.symm.trans htctx,hslice⟩
    have hnothing : (Kern.setPhase q .withheld s.kern.clearCalls).settle false =
        Kern.setPhase q .withheld s.kern.clearCalls := rfl
    rw [hkern,hnone,hnothing]
    exact congrArg TaskStruct.phase (modify_task_self s.kern.clearCalls q (fun t => { t with phase := .withheld }))

theorem WithheldUndecided.kernel (hs : WithheldUndecided userschedPid s)
    (h : (serverlessOps userschedPid).step s e = some t) : WithheldUndecided userschedPid t := by
  obtain ⟨hadmits,hboard⟩ := board_step h
  refine ⟨by rw [hboard]; exact hs.1.step hadmits,fun q hq => ?_⟩
  rcases serverlessOps_neverWithholds.withheld h hq with ⟨idleCpu,rfl⟩ | ⟨hold,hspares⟩
  · have hsame : t.board = s.board := hboard
    exact ((enqueue_withheld_iff hs.1 h).mp hq).of_board (by rw [hsame]) (by rw [hsame])
  · exact (hs.2 q hold).step h hspares hq

theorem withheldUndecided_run {k : Kern TaskCtx} {es : List OpenEvent}
    (hr : run (openStep userschedPid) (start k) es = some s) : WithheldUndecided userschedPid s := by
  refine run_invariant (fun s e t hs ht => ?_)
    ⟨⟨fun _ => rfl,fun _ h => by cases h⟩,fun q hq => by cases hq⟩ hr
  cases e with
  | kernel e => exact hs.kernel ht
  | userspace l =>
    cases ht
    exact ⟨⟨hs.1.status_isSome,hs.1.live⟩,hs.2⟩

/-- The same events where the kernel takes no code from `enable`. -/
def openStepVoid (userschedPid : ℕ) (s : KernelSide) : OpenEvent → Option KernelSide
  | .kernel e => (serverlessOps userschedPid).void.step s e
  | .userspace l => some (s.setLink l)

end KernelSide

def OpenEvent.Granted : OpenEvent → Prop
  | .kernel e => e.Granted
  | .userspace _ => True

open KernelSide

theorem openStepVoid_run {userschedPid : ℕ} {es : List OpenEvent} (hes : ∀ e ∈ es, e.Granted) (s : KernelSide) :
    run (openStepVoid userschedPid) s es = run (openStep userschedPid) s es := by
  refine run_congr (fun e he s => ?_) s
  cases e with
  | kernel e => exact SchedExtOps.void_step serverlessOps_succeeds (hes _ he) s
  | userspace l => rfl

/-- What every event does, whatever userspace makes of the shared maps. -/
structure WithholdsUndecided (userschedPid : ℕ) (s : KernelSide) (e : KernelEvent) (t : KernelSide) : Prop where
  withheld : ∀ q, t.kern.Withheld q → Undecided userschedPid t q
  enqueued : ∀ q idleCpu, e = .enqueue q idleCpu → (t.kern.Withheld q ↔ Undecided userschedPid s q)
  errors : t.kern.errors = reports userschedPid s e

theorem withheld_undecided {userschedPid : ℕ} {k : Kern TaskCtx} {es : List OpenEvent} {s t : KernelSide}
    {e : KernelEvent} (hr : run (openStepVoid userschedPid) (start k) es = some s)
    (hgranted : ∀ e ∈ es, e.Granted) (h : (serverlessOps userschedPid).void.step s e = some t) (he : e.Granted) :
    WithholdsUndecided userschedPid s e t := by
  rw [openStepVoid_run hgranted] at hr
  rw [SchedExtOps.void_step serverlessOps_succeeds he] at h
  have hs := withheldUndecided_run hr
  refine ⟨(hs.kernel h).2,fun q idleCpu heq => ?_,?_⟩
  · subst heq
    exact enqueue_withheld_iff hs.1 h
  · obtain ⟨hissues,hperform⟩ := SchedExtOps.step_eq_some.mp h
    have hissues' : (s.onKern Kern.clearCalls).kern.Issues e := by cases e <;> exact hissues
    rw [hperform,perform_errors (s := s.onKern Kern.clearCalls) ⟨hs.1.status_isSome,hs.1.live⟩ hissues' he rfl]
    cases e <;> rfl

/-- A task is enabled and handed over before its decision comes. -/
theorem withheld_undecided_first : ∃ s t,
    run (openStepVoid 7) (start Kern.fresh) [.kernel (.enable ⟨1,0⟩ true)] = some s ∧
      (serverlessOps 7).void.step s (.enqueue ⟨1,0⟩ none) = some t ∧ t.kern.errors = [] ∧ t.kern.Withheld ⟨1,0⟩ := by
  obtain ⟨s,hs,hundecided⟩ : ∃ s, run (openStepVoid 7) (start Kern.fresh) [.kernel (.enable ⟨1,0⟩ true)] = some s ∧
      Undecided 7 s ⟨1,0⟩ := ⟨_,rfl,rfl,by decide,_,rfl,rfl⟩
  obtain ⟨t,ht⟩ : ∃ t, (serverlessOps 7).void.step s (.enqueue ⟨1,0⟩ none) = some t := by
    cases hs
    exact ⟨_,rfl⟩
  have hstep := withheld_undecided hs (List.forall_mem_singleton.mpr rfl) ht trivial
  exact ⟨s,t,hs,ht,hstep.errors,(hstep.enqueued _ _ rfl).mpr hundecided⟩

end ServerlessSched.UserAssigned
