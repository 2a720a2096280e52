import ServerlessSched.UserAssigned.Board

/-! # Why a task is inserted

Every insertion the component asks for has one of six reasons: the fallback of a full map,
a direct dispatch or an enqueue of a task with a slice, the daemon itself, enqueued or
served, and a decision.
-/
namespace ServerlessSched.UserAssigned
open Kern

/-- The reasons for an insertion during an event that starts in the state `s`. -/
inductive InsertReason (userschedPid : ℕ) (s : KernelSide) : KernelEvent → DsqInsert TaskCtx → Prop
  | fallback {p : Proc} {alloc : Bool} {i : DsqInsert TaskCtx} (hi : i.task = p)
      (hdsq : i.dsq = .shared) (hslice : i.slice = sliceDfl) (hpid : p.pid ≠ userschedPid)
      (hfull : ¬s.bss.link.enqueued.HasRoom) : InsertReason userschedPid s (.enable p alloc) i
  | direct {p : Proc} {cpu : ℕ} {tctx : TaskCtx} {i : DsqInsert TaskCtx} (hi : i.task = p)
      (hdsq : i.dsq = .localOn cpu) (hctx : (s.kern.task p).ctx = some tctx)
      (hslice : tctx.hasSlice = true) (hsame : i.slice = tctx.slice) :
      InsertReason userschedPid s (.selectCpu p cpu true) i
  | enqueued {p : Proc} {idleCpu : Option ℕ} {tctx : TaskCtx} {i : DsqInsert TaskCtx} (hi : i.task = p)
      (hdsq : i.dsq = .shared) (hctx : (s.kern.task p).ctx = some tctx)
      (hslice : tctx.hasSlice = true) (hsame : i.slice = tctx.slice) :
      InsertReason userschedPid s (.enqueue p idleCpu) i
  | daemonEnqueued {p : Proc} {idleCpu : Option ℕ} {i : DsqInsert TaskCtx} (hi : i.task = p)
      (hpid : p.pid = userschedPid) (hdsq : i.dsq = .global) :
      InsertReason userschedPid s (.enqueue p idleCpu) i
  | daemonServed {cpu : ℕ} {env : DispatchEnv} {i : DsqInsert TaskCtx} (hpid : i.task.pid = userschedPid)
      (hdsq : i.dsq = .global) : InsertReason userschedPid s (.dispatch cpu env) i
  | decision {cpu : ℕ} {env : DispatchEnv} {u : DispatchedTask} {i : DsqInsert TaskCtx}
      (hu : u ∈ s.bss.link.dispatched.items) (hi : InsertedFor s.kern u i) :
      InsertReason userschedPid s (.dispatch cpu env) i

namespace KernelSide
variable {userschedPid : ℕ} {s : KernelSide} {i : DsqInsert TaskCtx}

/-! ## The dispatch callback -/

/-- The insertion of the daemon at the start of `dispatch`. -/
def daemonInsert (userschedPid : ℕ) (s : KernelSide) : List (DsqInsert TaskCtx) :=
  if s.bss.link.userschedNeeded then
    match s.kern.pids.holder userschedPid with
    | none => []
    | some p => [⟨p,.global,sliceInf,none,s.kern.task p,s.kern.globalVtime⟩]
  else []

theorem daemonInsert_length (userschedPid : ℕ) (s : KernelSide) : (daemonInsert userschedPid s).length =
    if s.bss.link.userschedNeeded ∧ (s.kern.pids.holder userschedPid).isSome then 1 else 0 := by
  unfold daemonInsert
  cases s.bss.link.userschedNeeded with
  | false => simp
  | true => cases s.kern.pids.holder userschedPid <;> simp

theorem serveDaemon_inserts (userschedPid : ℕ) (reserve : Bool) (s : KernelSide) :
    (serveDaemon userschedPid reserve s).kern.inserts =
      s.kern.inserts ++ daemonInsert userschedPid s := by
  rw [serveDaemon_kern,daemonInsert]
  split
  case isFalse => exact (List.append_nil _).symm
  case isTrue =>
    unfold callDaemon
    cases s.kern.pids.holder userschedPid with
    | none => cases reserve <;> simp
    | some p => cases reserve <;> simp

theorem serveDaemon_globalVtime (userschedPid : ℕ) (reserve : Bool) (s : KernelSide) :
    (serveDaemon userschedPid reserve s).kern.globalVtime = s.kern.globalVtime := by
  rw [serveDaemon_kern]
  split
  case isFalse => rfl
  case isTrue =>
    unfold callDaemon
    cases s.kern.pids.holder userschedPid <;> cases reserve <;> rfl

theorem dispatch_inserts (userschedPid cpu : ℕ) (env : DispatchEnv) (s : KernelSide) :
    ∃ is, (dispatch userschedPid cpu env s).kern.inserts =
        s.kern.inserts ++ daemonInsert userschedPid s ++ is ∧
      List.Forall₂ (InsertedFor s.kern)
        (s.bss.link.dispatched.items.filter (fun u => (s.kern.pids.holder u.pid).isSome)) is := by
  have hquiet := quiet_serveDaemon userschedPid env.reserve s
  have hstanding : Same TaskStruct.standing s.kern (serveDaemon userschedPid env.reserve s).kern :=
    serveDaemon_same (fun _ _ => rfl) userschedPid env.reserve s
  have hphase : Same TaskStruct.phase s.kern (serveDaemon userschedPid env.reserve s).kern :=
    serveDaemon_same (fun _ _ => rfl) userschedPid env.reserve s
  obtain ⟨is,his,hall⟩ := applyDecisions_inserts (serveDaemon userschedPid env.reserve s).kern env.pick
    maxEnqueuedTasks (serveDaemon userschedPid env.reserve s).bss.link.dispatched.items
  rw [hquiet.dispatched,hstanding.pids] at hall
  refine ⟨is,?_,hall.imp (fun u i h => ?_)⟩
  · have hdequeue : (dequeueTasksFromUserspace env.pick
        (serveDaemon userschedPid env.reserve s)).kern.inserts =
        s.kern.inserts ++ daemonInsert userschedPid s ++ is := by
      rw [dequeueTasksFromUserspace_eq,← serveDaemon_inserts userschedPid env.reserve s]
      exact his
    unfold dispatch
    dsimp only
    split
    case isTrue => exact hdequeue
    case isFalse => exact (inserts_scanSharedDsq _ _ _ _).trans hdequeue
  · constructor
    · rw [← hstanding.pids]; exact h.holder
    · exact h.dsq
    · rw [h.slice,hstanding.ctx]
    · rw [h.clock,serveDaemon_globalVtime]
    · rw [h.enabled,hstanding.enabled]
    · rw [h.phase]; exact hphase.task _

theorem step_dispatch_inserts {cpu : ℕ} {env : DispatchEnv} {t : KernelSide}
    (h : (serverlessOps userschedPid).step s (.dispatch cpu env) = some t) :
    ∃ is, t.kern.inserts = daemonInsert userschedPid s ++ is ∧
      List.Forall₂ (InsertedFor s.kern)
        (s.bss.link.dispatched.items.filter (fun u => (s.kern.pids.holder u.pid).isSome)) is := by
  obtain ⟨-,hperform⟩ := SchedExtOps.step_eq_some.mp h
  obtain ⟨is,his,hall⟩ := dispatch_inserts userschedPid cpu env (s.onKern Kern.clearCalls)
  refine ⟨is,?_,hall.imp (fun u i h => ⟨h.holder,h.dsq,h.slice,h.clock,h.enabled,h.phase⟩)⟩
  apply (congrArg (fun u => (Sched.kern u).inserts) hperform).trans
  exact (inserts_settle false _).trans his

/-! ## All events -/

theorem enable_inserts {p : Proc} {alloc : Bool} (hnone : s.kern.inserts = [])
    (h : i ∈ (enable userschedPid p alloc s).1.kern.inserts) :
    InsertReason userschedPid s (.enable p alloc) i := by
  rcases enable_cases userschedPid p alloc s with ⟨-,-,hres⟩ | ⟨-,hres⟩
  · rw [hres,Sched.onKern_kern,refuse,inserts_scxBpfError,inserts_modify,hnone] at h
    cases h
  · rw [hres] at h
    dsimp only at h
    split at h
    case isTrue =>
      rw [Sched.onKern_kern,inserts_modify,hnone] at h
      cases h
    case isFalse hpid =>
      unfold enqueueTaskInUserspace at h
      rw [Sched.onKern_bss] at h
      cases hpush : s.bss.link.enqueued.push p.pid with
      | none =>
        simp only [hpush,inserts_scxBpfKickCpu,inserts_scxBpfDsqInsertVtime,Sched.onKern_kern,
          inserts_modify,hnone,List.nil_append,List.mem_singleton] at h
        subst h
        exact .fallback rfl rfl rfl hpid (BoundedQueue.push_eq_none.mp hpush)
      | some q =>
        simp only [hpush,Sched.onKern_kern,inserts_modify,hnone] at h
        cases h

theorem selectCpu_inserts {p : Proc} {cpu : ℕ} {isIdle : Bool} (hnone : s.kern.inserts = [])
    (h : i ∈ (selectCpu p cpu isIdle s.kern).inserts) :
    InsertReason userschedPid s (.selectCpu p cpu isIdle) i := by
  cases isIdle with
  | false =>
    rw [selectCpu,if_neg Bool.false_ne_true,hnone] at h
    cases h
  | true =>
    rw [selectCpu,if_pos rfl] at h
    cases hctx : (s.kern.task p).ctx with
    | none =>
      rw [hctx,inserts_scxBpfError,hnone] at h
      cases h
    | some tctx =>
      rw [hctx] at h
      dsimp only at h
      split at h
      case isTrue hslice =>
        rw [inserts_scxBpfKickCpu,inserts_scxBpfDsqInsert,hnone,List.nil_append,List.mem_singleton] at h
        subst h
        exact .direct rfl rfl hctx hslice rfl
      case isFalse =>
        rw [hnone] at h
        cases h

/-- `k` is the kernel after it has marked the task as withheld. -/
theorem enqueue_inserts {p : Proc} {idleCpu : Option ℕ} {k : Kern TaskCtx} (hnone : k.inserts = [])
    (hctx : (k.task p).ctx = (s.kern.task p).ctx) (h : i ∈ (enqueue userschedPid p idleCpu k).inserts) :
    InsertReason userschedPid s (.enqueue p idleCpu) i := by
  unfold enqueue at h
  split at h
  case isTrue hpid =>
    rw [inserts_scxBpfDsqInsert,hnone,List.nil_append,List.mem_singleton] at h
    subst h
    exact .daemonEnqueued rfl hpid rfl
  case isFalse =>
    rw [hctx] at h
    cases htask : (s.kern.task p).ctx with
    | none =>
      rw [htask,inserts_scxBpfError,hnone] at h
      cases h
    | some tctx =>
      rw [htask] at h
      dsimp only at h
      split at h
      case isTrue hslice =>
        rw [inserts_enqueueShared,hnone,List.nil_append,List.mem_singleton] at h
        subst h
        exact .enqueued rfl rfl htask hslice rfl
      case isFalse =>
        rw [hnone] at h
        cases h

theorem dispatch_reason {cpu : ℕ} {env : DispatchEnv} (hnone : s.kern.inserts = [])
    (h : i ∈ (dispatch userschedPid cpu env s).kern.inserts) :
    InsertReason userschedPid s (.dispatch cpu env) i := by
  obtain ⟨is,his,hall⟩ := dispatch_inserts userschedPid cpu env s
  rw [his,hnone,List.nil_append,List.mem_append] at h
  rcases h with h | h
  · unfold daemonInsert at h
    split at h
    case isFalse => cases h
    case isTrue =>
      cases hholder : s.kern.pids.holder userschedPid with
      | none =>
        rw [hholder] at h
        cases h
      | some p =>
        rw [hholder,List.mem_singleton] at h
        subst h
        exact .daemonServed (s.kern.pids.holder_pid _ _ hholder) rfl
  · obtain ⟨u,hu,hi⟩ := exists_record hall h
    exact .decision (List.mem_filter.mp hu).1 hi

theorem perform_inserts {e : KernelEvent} (hnone : s.kern.inserts = [])
    (h : i ∈ ((serverlessOps userschedPid).perform s e).kern.inserts) :
    InsertReason userschedPid s e i := by
  have hempty : ∀ k : Kern TaskCtx, k.inserts = s.kern.inserts → i ∉ k.inserts := by
    intro k hk hi
    rw [hk,hnone] at hi
    cases hi
  cases e with
  | spawn p cpu mm => exact absurd h (hempty _ rfl)
  | exec p mm => exact absurd h (hempty _ rfl)
  | tick p ns => exact absurd h (hempty _ rfl)
  | exit p =>
    refine absurd h (hempty _ ?_)
    unfold SchedExtOps.perform
    dsimp only
    split <;> rfl
  | enable p alloc =>
    unfold SchedExtOps.perform at h
    dsimp only at h
    split at h
    case isTrue => exact enable_inserts hnone h
    case isFalse =>
      rw [Sched.onKern_kern,inserts_setEnabled,Sched.onKern_kern,inserts_settle] at h
      exact enable_inserts hnone h
  | disable p => exact absurd h (hempty _ rfl)
  | selectCpu p cpu isIdle => exact selectCpu_inserts hnone (by rwa [← inserts_settle true])
  | enqueue p idleCpu =>
    refine enqueue_inserts (k := Kern.setPhase p .withheld s.kern) hnone ?_
      (by rwa [← inserts_settle false])
    rw [Kern.setPhase,modify_task_self]
  | dispatch cpu env => exact dispatch_reason hnone (by rwa [← inserts_settle false])
  | running p =>
    refine absurd h (hempty _ ?_)
    change (running p (Kern.setPhase p .running s.kern)).inserts = _
    unfold running
    split <;> rfl
  | stopping p =>
    refine absurd h (hempty _ ?_)
    change (Kern.setPhase p .idle (stopping p s.kern)).inserts = _
    rw [inserts_setPhase]
    exact inserts_chargeStopping s.kern p
  | updateIdle cpu idle =>
    refine absurd h (hempty _ ?_)
    change (updateIdle cpu idle s).kern.inserts = _
    unfold updateIdle
    split
    case isFalse => rfl
    case isTrue =>
      split
      case isTrue => exact inserts_scxBpfKickCpu _ _ _
      case isFalse => rfl

theorem step_inserts {e : KernelEvent} {t : KernelSide}
    (h : (serverlessOps userschedPid).step s e = some t) (hi : i ∈ t.kern.inserts) :
    InsertReason userschedPid (s.onKern Kern.clearCalls) e i := by
  obtain ⟨-,rfl⟩ := SchedExtOps.step_eq_some.mp h
  exact perform_inserts rfl hi

end KernelSide
end ServerlessSched.UserAssigned
