import ServerlessSched.UserAssigned.Decisions

/-! # The announcement board: what the decision protocol is about

An abstract account of the BPF component. It forgets queues, clocks, slices of tasks and
counters and keeps who is alive, who is enabled, who has a decision, and the contents of
the two maps. Every step of the component is one step on the board.
-/
namespace ServerlessSched.UserAssigned
open Kern

/-- `status` is `none` without a context, `some none` for a task that waits for a decision
and `some (some slice)` for one that has it. -/
@[ext] structure Board where
  pids : PidTable
  enabled : Proc → Bool
  status : Proc → Option (Option UInt64)
  enqueued : BoundedQueue maxEnqueuedTasks ℕ
  dispatched : BoundedQueue maxEnqueuedTasks DispatchedTask

namespace Board

/-- A task joins: it gets a context if it has none and is announced by PID, unless it is
the daemon or there is no room. -/
def join (userschedPid : ℕ) (b : Board) (p : Proc) : Board :=
  { b with
    enabled := Function.update b.enabled p true
    status := Function.update b.status p (some ((b.status p).getD none))
    enqueued := if p.pid = userschedPid then b.enqueued else (b.enqueued.push p.pid).getD b.enqueued }

def leave (b : Board) (p : Proc) : Board :=
  { b with
    enabled := Function.update b.enabled p false
    status := Function.update b.status p none }

/-- All decisions are read; each task with a context keeps the last one for its PID. -/
def consume (b : Board) : Board :=
  { b with
    status := fun q =>
      match (decisionsFor b.pids q b.dispatched.items).getLast? with
      | none => b.status q
      | some d => (b.status q).map (fun _ => some (translateSlice d))
    dispatched := .empty }

def Admits (b : Board) : KernelEvent → Prop
  | .spawn p _ _ => b.pids.holder p.pid = none
  | .exit p => b.pids.Live p
  | .enable p _ => b.pids.Live p ∧ b.enabled p = false
  | .disable p => b.enabled p = true
  | _ => True

def step (userschedPid : ℕ) (b : Board) : KernelEvent → Board
  | .spawn p _ _ => { b.leave p with pids := b.pids.add p }
  | .exit p => { b.leave p with pids := b.pids.remove p.pid }
  | .enable p alloc => if (b.status p).isSome ∨ alloc = true then b.join userschedPid p else b
  | .disable p => b.leave p
  | .dispatch _ _ => b.consume
  | _ => b

variable {b : Board} {q : Proc}

theorem consume_status_of_none (h : (decisionsFor b.pids q b.dispatched.items).getLast? = none) :
    b.consume.status q = b.status q := by
  dsimp only [consume]
  rw [h]

theorem consume_status_of_some {d : UInt64} (h : (decisionsFor b.pids q b.dispatched.items).getLast? = some d) :
    b.consume.status q = (b.status q).map (fun _ => some (translateSlice d)) := by
  dsimp only [consume]
  rw [h]

end Board

def TaskCtx.verdict (tctx : TaskCtx) : Option UInt64 := if tctx.hasSlice then some tctx.slice else none

@[simp] theorem TaskCtx.verdict_decide (tctx : TaskCtx) (d : UInt64) :
    (tctx.decide d).verdict = some (translateSlice d) := rfl

namespace KernelSide

/-- The board a state of the component shows. -/
def board (s : KernelSide) : Board where
  pids := s.kern.pids
  enabled p := (s.kern.task p).enabled
  status p := (s.kern.task p).ctx.map TaskCtx.verdict
  enqueued := s.bss.link.enqueued
  dispatched := s.bss.link.dispatched

variable {s t : KernelSide} {k k' : Kern TaskCtx} {p : Proc}

def shown (t : TaskStruct TaskCtx) : Bool × Option (Option UInt64) :=
  (t.enabled,t.ctx.map TaskCtx.verdict)

structure Quiet (s t : KernelSide) : Prop where
  kern : Same shown s.kern t.kern
  enqueued : t.bss.link.enqueued = s.bss.link.enqueued
  dispatched : t.bss.link.dispatched = s.bss.link.dispatched

theorem Quiet.board (h : Quiet s t) : t.board = s.board := by
  ext1
  · exact h.kern.pids
  · exact funext (fun q => congrArg Prod.fst (h.kern.task q))
  · exact funext (fun q => congrArg Prod.snd (h.kern.task q))
  · exact h.enqueued
  · exact h.dispatched

theorem Quiet.of_standing (h : Same TaskStruct.standing s.kern t.kern)
    (henq : t.bss.link.enqueued = s.bss.link.enqueued)
    (hdisp : t.bss.link.dispatched = s.bss.link.dispatched) : Quiet s t :=
  ⟨h.map (fun v => (v.enabled,v.ctx.map TaskCtx.verdict)),henq,hdisp⟩

theorem Quiet.trans {r : KernelSide} (h : Quiet s t) (h' : Quiet t r) : Quiet s r :=
  ⟨h.kern.trans h'.kern,h'.enqueued.trans h.enqueued,h'.dispatched.trans h.dispatched⟩

theorem quiet_onKern {f : Kern TaskCtx → Kern TaskCtx} (h : Same TaskStruct.standing s.kern (f s.kern)) :
    Quiet s (s.onKern f) := Quiet.of_standing h (Eq.refl _) (Eq.refl _)

theorem quiet_settle (force : Bool) (s : KernelSide) : Quiet s (s.onKern (Kern.settle force)) :=
  quiet_onKern (settle_same (fun _ _ => rfl) force s.kern)

theorem quiet_clearCalls (s : KernelSide) : Quiet s (s.onKern Kern.clearCalls) :=
  quiet_onKern (Same.of_eq rfl rfl)

theorem quiet_setPhase (p : Proc) (phase : Phase) (s : KernelSide) :
    Quiet s (s.onKern (Kern.setPhase p phase)) :=
  quiet_onKern (setPhase_same (fun _ _ => rfl) p phase s.kern)

/-! ## The callbacks that change nothing on the board -/

theorem selectCpu_same {β : Type} {view : TaskStruct TaskCtx → β}
    (hslice : ∀ t s, view { t with slice := s } = view t) (p : Proc) (cpu : ℕ) (isIdle : Bool)
    (k : Kern TaskCtx) : Same view k (selectCpu p cpu isIdle k) := by
  unfold selectCpu
  split
  case isFalse => exact Same.rfl
  case isTrue =>
    cases (k.task p).ctx with
    | none => exact Same.record k _
    | some tctx =>
      dsimp only
      split
      case isTrue => exact (scxBpfDsqInsert_same k p _ _ hslice).trans (Same.record _ _)
      case isFalse => exact Same.rfl

theorem enqueue_same (userschedPid : ℕ) (p : Proc) (idleCpu : Option ℕ) (k : Kern TaskCtx) :
    Same TaskStruct.standing k (enqueue userschedPid p idleCpu k) := by
  unfold enqueue
  split
  case isTrue => exact scxBpfDsqInsert_same k p _ _ (fun _ _ => rfl)
  case isFalse =>
    cases (k.task p).ctx with
    | none => exact Same.record k _
    | some tctx =>
      dsimp only
      split
      case isTrue => exact enqueueShared_same k p _ idleCpu (fun _ _ _ => rfl)
      case isFalse => exact Same.rfl

theorem running_same {β : Type} {view : TaskStruct TaskCtx → β} (p : Proc) (k : Kern TaskCtx) :
    Same view k (running p k) := by
  unfold running
  split
  case isTrue => exact Same.of_eq rfl rfl
  case isFalse => exact Same.rfl

theorem quiet_stopping (p : Proc) (s : KernelSide) : Quiet s (s.onKern (stopping p)) := by
  have hshown : Same shown s.kern (stopping p s.kern) := by
    refine chargeStopping_same ?_ s.kern p
    intro t c v hctx
    rw [shown,shown,hctx]
    rfl
  exact ⟨hshown,Eq.refl _,Eq.refl _⟩

theorem updateIdle_same {β : Type} {view : TaskStruct TaskCtx → β} (cpu : ℕ) (idle : Bool) (s : KernelSide) :
    Same view s.kern (updateIdle cpu idle s).kern := by
  unfold updateIdle
  split
  case isFalse => exact Same.rfl
  case isTrue =>
    split
    case isTrue => exact Same.record _ _
    case isFalse => exact Same.rfl

theorem quiet_updateIdle (cpu : ℕ) (idle : Bool) (s : KernelSide) : Quiet s (updateIdle cpu idle s) := by
  refine ⟨updateIdle_same cpu idle s,?_,?_⟩ <;>
  · unfold updateIdle
    split <;> [split <;> rfl; rfl]

/-! ## Letting the daemon in -/

/-- The kernel calls of `dispatch_user_scheduler`. -/
def callDaemon (userschedPid : ℕ) (reserve : Bool) (k : Kern TaskCtx) : Kern TaskCtx :=
  let k := match k.pids.holder userschedPid with
    | none => k.scxBpfError s!"Failed to find usersched task {userschedPid}"
    | some p => k.scxBpfDsqInsert p .global sliceInf
  if reserve then k else k.scxBpfError "failed to reserve ringbuf slot\n"

theorem serveDaemon_kern (userschedPid : ℕ) (reserve : Bool) (s : KernelSide) :
    (serveDaemon userschedPid reserve s).kern =
      if s.bss.link.userschedNeeded then callDaemon userschedPid reserve s.kern else s.kern := by
  unfold serveDaemon Link.testAndClearUserschedNeeded
  cases s.bss.link.userschedNeeded with
  | false => rfl
  | true =>
    unfold dispatchUserScheduler callDaemon
    dsimp only [setLink]
    cases s.kern.pids.holder userschedPid <;> cases reserve <;> rfl

theorem serveDaemon_link (userschedPid : ℕ) (reserve : Bool) (s : KernelSide) :
    (serveDaemon userschedPid reserve s).bss.link.enqueued = s.bss.link.enqueued ∧
      (serveDaemon userschedPid reserve s).bss.link.dispatched = s.bss.link.dispatched := by
  unfold serveDaemon Link.testAndClearUserschedNeeded
  cases s.bss.link.userschedNeeded with
  | false => exact ⟨rfl,rfl⟩
  | true =>
    unfold dispatchUserScheduler
    dsimp only [setLink]
    cases s.kern.pids.holder userschedPid <;> cases reserve <;> exact ⟨rfl,rfl⟩

theorem serveDaemon_same {β : Type} {view : TaskStruct TaskCtx → β}
    (hslice : ∀ t s, view { t with slice := s } = view t) (userschedPid : ℕ) (reserve : Bool)
    (s : KernelSide) : Same view s.kern (serveDaemon userschedPid reserve s).kern := by
  rw [serveDaemon_kern]
  split
  case isFalse => exact Same.rfl
  case isTrue =>
    have hcall : Same view s.kern (match s.kern.pids.holder userschedPid with
        | none => s.kern.scxBpfError s!"Failed to find usersched task {userschedPid}"
        | some p => s.kern.scxBpfDsqInsert p .global sliceInf) := by
      cases s.kern.pids.holder userschedPid with
      | none => exact Same.record _ _
      | some p => exact scxBpfDsqInsert_same s.kern p _ _ hslice
    unfold callDaemon
    dsimp only
    split
    case isTrue => exact hcall
    case isFalse => exact hcall.trans (Same.record _ _)

theorem quiet_serveDaemon (userschedPid : ℕ) (reserve : Bool) (s : KernelSide) :
    Quiet s (serveDaemon userschedPid reserve s) :=
  Quiet.of_standing (serveDaemon_same (fun _ _ => rfl) userschedPid reserve s)
    (serveDaemon_link userschedPid reserve s).1 (serveDaemon_link userschedPid reserve s).2

theorem quiet_scan (cpu : ℕ) (moves : Proc → Bool) (s : KernelSide) :
    Quiet s (s.onKern (fun k => k.scanSharedDsq cpu moves k.sharedOrder)) :=
  quiet_onKern (scanSharedDsq_same (fun _ _ => rfl) cpu moves _ s.kern)

/-! ## The callbacks that do -/

theorem dequeue_board (pick : ℕ → Option ℕ) (s : KernelSide) :
    (dequeueTasksFromUserspace pick s).board = s.board.consume := by
  have henabled : Same TaskStruct.enabled s.kern
      (applyDecisions pick maxEnqueuedTasks s.bss.link.dispatched.items s.kern) :=
    applyDecisions_same _ _ _ _ (fun _ _ _ _ => rfl)
  rw [dequeueTasksFromUserspace_eq]
  ext1
  · exact henabled.pids
  · exact funext henabled.task
  · funext q
    dsimp only [board,Board.consume,setLink,Sched.onKern_kern]
    rw [applyDecisions_ctx]
    cases (decisionsFor s.kern.pids q s.bss.link.dispatched.items).getLast? with
    | none => rfl
    | some d => simp [Function.comp_def]
  · rfl
  · rfl

theorem dispatch_board (userschedPid cpu : ℕ) (env : DispatchEnv) (s : KernelSide) :
    (dispatch userschedPid cpu env s).board = s.board.consume := by
  have h : (dequeueTasksFromUserspace env.pick (serveDaemon userschedPid env.reserve s)).board =
      s.board.consume := by
    rw [dequeue_board,(quiet_serveDaemon userschedPid env.reserve s).board]
  unfold dispatch
  dsimp only
  split
  case isTrue => exact h
  case isFalse => rw [(quiet_scan cpu env.moves _).board,h]

theorem board_leave (hleft : ∀ q, shown (t.kern.task q) =
      if q = p then (false,none) else shown (s.kern.task q))
    (henq : t.bss.link.enqueued = s.bss.link.enqueued)
    (hdisp : t.bss.link.dispatched = s.bss.link.dispatched) :
    t.board = { s.board.leave p with pids := t.kern.pids } := by
  ext1
  · rfl
  · funext q
    apply (congrArg Prod.fst (hleft q)).trans
    by_cases hq : q = p <;> simp [hq,Board.leave,shown,board]
  · funext q
    apply (congrArg Prod.snd (hleft q)).trans
    by_cases hq : q = p <;> simp [hq,Board.leave,shown,board]
  · exact henq
  · exact hdisp

theorem spawn_board (p : Proc) (cpu : ℕ) (mm : Mm) (s : KernelSide) :
    board (s.onKern (Kern.spawn p cpu mm)) =
      { s.board.leave p with pids := s.kern.pids.add p } := by
  refine board_leave (fun q => ?_) rfl rfl
  by_cases hq : q = p <;> simp [Kern.spawn,Kern.modify,shown,hq]

theorem disable_board (p : Proc) (s : KernelSide) :
    board ((s.onKern (disable p)).onKern (Kern.leave p)) = s.board.leave p := by
  refine board_leave (fun q => ?_) rfl rfl
  by_cases hq : q = p <;> simp [disable,Kern.leave,Kern.modify,shown,hq]

theorem exit_board (p : Proc) (s : KernelSide) :
    board ((if (s.kern.task p).enabled then (s.onKern (disable p)).onKern (Kern.leave p) else s).onKern
        (Kern.reap p)) =
      { s.board.leave p with pids := s.kern.pids.remove p.pid } := by
  cases henabled : (s.kern.task p).enabled with
  | true =>
    refine board_leave (fun q => ?_) rfl rfl
    by_cases hq : q = p <;> simp [disable,Kern.leave,Kern.reap,Kern.modify,shown,hq]
  | false =>
    refine board_leave (fun q => ?_) rfl rfl
    by_cases hq : q = p <;> simp [Kern.reap,Kern.modify,shown,hq,henabled]

theorem enqueueTaskInUserspace_effect (p : Proc) (s : KernelSide) :
    Same TaskStruct.standing s.kern (enqueueTaskInUserspace p s).kern ∧
      (enqueueTaskInUserspace p s).bss.link.enqueued =
        (s.bss.link.enqueued.push p.pid).getD s.bss.link.enqueued ∧
      (enqueueTaskInUserspace p s).bss.link.dispatched = s.bss.link.dispatched := by
  unfold enqueueTaskInUserspace
  cases s.bss.link.enqueued.push p.pid with
  | none =>
    exact ⟨(scxBpfDsqInsertVtime_same _ p _ _ (fun _ _ _ => rfl)).trans (Same.record _ _),rfl,rfl⟩
  | some q => exact ⟨Same.rfl,rfl,rfl⟩

/-- A task that has storage, its own or the one `create_task_ctx` initialises. -/
def withStorage (t : TaskStruct TaskCtx) : TaskStruct TaskCtx :=
  { t with ctx := some (t.ctx.getD ⟨sliceDfl,t.sumExecRuntime,false⟩) }

theorem withStorage_of_some {t : TaskStruct TaskCtx} {tctx : TaskCtx} (h : t.ctx = some tctx) :
    withStorage t = t := by
  rcases t with ⟨_,_,_,_,_,ctx,_,_⟩
  cases h
  rfl

theorem withStorage_of_none {t : TaskStruct TaskCtx} (h : t.ctx = none) :
    { t with ctx := some ⟨sliceDfl,t.sumExecRuntime,false⟩ } = withStorage t := by
  rw [withStorage,h]
  rfl

theorem createTaskCtx_cases (p : Proc) (alloc : Bool) (k : Kern TaskCtx) :
    ((k.task p).ctx = none ∧ alloc = false ∧
      createTaskCtx p alloc k = (k.scxBpfError s!"Failed to create task ctx for {p.pid}",-1)) ∨
    (((k.task p).ctx.isSome ∨ alloc = true) ∧
      createTaskCtx p alloc k = (k.modify p withStorage,0)) := by
  unfold createTaskCtx
  cases hctx : (k.task p).ctx with
  | some tctx =>
    refine Or.inr ⟨Or.inl rfl,?_⟩
    rw [modify_of_fixed (withStorage_of_some hctx)]
  | none =>
    cases alloc with
    | false => exact Or.inl ⟨rfl,rfl,rfl⟩
    | true =>
      refine Or.inr ⟨Or.inr rfl,?_⟩
      exact congrArg (fun k' => (k',(0 : ℤ))) (modify_congr (withStorage_of_none hctx))

/-- A task at the start of its time under the scheduler. -/
def enrol (now : UInt64) (t : TaskStruct TaskCtx) : TaskStruct TaskCtx :=
  withStorage { t with dsqVtime := now }

def refuse (p : Proc) (k : Kern TaskCtx) : Kern TaskCtx :=
  (k.modify p (fun t => { t with dsqVtime := k.globalVtime })).scxBpfError
    s!"Failed to create task ctx for {p.pid}"

theorem refuse_same (p : Proc) (k : Kern TaskCtx) : Same TaskStruct.standing k (refuse p k) :=
  Same.trans (Same.modify rfl) (Same.record _ _)

theorem enable_cases (userschedPid : ℕ) (p : Proc) (alloc : Bool) (s : KernelSide) :
    ((s.kern.task p).ctx = none ∧ alloc = false ∧
      enable userschedPid p alloc s = (s.onKern (refuse p),-enomem)) ∨
    (((s.kern.task p).ctx.isSome ∨ alloc = true) ∧ enable userschedPid p alloc s =
      (if p.pid = userschedPid then s.onKern (fun k => k.modify p (enrol k.globalVtime))
        else enqueueTaskInUserspace p (s.onKern (fun k => k.modify p (enrol k.globalVtime))),0)) := by
  unfold enable
  dsimp only
  have hctx : ((s.kern.modify p (fun t => { t with dsqVtime := s.kern.globalVtime })).task p).ctx =
      (s.kern.task p).ctx := by rw [modify_task_self]
  rcases createTaskCtx_cases p alloc (s.kern.modify p (fun t => { t with dsqVtime := s.kern.globalVtime }))
    with ⟨hnone,halloc,hcreate⟩ | ⟨hok,hcreate⟩
  · rw [hctx] at hnone
    refine Or.inl ⟨hnone,halloc,?_⟩
    simp only [Sched.onKern_kern,hcreate,if_pos (show (-1 : ℤ) < 0 by decide)]
    rfl
  · rw [hctx] at hok
    refine Or.inr ⟨hok,?_⟩
    simp only [Sched.onKern_kern,hcreate,if_neg (show ¬(0 : ℤ) < 0 by decide),modify_modify]
    split <;> rfl

/-- Whatever keeps the standing of the admitted task and handles the maps as announcing
does ends, once the task is enabled, in the joined board. -/
theorem board_join {userschedPid : ℕ} {p : Proc} {s t : KernelSide}
    (hkern : Same TaskStruct.standing (s.kern.modify p (enrol s.kern.globalVtime)) t.kern)
    (henq : t.bss.link.enqueued = if p.pid = userschedPid then s.bss.link.enqueued
      else (s.bss.link.enqueued.push p.pid).getD s.bss.link.enqueued)
    (hdisp : t.bss.link.dispatched = s.bss.link.dispatched) :
    board (t.onKern (Kern.setEnabled p)) = s.board.join userschedPid p := by
  ext1
  · exact hkern.pids
  · funext q
    by_cases hq : q = p
    · subst hq
      simp [board,Board.join,Kern.setEnabled]
    · have h := hkern.enabled q
      rw [modify_task_ne _ _ hq] at h
      simpa [board,Board.join,Kern.setEnabled,hq] using h
  · funext q
    by_cases hq : q = p
    · subst hq
      have h := hkern.ctx q
      rw [modify_task_self] at h
      cases hctx : (s.kern.task q).ctx <;>
        simp [board,Board.join,Kern.setEnabled,h,enrol,withStorage,hctx,TaskCtx.verdict]
    · have h := hkern.ctx q
      rw [modify_task_ne _ _ hq] at h
      simp [board,Board.join,Kern.setEnabled,hq,h]
  · exact henq
  · exact hdisp

theorem enable_board {userschedPid : ℕ} {p : Proc} {alloc : Bool} {s : KernelSide}
    (hok : (s.kern.task p).ctx.isSome ∨ alloc = true) :
    board (((enable userschedPid p alloc s).1.onKern (Kern.settle true)).onKern (Kern.setEnabled p)) =
      s.board.join userschedPid p := by
  rcases enable_cases userschedPid p alloc s with ⟨hnone,halloc,-⟩ | ⟨-,h⟩
  · rw [hnone,halloc] at hok
    simp at hok
  · rw [h]
    dsimp only
    split
    case isTrue hu =>
      exact board_join (settle_same (fun _ _ => rfl) true _) (if_pos hu).symm rfl
    case isFalse hu =>
      obtain ⟨hkern,henq,hdisp⟩ :=
        enqueueTaskInUserspace_effect p (s.onKern (fun k => k.modify p (enrol k.globalVtime)))
      exact board_join (hkern.trans (settle_same (fun _ _ => rfl) true _))
        (henq.trans (if_neg hu).symm) hdisp

theorem perform_board (userschedPid : ℕ) (s : KernelSide) (e : KernelEvent) :
    board ((serverlessOps userschedPid).perform s e) = s.board.step userschedPid e := by
  cases e with
  | spawn p cpu mm => exact spawn_board p cpu mm s
  | exec p mm => exact Quiet.board ⟨exec_same (fun _ _ => rfl) p mm s.kern,rfl,rfl⟩
  | tick p ns => exact Quiet.board ⟨tick_same (fun _ _ => rfl) p ns s.kern,rfl,rfl⟩
  | exit p => exact exit_board p s
  | enable p alloc =>
    have hstatus : (s.board.status p).isSome = (s.kern.task p).ctx.isSome := Option.isSome_map
    rw [SchedExtOps.perform,Board.step,hstatus]
    rcases enable_cases userschedPid p alloc s with ⟨hnone,halloc,hres⟩ | ⟨hstored,hres⟩
    · have hfails : ((serverlessOps userschedPid).enable p alloc s).2 < 0 :=
        lt_of_eq_of_lt (congrArg Prod.snd hres) (show -enomem < 0 by decide)
      rw [if_pos hfails,if_neg (by rw [hnone,halloc]; simp)]
      exact (congrArg board (congrArg Prod.fst hres)).trans (quiet_onKern (refuse_same p s.kern)).board
    · have hsucceeds : ¬((serverlessOps userschedPid).enable p alloc s).2 < 0 :=
        not_lt_of_ge (le_of_eq (congrArg Prod.snd hres).symm)
      rw [if_neg hsucceeds,if_pos hstored]
      exact enable_board hstored
  | disable p => exact disable_board p s
  | selectCpu p cpu isIdle =>
    exact ((quiet_onKern (selectCpu_same (fun _ _ => rfl) p cpu isIdle s.kern)).trans (quiet_settle true _)).board
  | enqueue p idleCpu =>
    exact (((quiet_setPhase p .withheld s).trans
      (quiet_onKern (enqueue_same userschedPid p idleCpu _))).trans (quiet_settle false _)).board
  | dispatch cpu env => exact (quiet_settle false _).board.trans (dispatch_board userschedPid cpu env s)
  | running p => exact ((quiet_setPhase p .running s).trans (quiet_onKern (running_same p _))).board
  | stopping p => exact ((quiet_stopping p s).trans (quiet_setPhase p .idle _)).board
  | updateIdle cpu idle => exact (quiet_updateIdle cpu idle s).board

theorem admits_of_issues {s : KernelSide} {e : KernelEvent} (h : s.kern.Issues e) : s.board.Admits e := by
  cases e with
  | spawn p cpu mm => exact h
  | exit p => exact h
  | enable p alloc => exact h
  | disable p => exact h
  | _ => trivial

/-- The refinement: a step of the component is the board's step for the same event. -/
theorem board_step {userschedPid : ℕ} {s t : KernelSide} {e : KernelEvent}
    (h : (serverlessOps userschedPid).step s e = some t) :
    s.board.Admits e ∧ t.board = s.board.step userschedPid e := by
  obtain ⟨hissues,rfl⟩ := SchedExtOps.step_eq_some.mp h
  exact ⟨admits_of_issues hissues,
    (perform_board userschedPid _ e).trans (by rw [(quiet_clearCalls s).board])⟩

end KernelSide
/-! ## What every step maintains -/

namespace Board

/-- Contexts belong to the enabled tasks, and enabled tasks are alive. -/
structure Sound (b : Board) : Prop where
  status_isSome : ∀ p, (b.status p).isSome = b.enabled p
  live : ∀ p, b.enabled p = true → b.pids.Live p

variable {b : Board} {p q : Proc}

theorem join_enqueued (userschedPid : ℕ) (b : Board) (p : Proc) :
    (b.join userschedPid p).enqueued = b.enqueued ∧
        (p.pid = userschedPid ∨ ¬b.enqueued.HasRoom) ∨
      p.pid ≠ userschedPid ∧ b.enqueued.HasRoom ∧
        (b.join userschedPid p).enqueued.items = b.enqueued.items ++ [p.pid] := by
  unfold join
  dsimp only
  split
  case isTrue hpid => exact Or.inl ⟨rfl,Or.inl hpid⟩
  case isFalse hpid =>
    cases hpush : b.enqueued.push p.pid with
    | none => exact Or.inl ⟨rfl,Or.inr (BoundedQueue.push_eq_none.mp hpush)⟩
    | some q =>
      obtain ⟨hroom,hitems⟩ := BoundedQueue.push_eq_some.mp hpush
      exact Or.inr ⟨hpid,hroom,hitems⟩

theorem Sound.leave (hb : b.Sound) (p : Proc) : (b.leave p).Sound := by
  constructor
  · intro q
    by_cases hq : q = p
    · subst hq
      simp [Board.leave]
    · simp [Board.leave,hq,hb.status_isSome]
  · intro q h
    by_cases hq : q = p
    · subst hq
      simp [Board.leave] at h
    · exact hb.live q (by simpa [Board.leave,hq] using h)

theorem Sound.step {userschedPid : ℕ} {e : KernelEvent} (hb : b.Sound) (he : b.Admits e) :
    (b.step userschedPid e).Sound := by
  cases e with
  | spawn p cpu mm =>
    refine ⟨(hb.leave p).status_isSome,fun q h => ?_⟩
    have hlive : b.pids.Live q := (hb.leave p).live q h
    have hne : q.pid ≠ p.pid := by
      intro hpid
      rw [PidTable.Live,hpid,he] at hlive
      cases hlive
    exact (Function.update_of_ne hne _ _).trans hlive
  | exit p =>
    refine ⟨(hb.leave p).status_isSome,fun q h => ?_⟩
    have hlive : b.pids.Live q := (hb.leave p).live q h
    have hne : q.pid ≠ p.pid := by
      intro hpid
      have hqp : q = p := hlive.unique he hpid
      rw [hqp] at h
      simp [Board.step,Board.leave] at h
    exact (Function.update_of_ne hne _ _).trans hlive
  | enable p alloc =>
    unfold Board.step
    dsimp only
    split
    case isFalse => exact hb
    case isTrue =>
      constructor
      · intro q
        by_cases hq : q = p
        · subst hq
          simp [Board.join]
        · simp [Board.join,hq,hb.status_isSome]
      · intro q h
        by_cases hq : q = p
        · subst hq
          exact he.1
        · exact hb.live q (by simpa [Board.join,hq] using h)
  | disable p => exact hb.leave p
  | dispatch cpu env =>
    refine ⟨fun q => Eq.trans ?_ (hb.status_isSome q),hb.live⟩
    cases hlast : (decisionsFor b.pids q b.dispatched.items).getLast? with
    | none => exact congrArg Option.isSome (consume_status_of_none hlast)
    | some d => exact (congrArg Option.isSome (consume_status_of_some hlast)).trans Option.isSome_map
  | _ => exact hb

end Board

namespace KernelSide
variable {s t : KernelSide}

/-- An `enable` event either fails and shows nothing, or the task joins, with a fresh context. -/
theorem enable_step {userschedPid : ℕ} {p : Proc} {alloc : Bool} (hs : s.board.Sound)
    (h : (serverlessOps userschedPid).step s (.enable p alloc) = some t) :
    (alloc = false ∧ t.board = s.board ∧ (t.kern.task p).enabled = false) ∨
      (alloc = true ∧ t.board = s.board.join userschedPid p ∧ (t.kern.task p).enabled = true ∧
        s.board.status p = none) := by
  obtain ⟨hadmits,hb⟩ := board_step h
  have hnew : s.board.status p = none := by
    rw [← Option.not_isSome_iff_eq_none,hs.status_isSome,hadmits.2]
    exact Bool.false_ne_true
  have henabled : ∀ b : Board, t.board = b → (t.kern.task p).enabled = b.enabled p :=
    fun b hb => congrFun (congrArg Board.enabled hb) p
  cases alloc with
  | false =>
    have hsame : t.board = s.board := hb.trans (if_neg (by rw [hnew]; simp))
    exact Or.inl ⟨rfl,hsame,(henabled _ hsame).trans hadmits.2⟩
  | true =>
    have hjoin : t.board = s.board.join userschedPid p := hb.trans (if_pos (Or.inr rfl))
    exact Or.inr ⟨rfl,hjoin,(henabled _ hjoin).trans (Function.update_self _ _ _),hnew⟩

end KernelSide

end ServerlessSched.UserAssigned
