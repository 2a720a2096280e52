import ServerlessSched.Kernel.SchedExt
import ServerlessSched.UserAssigned.Daemon

/-! # The BPF component of the userspace-assigned scheduler

Its callbacks over the kernel and the maps shared with the daemon. Every task other than
the daemon is announced to it when it is enabled, and is withheld from every queue until
a decision for its PID comes back.
-/
namespace ServerlessSched.UserAssigned

structure TaskCtx where
  slice : UInt64
  lastSumExecRuntime : UInt64
  hasSlice : Bool

structure Bss where
  link : Link
  nrUserEnqueues : UInt64
  nrFailedEnqueues : UInt64

abbrev KernelSide := Sched TaskCtx Bss

def enomem : ℤ := 12

namespace KernelSide

def start (k : Kern TaskCtx) : KernelSide := ⟨k.boot,⟨.start,0,0⟩⟩

def setLink (s : KernelSide) (l : Link) : KernelSide := { s with bss := { s.bss with link := l } }

def sendWakeMsg (reserve : Bool) (s : KernelSide) : KernelSide :=
  if reserve then s.setLink s.bss.link.submitWakeMsg
  else s.onKern (fun k => k.scxBpfError "failed to reserve ringbuf slot\n")

def dispatchUserScheduler (userschedPid : ℕ) (reserve : Bool) (s : KernelSide) : KernelSide :=
  match s.kern.pids.holder userschedPid with
  | none =>
    sendWakeMsg reserve
      (s.onKern (fun k => k.scxBpfError s!"Failed to find usersched task {userschedPid}"))
  | some p => sendWakeMsg reserve (s.onKern (fun k => k.scxBpfDsqInsert p .global sliceInf))

/-- A full map sends the task to the shared queue with the default slice, without a record. -/
def enqueueTaskInUserspace (p : Proc) (s : KernelSide) : KernelSide :=
  match s.bss.link.enqueued.push p.pid with
  | none =>
    { kern := (s.kern.scxBpfDsqInsertVtime p sliceDfl
        (fallbackClamp s.kern.globalVtime (s.kern.task p).dsqVtime)).scxBpfKickCpu
          (s.kern.task p).cpu .plain
      bss := { s.bss with nrFailedEnqueues := s.bss.nrFailedEnqueues + 1 } }
  | some q =>
    { s with bss := { s.bss with
        nrUserEnqueues := s.bss.nrUserEnqueues + 1
        link := { s.bss.link with enqueued := q }.setUserschedNeeded } }

/-- What `dequeue_tasks_from_userspace` does with one decision. The task found is the one
that holds the PID now; one that exited is skipped. -/
def applyDecision (uTask : DispatchedTask) (idleCpu : Option ℕ) (k : Kern TaskCtx) : Kern TaskCtx :=
  match k.pids.holder uTask.pid with
  | none => k
  | some p =>
    let vtime := lagClamp k.globalVtime (k.task p).dsqVtime
    match (k.task p).ctx with
    | none =>
      let k := k.modify p (fun t => { t with slice := sliceDfl })
      (k.scxBpfDsqInsertVtime p sliceDfl vtime).kickIdleCpu p idleCpu
    | some tctx =>
      let k := k.modify p (fun t => { t with
        slice := tctx.slice
        ctx := some { tctx with slice := translateSlice uTask.slice, hasSlice := true } })
      (k.scxBpfDsqInsertVtime p (translateSlice uTask.slice) vtime).kickIdleCpu p idleCpu

/-- The loop over at most `rounds` decisions; `pick` are the idle CPUs the kernel picks. -/
def dequeueRounds (pick : ℕ → Option ℕ) : ℕ → KernelSide → KernelSide
  | 0, s => s
  | rounds + 1, s =>
    match s.bss.link.dispatched.pop with
    | none => s
    | some (uTask,rest) =>
      dequeueRounds pick rounds
        (setLink (s.onKern (applyDecision uTask (pick rounds))) { s.bss.link with dispatched := rest })

def dequeueTasksFromUserspace (pick : ℕ → Option ℕ) (s : KernelSide) : KernelSide :=
  dequeueRounds pick maxEnqueuedTasks s

/-- Storage that exists is returned as it is. -/
def createTaskCtx (p : Proc) (alloc : Bool) (k : Kern TaskCtx) : Kern TaskCtx × ℤ :=
  match (k.task p).ctx with
  | some _ => (k,0)
  | none =>
    if alloc then
      (k.modify p (fun t => { t with ctx := some ⟨sliceDfl,t.sumExecRuntime,false⟩ }),0)
    else (k.scxBpfError s!"Failed to create task ctx for {p.pid}",-1)

def selectCpu (p : Proc) (cpu : ℕ) (isIdle : Bool) (k : Kern TaskCtx) : Kern TaskCtx :=
  if isIdle then
    match (k.task p).ctx with
    | none => k.scxBpfError s!"Failed to get task ctx for {p.pid}"
    | some tctx =>
      if tctx.hasSlice then (k.scxBpfDsqInsert p (.localOn cpu) tctx.slice).scxBpfKickCpu cpu .idle
      else k
  else k

/-- A task without a slice is inserted nowhere: it waits for its decision. -/
def enqueue (userschedPid : ℕ) (p : Proc) (idleCpu : Option ℕ) (k : Kern TaskCtx) : Kern TaskCtx :=
  if p.pid = userschedPid then k.scxBpfDsqInsert p .global sliceInf
  else
    match (k.task p).ctx with
    | none => k.scxBpfError s!"Failed to get task ctx for {p.pid}"
    | some tctx => if tctx.hasSlice then k.enqueueShared p tctx.slice idleCpu else k

/-- The start of `dispatch`: the daemon is let in when it is needed. -/
def serveDaemon (userschedPid : ℕ) (reserve : Bool) (s : KernelSide) : KernelSide :=
  match s.bss.link.testAndClearUserschedNeeded with
  | (true,l) => (s.setLink l).dispatchUserScheduler userschedPid reserve
  | (false,l) => s.setLink l

def dispatch (userschedPid cpu : ℕ) (env : DispatchEnv) (s : KernelSide) : KernelSide :=
  let s := dequeueTasksFromUserspace env.pick (s.serveDaemon userschedPid env.reserve)
  if cpu = 0 then s else s.onKern (fun k => k.scanSharedDsq cpu env.moves k.sharedOrder)

/-- A CPU that goes idle wakes the daemon when either counter reports work. -/
def updateIdle (cpu : ℕ) (idle : Bool) (s : KernelSide) : KernelSide :=
  if idle then
    if s.bss.link.nrUserspaceQueued ≠ 0 ∨ s.bss.link.nrUserspaceScheduled ≠ 0 then
      (s.setLink s.bss.link.setUserschedNeeded).onKern (fun k => k.scxBpfKickCpu cpu .plain)
    else s
  else s

def running (p : Proc) (k : Kern TaskCtx) : Kern TaskCtx :=
  if timeBefore k.globalVtime (k.task p).dsqVtime then
    { k with globalVtime := (k.task p).dsqVtime }
  else k

def stopping (p : Proc) (k : Kern TaskCtx) : Kern TaskCtx :=
  k.chargeStopping TaskCtx.lastSumExecRuntime (fun tctx now => { tctx with lastSumExecRuntime := now }) p

def enable (userschedPid : ℕ) (p : Proc) (alloc : Bool) (s : KernelSide) : KernelSide × ℤ :=
  let s := s.onKern (fun k => k.modify p (fun t => { t with dsqVtime := k.globalVtime }))
  match createTaskCtx p alloc s.kern with
  | (k,ret) =>
    if ret < 0 then ({ s with kern := k },-enomem)
    else if p.pid = userschedPid then ({ s with kern := k },0)
    else (enqueueTaskInUserspace p { s with kern := k },0)

def disable (p : Proc) (k : Kern TaskCtx) : Kern TaskCtx :=
  k.modify p (fun t => { t with ctx := none })

end KernelSide

open KernelSide in
/-- The callbacks registered for the process `userschedPid`; `dispatch_max_batch` is not set. -/
def serverlessOps (userschedPid : ℕ) : SchedExtOps TaskCtx Bss where
  selectCpu p cpu isIdle s := s.onKern (selectCpu p cpu isIdle)
  enqueue p idleCpu s := s.onKern (enqueue userschedPid p idleCpu)
  dispatch cpu env s := dispatch userschedPid cpu env s
  running p s := s.onKern (running p)
  stopping p s := s.onKern (stopping p)
  updateIdle cpu idle s := updateIdle cpu idle s
  enable p alloc s := enable userschedPid p alloc s
  disable p s := s.onKern (disable p)
  dispatchMaxBatch := none

end ServerlessSched.UserAssigned
