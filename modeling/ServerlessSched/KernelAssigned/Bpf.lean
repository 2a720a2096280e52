import ServerlessSched.Kernel.Frames
import ServerlessSched.Policy.TaskSlice

/-! # The BPF component of the kernel-assigned scheduler

A task gets its slice when it is enabled, from its own command line. Nothing is asked of a
daemon, and every task can be inserted at once.
-/
namespace ServerlessSched.KernelAssigned

structure TaskCtx where
  slice : UInt64
  lastSumExecRuntime : UInt64
deriving DecidableEq

structure Bss where
  nrEnabled : UInt64
  nrDisabled : UInt64

abbrev KernelSide := Sched TaskCtx Bss

def enomem : ℤ := 12

namespace KernelSide

def start (k : Kern TaskCtx) : KernelSide := ⟨k.boot,⟨0,0⟩⟩

/-- Storage that exists is returned as it is. -/
def createTaskCtx (p : Proc) (slice : UInt64) (alloc : Bool) (k : Kern TaskCtx) : Kern TaskCtx × ℤ :=
  match (k.task p).ctx with
  | some _ => (k,0)
  | none =>
    if alloc then (k.modify p (fun t => { t with ctx := some ⟨slice,t.sumExecRuntime⟩ }),0)
    else (k.scxBpfError s!"Failed to create task ctx for {p.pid}",-1)

def selectCpu (p : Proc) (cpu : ℕ) (isIdle : Bool) (k : Kern TaskCtx) : Kern TaskCtx :=
  if isIdle then
    match (k.task p).ctx with
    | none => k.scxBpfError s!"Failed to get task ctx for {p.pid}"
    | some tctx => (k.scxBpfDsqInsert p (.localOn cpu) tctx.slice).scxBpfKickCpu cpu .idle
  else k

def enqueue (p : Proc) (idleCpu : Option ℕ) (k : Kern TaskCtx) : Kern TaskCtx :=
  match (k.task p).ctx with
  | none => k.scxBpfError s!"Failed to get task ctx for {p.pid}"
  | some tctx => k.enqueueShared p tctx.slice idleCpu

def dispatch (cpu : ℕ) (env : DispatchEnv) (k : Kern TaskCtx) : Kern TaskCtx :=
  if cpu = 0 then k else k.scanSharedDsq cpu env.moves k.sharedOrder

def stopping (p : Proc) (k : Kern TaskCtx) : Kern TaskCtx :=
  k.chargeStopping TaskCtx.lastSumExecRuntime (fun tctx now => { tctx with lastSumExecRuntime := now }) p

/-- The slice is computed before the storage is looked up. -/
def enable (p : Proc) (alloc : Bool) (s : KernelSide) : KernelSide × ℤ :=
  let k := s.kern.modify p (fun t => { t with dsqVtime := s.kern.globalVtime })
  let slice := getTaskSlice (k.task p).mm
  match createTaskCtx p slice alloc k with
  | (k,ret) =>
    if ret < 0 then ({ s with kern := k },-enomem)
    else
      ({ kern := k.modify p (fun t => { t with slice := slice })
         bss := { s.bss with nrEnabled := s.bss.nrEnabled + 1 } },0)

/-- The context stays where it is. -/
def disable (s : KernelSide) : KernelSide :=
  { s with bss := { s.bss with nrDisabled := s.bss.nrDisabled + 1 } }

end KernelSide

namespace KernelSide
open Kern

/-- What `select_cpu` inserts. -/
theorem selectCpu_inserts {k : Kern TaskCtx} {i : DsqInsert TaskCtx} {p : Proc} {cpu : ℕ} {isIdle : Bool}
    (hnone : k.inserts = []) (hi : i ∈ (selectCpu p cpu isIdle k).inserts) :
    i.task = p ∧ i.dsq = .localOn cpu ∧ ∃ tctx, (k.task p).ctx = some tctx ∧ i.slice = tctx.slice := by
  unfold selectCpu at hi
  split at hi
  case isFalse =>
    rw [hnone] at hi
    cases hi
  case isTrue =>
    cases hctx : (k.task p).ctx with
    | none =>
      rw [hctx,inserts_scxBpfError,hnone] at hi
      cases hi
    | some tctx =>
      rw [hctx,inserts_scxBpfKickCpu,inserts_scxBpfDsqInsert,hnone] at hi
      cases List.mem_singleton.mp hi
      exact ⟨rfl,rfl,tctx,rfl,rfl⟩

/-! ## What enabling does -/

/-- A task that starts its time under the scheduler: an old context is kept. -/
def enrol (now : UInt64) (t : TaskStruct TaskCtx) : TaskStruct TaskCtx :=
  { t with
    slice := getTaskSlice t.mm
    dsqVtime := now
    ctx := some (t.ctx.getD ⟨getTaskSlice t.mm,t.sumExecRuntime⟩) }

def refuse (p : Proc) (k : Kern TaskCtx) : Kern TaskCtx :=
  (k.modify p (fun t => { t with dsqVtime := k.globalVtime })).scxBpfError
    s!"Failed to create task ctx for {p.pid}"

theorem enrol_of_some {now : UInt64} {t : TaskStruct TaskCtx} {tctx : TaskCtx} (h : t.ctx = some tctx) :
    { t with slice := getTaskSlice t.mm, dsqVtime := now } = enrol now t := by
  rcases t with ⟨_,_,_,_,_,ctx,_,_⟩
  cases h
  rfl

theorem enrol_of_none {now : UInt64} {t : TaskStruct TaskCtx} (h : t.ctx = none) :
    { t with
      slice := getTaskSlice t.mm
      dsqVtime := now
      ctx := some ⟨getTaskSlice t.mm,t.sumExecRuntime⟩ } = enrol now t := by
  rcases t with ⟨_,_,_,_,_,ctx,_,_⟩
  cases h
  rfl

theorem enable_cases (p : Proc) (alloc : Bool) (s : KernelSide) :
    ((s.kern.task p).ctx = none ∧ alloc = false ∧
      enable p alloc s = (s.onKern (refuse p),-enomem)) ∨
    (((s.kern.task p).ctx.isSome ∨ alloc = true) ∧ enable p alloc s =
      (⟨s.kern.modify p (enrol s.kern.globalVtime),{ s.bss with nrEnabled := s.bss.nrEnabled + 1 }⟩,0)) := by
  unfold enable createTaskCtx
  simp only [modify_task_self]
  cases hctx : (s.kern.task p).ctx with
  | some tctx =>
    refine Or.inr ⟨Or.inl rfl,?_⟩
    simp only [if_neg (show ¬(0 : ℤ) < 0 by decide),modify_modify]
    rw [modify_congr (enrol_of_some hctx)]
  | none =>
    cases alloc with
    | false => exact Or.inl ⟨rfl,rfl,rfl⟩
    | true =>
      refine Or.inr ⟨Or.inr rfl,?_⟩
      simp only [if_true,if_neg (show ¬(0 : ℤ) < 0 by decide),modify_modify]
      rw [modify_congr (enrol_of_none hctx)]

end KernelSide

open KernelSide in
/-- There are no `running` and `update_idle` callbacks. -/
def serverlessOps : SchedExtOps TaskCtx Bss where
  selectCpu p cpu isIdle s := s.onKern (selectCpu p cpu isIdle)
  enqueue p idleCpu s := s.onKern (enqueue p idleCpu)
  dispatch cpu env s := s.onKern (dispatch cpu env)
  running _ s := s
  stopping p s := s.onKern (stopping p)
  updateIdle _ _ s := s
  enable p alloc s := enable p alloc s
  disable _ s := disable s
  dispatchMaxBatch := none

end ServerlessSched.KernelAssigned
