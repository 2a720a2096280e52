import ServerlessSched.Kernel.Tasks
import ServerlessSched.Library.Runs

/-! # The kernel driving a `sched_ext` scheduler

A scheduler is the table of callbacks it registers. The kernel calls them in any order it
can issue the events in.
-/
namespace ServerlessSched

structure Sched (C X : Type) where
  kern : Kern C
  bss : X

/-- The kernel's answers during one `dispatch`: which tasks it agrees to move, which idle
CPU it picks in each round of the decision loop, whether the ring buffer has a slot. -/
structure DispatchEnv where
  moves : Proc → Bool
  pick : ℕ → Option ℕ
  reserve : Bool

/-- What can happen on the kernel side. -/
inductive KernelEvent
  | spawn (p : Proc) (cpu : ℕ) (mm : Mm)
  | exec (p : Proc) (mm : Mm)
  | tick (p : Proc) (ns : ℕ)
  | exit (p : Proc)
  | enable (p : Proc) (alloc : Bool)
  | disable (p : Proc)
  | selectCpu (p : Proc) (cpu : ℕ) (isIdle : Bool)
  | enqueue (p : Proc) (idleCpu : Option ℕ)
  | dispatch (cpu : ℕ) (env : DispatchEnv)
  | running (p : Proc)
  | stopping (p : Proc)
  | updateIdle (cpu : ℕ) (idle : Bool)

/-- Storage is not refused at the event. -/
def KernelEvent.Granted : KernelEvent → Prop
  | .enable _ alloc => alloc = true
  | _ => True

/-- The callback table. `enable` returns a code, negative for failure; a missing
`dispatchMaxBatch` means the kernel's default. -/
structure SchedExtOps (C X : Type) where
  selectCpu : Proc → ℕ → Bool → Sched C X → Sched C X
  enqueue : Proc → Option ℕ → Sched C X → Sched C X
  dispatch : ℕ → DispatchEnv → Sched C X → Sched C X
  running : Proc → Sched C X → Sched C X
  stopping : Proc → Sched C X → Sched C X
  updateIdle : ℕ → Bool → Sched C X → Sched C X
  enable : Proc → Bool → Sched C X → Sched C X × ℤ
  disable : Proc → Sched C X → Sched C X
  dispatchMaxBatch : Option ℕ

/-- `SCX_DSP_DFL_MAX_BATCH`. -/
def dspDflMaxBatch : ℕ := 32

/-- The table as `sched_ext` has it, where `enable` returns nothing: a task is enabled whatever the code was. -/
def SchedExtOps.void {C X : Type} (ops : SchedExtOps C X) : SchedExtOps C X :=
  { ops with enable := fun p alloc s => ((ops.enable p alloc s).1,0) }

/-- How many insertions one `dispatch` may ask for before the kernel aborts the scheduler. -/
def SchedExtOps.batchLimit {C X : Type} (ops : SchedExtOps C X) : ℕ :=
  ops.dispatchMaxBatch.getD dspDflMaxBatch

namespace Sched
variable {C X : Type}

def onKern (f : Kern C → Kern C) (s : Sched C X) : Sched C X := { s with kern := f s.kern }

@[simp] theorem onKern_kern (f : Kern C → Kern C) (s : Sched C X) : (s.onKern f).kern = f s.kern := rfl
@[simp] theorem onKern_bss (f : Kern C → Kern C) (s : Sched C X) : (s.onKern f).bss = s.bss := rfl

end Sched

namespace Kern
variable {C : Type}

def clearCalls (k : Kern C) : Kern C := { k with calls := [] }

def spawn (p : Proc) (cpu : ℕ) (mm : Mm) (k : Kern C) : Kern C :=
  { k.modify p (fun _ => ⟨0,0,0,cpu,mm,none,false,.idle⟩) with pids := k.pids.add p }

def exec (p : Proc) (mm : Mm) (k : Kern C) : Kern C := k.modify p (fun t => { t with mm := mm })

def tick (p : Proc) (ns : ℕ) (k : Kern C) : Kern C :=
  k.modify p (fun t => { t with sumExecRuntime := t.sumExecRuntime + UInt64.ofNat ns })

def setEnabled (p : Proc) (k : Kern C) : Kern C := k.modify p (fun t => { t with enabled := true })

def setPhase (p : Proc) (phase : Phase) (k : Kern C) : Kern C :=
  k.modify p (fun t => { t with phase := phase })

/-- A task leaves the scheduler: the kernel takes it off the shared queue. -/
def leave (p : Proc) (k : Kern C) : Kern C :=
  { k.modify p (fun t => { t with enabled := false, phase := .idle }) with
    sharedDsq := k.sharedDsq.erase p }

def reap (p : Proc) (k : Kern C) : Kern C :=
  { k.modify p (fun t => { t with ctx := none }) with pids := k.pids.remove p.pid }

/-- The state in which a scheduler is loaded: nothing enabled, no storage, an empty queue. -/
def boot (k : Kern C) : Kern C where
  globalVtime := 0
  task := fun p => { k.task p with ctx := none, enabled := false, phase := .idle }
  pids := k.pids
  sharedDsq := .empty
  calls := []

def fresh : Kern C where
  globalVtime := 0
  task _ := ⟨0,0,0,1,⟨0,0,fun _ => none⟩,none,false,.idle⟩
  pids := (⟨fun _ => none,fun _ _ h => by cases h⟩ : PidTable).add ⟨1,0⟩
  sharedDsq := .empty
  calls := []

end Kern

/-- The events the kernel can issue: callbacks other than `enable` for enabled tasks only,
`enable` for a living task that is not enabled, and CPU time that fits its 64-bit count. -/
def Kern.Issues {C : Type} (k : Kern C) : KernelEvent → Prop
  | .spawn p _ _ => k.pids.holder p.pid = none
  | .exec p _ => k.pids.Live p
  | .tick p ns => k.pids.Live p ∧ (k.task p).sumExecRuntime.toNat + ns < 2 ^ 64
  | .exit p => k.pids.Live p
  | .enable p _ => k.pids.Live p ∧ (k.task p).enabled = false
  | .disable p => (k.task p).enabled = true
  | .selectCpu p _ _ => (k.task p).enabled = true
  | .enqueue p _ => (k.task p).enabled = true
  | .running p => (k.task p).enabled = true
  | .stopping p => (k.task p).enabled = true
  | .dispatch _ _ => True
  | .updateIdle _ _ => True

instance {C : Type} (k : Kern C) (e : KernelEvent) : Decidable (k.Issues e) := by
  cases e <;> unfold Kern.Issues <;> infer_instance

namespace SchedExtOps
variable {C X : Type} (ops : SchedExtOps C X)

/-- What happens at an event the kernel issues. A callback is atomic; the insertions it asks
for take effect when it returns. A task is enabled unless `enable` fails, which is a code that
`sched_ext` itself never gets to see (`void`), and a task that exits while enabled is disabled
first. -/
def perform (s : Sched C X) : KernelEvent → Sched C X
  | .spawn p cpu mm => s.onKern (Kern.spawn p cpu mm)
  | .exec p mm => s.onKern (Kern.exec p mm)
  | .tick p ns => s.onKern (Kern.tick p ns)
  | .exit p =>
    (if (s.kern.task p).enabled then (ops.disable p s).onKern (Kern.leave p) else s).onKern (Kern.reap p)
  | .enable p alloc =>
    if (ops.enable p alloc s).2 < 0 then (ops.enable p alloc s).1
    else ((ops.enable p alloc s).1.onKern (Kern.settle true)).onKern (Kern.setEnabled p)
  | .disable p => (ops.disable p s).onKern (Kern.leave p)
  | .selectCpu p cpu isIdle => (ops.selectCpu p cpu isIdle s).onKern (Kern.settle true)
  | .enqueue p idleCpu =>
    (ops.enqueue p idleCpu (s.onKern (Kern.setPhase p .withheld))).onKern (Kern.settle false)
  | .dispatch cpu env => (ops.dispatch cpu env s).onKern (Kern.settle false)
  | .running p => ops.running p (s.onKern (Kern.setPhase p .running))
  | .stopping p => (ops.stopping p s).onKern (Kern.setPhase p .idle)
  | .updateIdle cpu idle => ops.updateIdle cpu idle s

/-- One event; refused when the kernel would not issue it in this state. -/
def step (s : Sched C X) (e : KernelEvent) : Option (Sched C X) :=
  if s.kern.Issues e then some (ops.perform (s.onKern Kern.clearCalls) e) else none

variable {ops}

theorem step_eq_some {s t : Sched C X} {e : KernelEvent} :
    ops.step s e = some t ↔ s.kern.Issues e ∧ t = ops.perform (s.onKern Kern.clearCalls) e := by
  unfold step
  split
  case isTrue h => simp [h,eq_comm]
  case isFalse h => simp [h]

/-! ## A kernel that takes no code -/

/-- `enable` fails only if storage is refused. -/
def Succeeds (ops : SchedExtOps C X) : Prop := ∀ p s, (ops.enable p true s).2 = 0

theorem void_step (hops : ops.Succeeds) {e : KernelEvent} (he : e.Granted) (s : Sched C X) :
    ops.void.step s e = ops.step s e := by
  have hperform : ops.void.perform (s.onKern Kern.clearCalls) e = ops.perform (s.onKern Kern.clearCalls) e := by
    cases e with
    | enable p alloc =>
      obtain rfl : alloc = true := he
      unfold SchedExtOps.perform
      dsimp only
      rw [hops p (s.onKern Kern.clearCalls)]
      rfl
    | _ => rfl
  rw [step,step,hperform]

/-- As long as storage is granted, it makes no difference whether the code is taken. -/
theorem void_run (hops : ops.Succeeds) {es : List KernelEvent} (hes : ∀ e ∈ es, e.Granted) (s : Sched C X) :
    Runs.run ops.void.step s es = Runs.run ops.step s es :=
  Runs.run_congr (fun e he s => void_step hops (hes e he) s) s

end SchedExtOps
end ServerlessSched
