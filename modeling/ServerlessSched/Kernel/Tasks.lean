import ServerlessSched.Kernel.Clock
import ServerlessSched.Kernel.UserMemory
import ServerlessSched.Library.StampedQueue

/-! # The kernel's tasks and the calls a scheduler makes of the kernel

The part of the kernel state that the callbacks read and write: the fields of
`task_struct` they use, the PID table, the shared dispatch queue and the clock. The
calls of the running callback are recorded, each insertion together with the task
as the call finds it.
-/
namespace ServerlessSched

/-- A process. PIDs are recycled, so that two holders of one PID differ in `birth`. -/
structure Proc where
  pid : ℕ
  birth : ℕ
deriving DecidableEq, Repr

/-- What last happened to an enabled task: nothing that holds it, handed to `enqueue` and
inserted nowhere since, inserted into a dispatch queue, or put on a CPU. -/
inductive Phase
  | idle
  | withheld
  | queued
  | running
deriving DecidableEq, Repr

/-- The fields of `task_struct`, with the scheduler's task-local storage `ctx`. -/
structure TaskStruct (C : Type) where
  slice : UInt64
  dsqVtime : UInt64
  sumExecRuntime : UInt64
  cpu : ℕ
  mm : Mm
  ctx : Option C
  enabled : Bool
  phase : Phase

structure PidTable where
  holder : ℕ → Option Proc
  holder_pid : ∀ n p, holder n = some p → p.pid = n

namespace PidTable

def add (t : PidTable) (p : Proc) : PidTable where
  holder := Function.update t.holder p.pid (some p)
  holder_pid := by
    intro n q h
    by_cases hn : n = p.pid
    · subst hn
      rw [Function.update_self] at h
      cases h
      rfl
    · rw [Function.update_of_ne hn] at h
      exact t.holder_pid n q h

def remove (t : PidTable) (n : ℕ) : PidTable where
  holder := Function.update t.holder n none
  holder_pid := by
    intro m q h
    by_cases hm : m = n
    · subst hm
      rw [Function.update_self] at h
      cases h
    · rw [Function.update_of_ne hm] at h
      exact t.holder_pid m q h

def Live (t : PidTable) (p : Proc) : Prop := t.holder p.pid = some p

instance (t : PidTable) (p : Proc) : Decidable (t.Live p) :=
  inferInstanceAs (Decidable (t.holder p.pid = some p))

/-- At most one living process has a given PID. -/
theorem Live.unique {t : PidTable} {p q : Proc} (hp : t.Live p) (hq : t.Live q)
    (h : p.pid = q.pid) : p = q := by
  unfold Live at hp hq
  rw [h,hq] at hp
  exact (Option.some.inj hp).symm

end PidTable

inductive DsqId
  | shared
  | global
  | localOn (cpu : ℕ)
deriving DecidableEq, Repr

/-- An insertion call, with the task and the clock as the call finds them. -/
structure DsqInsert (C : Type) where
  task : Proc
  dsq : DsqId
  slice : UInt64
  vtime : Option UInt64
  seen : TaskStruct C
  clock : UInt64

inductive KickFlag
  | plain
  | idle
deriving DecidableEq, Repr

inductive Call (C : Type)
  | insert (i : DsqInsert C)
  | kick (cpu : ℕ) (flag : KickFlag)
  | move (p : Proc) (cpu : ℕ) (moved : Bool)
  | error (text : String)

/-- The kernel with one scheduler's clock; `calls` lists what the callback that ran last
asked of the kernel, in order. -/
structure Kern (C : Type) where
  globalVtime : UInt64
  task : Proc → TaskStruct C
  pids : PidTable
  sharedDsq : StampedQueue Proc
  calls : List (Call C)

namespace Kern
variable {C : Type}

def modify (k : Kern C) (p : Proc) (f : TaskStruct C → TaskStruct C) : Kern C :=
  { k with task := Function.update k.task p (f (k.task p)) }

def record (k : Kern C) (c : Call C) : Kern C := { k with calls := k.calls ++ [c] }

def inserts (k : Kern C) : List (DsqInsert C) :=
  k.calls.filterMap (fun c => match c with | .insert i => some i | _ => none)

def scxBpfError (k : Kern C) (text : String) : Kern C := k.record (.error text)

def scxBpfKickCpu (k : Kern C) (cpu : ℕ) (flag : KickFlag) : Kern C := k.record (.kick cpu flag)

/-- `scx_bpf_dsq_insert`: the slice is stored into the task at once. -/
def scxBpfDsqInsert (k : Kern C) (p : Proc) (dsq : DsqId) (slice : UInt64) : Kern C :=
  (k.record (.insert ⟨p,dsq,slice,none,k.task p,k.globalVtime⟩)).modify p
    (fun t => { t with slice := slice })

/-- `scx_bpf_dsq_insert_vtime` on the shared queue: slice and virtual time are stored into
the task at once; the queue itself changes when the callback returns. -/
def scxBpfDsqInsertVtime (k : Kern C) (p : Proc) (slice vtime : UInt64) : Kern C :=
  (k.record (.insert ⟨p,.shared,slice,some vtime,k.task p,k.globalVtime⟩)).modify p
    (fun t => { t with slice := slice, dsqVtime := vtime })

/-- The kernel lets an inserted task enter its queue. -/
def land (k : Kern C) (i : DsqInsert C) : Kern C :=
  { k.modify i.task (fun t => { t with phase := .queued }) with
    sharedDsq := if i.dsq = .shared then k.sharedDsq.insert i.task else k.sharedDsq }

/-- One recorded insertion takes effect: always for the callbacks that place the task
themselves (`force`), otherwise only for a task the scheduler was withholding. -/
def settleInsert (force : Bool) (k : Kern C) (i : DsqInsert C) : Kern C :=
  if force || (k.task i.task).phase = .withheld then k.land i else k

/-- The recorded insertions take effect when the callback returns. -/
def settle (force : Bool) (k : Kern C) : Kern C := k.inserts.foldl (settleInsert force) k

/-- The wakeup after an insertion: the idle CPU the kernel picked, else the task's CPU
unless that is CPU 0. -/
def kickIdleCpu (k : Kern C) (p : Proc) (idleCpu : Option ℕ) : Kern C :=
  match idleCpu with
  | some cpu => k.scxBpfKickCpu cpu .idle
  | none =>
    if (k.task p).cpu ≠ 0 then k.scxBpfKickCpu (k.task p).cpu .idle else k

/-- The insertion both enqueue callbacks end with. -/
def enqueueShared (k : Kern C) (p : Proc) (slice : UInt64) (idleCpu : Option ℕ) : Kern C :=
  (k.scxBpfDsqInsertVtime p slice (lagClamp k.globalVtime (k.task p).dsqVtime)).kickIdleCpu p idleCpu

/-- `scx_bpf_dsq_move` to the local queue of `cpu`; the kernel decides whether it moves. -/
def scxBpfDsqMove (k : Kern C) (p : Proc) (cpu : ℕ) (moved : Bool) : Kern C :=
  let k := k.record (.move p cpu moved)
  if moved then
    { k.modify p (fun t => { t with phase := .queued }) with sharedDsq := k.sharedDsq.erase p }
  else k

/-- The compare-and-swap of the dispatch loop, which nothing disturbs within a callback. -/
def advanceClock (k : Kern C) (vtime : UInt64) : Kern C :=
  if vtime > k.globalVtime then { k with globalVtime := vtime } else k

/-- The dispatch loop of both schedulers over the tasks in queue order, up to the first
one the kernel moves. -/
def scanSharedDsq (cpu : ℕ) (moves : Proc → Bool) : List Proc → Kern C → Kern C
  | [], k => k
  | p :: rest, k =>
    let k := k.advanceClock (k.task p).dsqVtime
    if moves p then k.scxBpfDsqMove p cpu true
    else scanSharedDsq cpu moves rest (k.scxBpfDsqMove p cpu false)

/-- The shared queue as `bpf_for_each(scx_dsq, ...)` walks it. -/
def sharedOrder (k : Kern C) : List Proc :=
  (k.sharedDsq.order (fun p => (k.task p).dsqVtime.toNat)).map Prod.snd

/-- `stopping` of both schedulers: charge the runtime since the baseline of the task's
context and move the baseline. -/
def chargeStopping (last : C → UInt64) (setLast : C → UInt64 → C) (k : Kern C) (p : Proc) : Kern C :=
  match (k.task p).ctx with
  | none => k.scxBpfError s!"Failed to get task ctx for {p.pid}"
  | some c =>
    k.modify p (fun t =>
      { t with
        ctx := some (setLast c t.sumExecRuntime)
        dsqVtime := t.dsqVtime + (t.sumExecRuntime - last c) })

/-! ## What each operation leaves unchanged -/

section Frame
variable (k : Kern C) (p q : Proc) (f : TaskStruct C → TaskStruct C) (c : Call C)

theorem modify_task : (k.modify p f).task q = if q = p then f (k.task p) else k.task q := by
  by_cases h : q = p
  · subst h
    simp [modify]
  · simp [modify,h]

@[simp] theorem modify_task_self : (k.modify p f).task p = f (k.task p) := by simp [modify]
@[simp] theorem modify_task_ne {p q : Proc} (h : q ≠ p) : (k.modify p f).task q = k.task q := by
  simp [modify,h]
@[simp] theorem modify_globalVtime : (k.modify p f).globalVtime = k.globalVtime := rfl
@[simp] theorem modify_pids : (k.modify p f).pids = k.pids := rfl
@[simp] theorem modify_sharedDsq : (k.modify p f).sharedDsq = k.sharedDsq := rfl
@[simp] theorem modify_calls : (k.modify p f).calls = k.calls := rfl
@[simp] theorem record_globalVtime : (k.record c).globalVtime = k.globalVtime := rfl
@[simp] theorem record_task : (k.record c).task = k.task := rfl
@[simp] theorem record_pids : (k.record c).pids = k.pids := rfl
@[simp] theorem record_sharedDsq : (k.record c).sharedDsq = k.sharedDsq := rfl
@[simp] theorem record_calls : (k.record c).calls = k.calls ++ [c] := rfl

end Frame

end Kern
end ServerlessSched
