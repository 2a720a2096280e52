import ServerlessSched.Library.Runs
import ServerlessSched.Loadgen.Workload
import Mathlib.Algebra.BigOperators.Fin
import Mathlib.Algebra.Order.BigOperators.Group.Multiset

/-! # The threads of the executor

The dispatch loop, the launchers, the reaper and the children of the process, interleaved at
the granularity of queue operations, of the lock and of system calls.
-/
namespace ServerlessSched.Loadgen
open Runs

abbrev numLaunchers : ℕ := 4

instance : NeZero numLaunchers := ⟨by decide⟩

/-- A child process. An item is launched at most once, so the item tells apart the children
that get the same PID one after the other. -/
structure Child where
  pid : ℕ
  item : Request
deriving DecidableEq

/-- A value of `active_tasks`. -/
structure TaskInfo where
  arg : String
  requestTime : ℚ
  index : ℕ
  proc : Child
deriving DecidableEq

structure Result where
  output : String
  arg : String
  requestTime : ℚ
  returnTime : ℚ
deriving DecidableEq

/-- Where a launcher is: in `get`, before the lock, before `Popen` and before the insertion,
both with the lock, before `task_done` for an item and for the sentinel, or past its loop. -/
inductive Launcher
  | waiting
  | taken (item : Request)
  | locked (item : Request)
  | forked (item : Request) (proc : Child)
  | finishing
  | leaving
  | gone
deriving DecidableEq

inductive MainPc
  | dispatching (todo : List Request)
  | joining
  | sending (n : ℕ)
  | joiningLaunchers
  | joiningReaper
  | done

/-- Where the reaper is: before the test of its loop, in `os.wait`, before the lock with the
PID of a child, before the write, or past its loop. -/
inductive ReaperPc
  | testing
  | waiting
  | reaped (proc : Child)
  | popped (info : TaskInfo)
  | ended
deriving DecidableEq

/-- `lock` is the launcher that holds `tasks_lock`, and `stdout` what a child that exited has
written. `launched` has the child of every `Popen` object so far, the dropped ones included. The
histories `taken` and `written` are not part of the program. -/
structure Executor where
  main : MainPc
  queue : List (Option Request)
  unfinished : ℕ
  launchers : Fin numLaunchers → Launcher
  lock : Option (Fin numLaunchers)
  running : Multiset Child
  zombies : Multiset Child
  stdout : Child → Option String
  activeTasks : ℕ → Option TaskInfo
  reaper : ReaperPc
  reapedCount : ℕ
  results : ℕ → Option Result
  launched : List Child
  taken : List Request
  written : List Child

inductive ExecutorEvent
  | put
  | endDispatch
  | joinQueue
  | putSentinel
  | joinLaunchers
  | joinReaper
  | get (i : Fin numLaunchers)
  | timeout (i : Fin numLaunchers)
  | acquire (i : Fin numLaunchers)
  | popen (i : Fin numLaunchers) (pid : ℕ)
  | popenRaises (i : Fin numLaunchers)
  | insert (i : Fin numLaunchers)
  | taskDone (i : Fin numLaunchers)
  | exit (proc : Child) (output : String)
  | reclaim (proc : Child)
  | test
  | wait (proc : Child)
  | noChild
  | pop
  | write (returnTime : ℚ)

namespace Executor

def start (workload : List Request) : Executor where
  main := .dispatching workload
  queue := []
  unfinished := 0
  launchers _ := .waiting
  lock := none
  running := 0
  zombies := 0
  stdout _ := none
  activeTasks _ := none
  reaper := .testing
  reapedCount := 0
  results _ := none
  launched := []
  taken := []
  written := []

def setLauncher (s : Executor) (i : Fin numLaunchers) (l : Launcher) : Executor :=
  { s with launchers := Function.update s.launchers i l }

/-! ## The threads -/

/-- `main` from its dispatch loop on. -/
def mainStep (s : Executor) : ExecutorEvent → Option Executor
  | .put =>
    match s.main with
    | .dispatching (item :: todo) =>
      some { s with
        main := .dispatching todo
        queue := s.queue ++ [some item]
        unfinished := s.unfinished + 1 }
    | _ => none
  | .endDispatch =>
    match s.main with
    | .dispatching [] => some { s with main := .joining }
    | _ => none
  | .joinQueue =>
    match s.main with
    | .joining => if s.unfinished = 0 then some { s with main := .sending 0 } else none
    | _ => none
  | .putSentinel =>
    match s.main with
    | .sending n =>
      if n < numLaunchers then
        some { s with
          main := .sending (n + 1)
          queue := s.queue ++ [none]
          unfinished := s.unfinished + 1 }
      else some { s with main := .joiningLaunchers }
    | _ => none
  | .joinLaunchers =>
    match s.main with
    | .joiningLaunchers =>
      if ∀ i, s.launchers i = .gone then some { s with main := .joiningReaper } else none
    | _ => none
  | .joinReaper =>
    match s.main with
    | .joiningReaper => if s.reaper = .ended then some { s with main := .done } else none
    | _ => none
  | _ => none

/-- `launcher_worker`. An empty queue ends it after three seconds; `Popen` and the insertion
are one critical section, which an exception leaves without a child. -/
def launcherStep (s : Executor) : ExecutorEvent → Option Executor
  | .get i =>
    match s.launchers i,s.queue with
    | .waiting,some item :: queue =>
      some ({ s with queue := queue, taken := s.taken ++ [item] }.setLauncher i (.taken item))
    | .waiting,none :: queue => some ({ s with queue := queue }.setLauncher i .leaving)
    | _,_ => none
  | .timeout i => if s.launchers i = .waiting ∧ s.queue = [] then some (s.setLauncher i .gone) else none
  | .acquire i =>
    match s.launchers i,s.lock with
    | .taken item,none => some ({ s with lock := some i }.setLauncher i (.locked item))
    | _,_ => none
  | .popen i pid =>
    match s.launchers i with
    | .locked item =>
      if pid ∈ (s.running + s.zombies).map Child.pid then none
      else some ({ s with
        running := ⟨pid,item⟩ ::ₘ s.running
        launched := ⟨pid,item⟩ :: s.launched }.setLauncher i (.forked item ⟨pid,item⟩))
    | _ => none
  | .popenRaises i =>
    match s.launchers i with
    | .locked _ => some ({ s with lock := none }.setLauncher i .finishing)
    | _ => none
  | .insert i =>
    match s.launchers i with
    | .forked item proc =>
      some ({ s with
        activeTasks := Function.update s.activeTasks proc.pid
          (some ⟨item.arg,item.requestTime,item.index,proc⟩)
        lock := none }.setLauncher i .finishing)
    | _ => none
  | .taskDone i =>
    match s.launchers i with
    | .finishing => some ({ s with unfinished := s.unfinished - 1 }.setLauncher i .waiting)
    | .leaving => some ({ s with unfinished := s.unfinished - 1 }.setLauncher i .gone)
    | _ => none
  | _ => none

/-- A child exits. -/
def kernelStep (s : Executor) : ExecutorEvent → Option Executor
  | .exit proc output =>
    if proc ∈ s.running then
      some { s with
        running := s.running.erase proc
        zombies := proc ::ₘ s.zombies
        stdout := Function.update s.stdout proc (some output) }
    else none
  | _ => none

/-- A `Popen` object never learns that `os.wait` has waited for its child. When the last thread
drops it, and again whenever `Popen` is called while the object is kept for that, it asks for its
PID, and takes another child that has the PID by now and has exited away from `os.wait`. -/
def popenStep (s : Executor) : ExecutorEvent → Option Executor
  | .reclaim proc =>
    if proc ∈ s.zombies ∧ ∃ old ∈ s.launched, old ≠ proc ∧ old.pid = proc.pid then
      some { s with zombies := s.zombies.erase proc }
    else none
  | _ => none

/-- `reaper_thread`. `os.wait` blocks while no child has exited and raises when there is none;
reading the output of a child blocks until it exits. -/
def reaperStep (total : ℕ) (s : Executor) : ExecutorEvent → Option Executor
  | .test =>
    match s.reaper with
    | .testing => some { s with reaper := if s.reapedCount < total then .waiting else .ended }
    | _ => none
  | .wait proc =>
    match s.reaper with
    | .waiting =>
      if proc ∈ s.zombies then some { s with zombies := s.zombies.erase proc, reaper := .reaped proc }
      else none
    | _ => none
  | .noChild =>
    match s.reaper with
    | .waiting => if s.running = 0 ∧ s.zombies = 0 then some { s with reaper := .testing } else none
    | _ => none
  | .pop =>
    match s.reaper,s.lock with
    | .reaped proc,none =>
      match s.activeTasks proc.pid with
      | some info =>
        some { s with
          activeTasks := Function.update s.activeTasks proc.pid none
          reaper := .popped info }
      | none => some { s with reaper := .testing }
    | _,_ => none
  | .write returnTime =>
    match s.reaper with
    | .popped info =>
      match s.stdout info.proc with
      | some output =>
        some { s with
          results := Function.update s.results info.index
            (some ⟨output,info.arg,info.requestTime,returnTime⟩)
          reapedCount := s.reapedCount + 1
          written := s.written ++ [info.proc]
          reaper := .testing }
      | none => none
    | _ => none
  | _ => none

/-- One step of any thread or child, with `total` items in the workload. -/
def step (total : ℕ) (s : Executor) (e : ExecutorEvent) : Option Executor :=
  match e with
  | .put | .endDispatch | .joinQueue | .putSentinel | .joinLaunchers | .joinReaper => s.mainStep e
  | .get _ | .timeout _ | .acquire _ | .popen _ _ | .popenRaises _ | .insert _ | .taskDone _ =>
    s.launcherStep e
  | .exit _ _ => s.kernelStep e
  | .reclaim _ => s.popenStep e
  | .test | .wait _ | .noChild | .pop | .write _ => s.reaperStep total e

/-! ## What a step can do -/

/-- Every step with the place it starts from and the state it leads to. -/
inductive Stepped (total : ℕ) (s : Executor) : ExecutorEvent → Executor → Prop
  | put {item : Request} {todo : List Request} (hmain : s.main = .dispatching (item :: todo)) :
    Stepped total s .put { s with
      main := .dispatching todo, queue := s.queue ++ [some item], unfinished := s.unfinished + 1 }
  | endDispatch (hmain : s.main = .dispatching []) : Stepped total s .endDispatch { s with main := .joining }
  | joinQueue (hmain : s.main = .joining) (hnone : s.unfinished = 0) :
    Stepped total s .joinQueue { s with main := .sending 0 }
  | putSentinel {n : ℕ} (hmain : s.main = .sending n) (hn : n < numLaunchers) :
    Stepped total s .putSentinel { s with
      main := .sending (n + 1), queue := s.queue ++ [none], unfinished := s.unfinished + 1 }
  | endSentinels {n : ℕ} (hmain : s.main = .sending n) (hn : ¬n < numLaunchers) :
    Stepped total s .putSentinel { s with main := .joiningLaunchers }
  | joinLaunchers (hmain : s.main = .joiningLaunchers) (hgone : ∀ i, s.launchers i = .gone) :
    Stepped total s .joinLaunchers { s with main := .joiningReaper }
  | joinReaper (hmain : s.main = .joiningReaper) (hended : s.reaper = .ended) :
    Stepped total s .joinReaper { s with main := .done }
  | getItem {i : Fin numLaunchers} {item : Request} {queue : List (Option Request)}
    (hi : s.launchers i = .waiting) (hqueue : s.queue = some item :: queue) :
    Stepped total s (.get i)
      ({ s with queue := queue, taken := s.taken ++ [item] }.setLauncher i (.taken item))
  | getSentinel {i : Fin numLaunchers} {queue : List (Option Request)} (hi : s.launchers i = .waiting)
    (hqueue : s.queue = none :: queue) :
    Stepped total s (.get i) ({ s with queue := queue }.setLauncher i .leaving)
  | timeout {i : Fin numLaunchers} (hi : s.launchers i = .waiting ∧ s.queue = []) :
    Stepped total s (.timeout i) (s.setLauncher i .gone)
  | acquire {i : Fin numLaunchers} {item : Request} (hi : s.launchers i = .taken item)
    (hlock : s.lock = none) :
    Stepped total s (.acquire i) ({ s with lock := some i }.setLauncher i (.locked item))
  | popen {i : Fin numLaunchers} {item : Request} {pid : ℕ} (hi : s.launchers i = .locked item)
    (hpid : pid ∉ (s.running + s.zombies).map Child.pid) :
    Stepped total s (.popen i pid) ({ s with
      running := ⟨pid,item⟩ ::ₘ s.running
      launched := ⟨pid,item⟩ :: s.launched }.setLauncher i (.forked item ⟨pid,item⟩))
  | popenRaises {i : Fin numLaunchers} {item : Request} (hi : s.launchers i = .locked item) :
    Stepped total s (.popenRaises i) ({ s with lock := none }.setLauncher i .finishing)
  | insert {i : Fin numLaunchers} {item : Request} {proc : Child} (hi : s.launchers i = .forked item proc) :
    Stepped total s (.insert i) ({ s with
      activeTasks := Function.update s.activeTasks proc.pid
        (some ⟨item.arg,item.requestTime,item.index,proc⟩)
      lock := none }.setLauncher i .finishing)
  | itemDone {i : Fin numLaunchers} (hi : s.launchers i = .finishing) :
    Stepped total s (.taskDone i) ({ s with unfinished := s.unfinished - 1 }.setLauncher i .waiting)
  | sentinelDone {i : Fin numLaunchers} (hi : s.launchers i = .leaving) :
    Stepped total s (.taskDone i) ({ s with unfinished := s.unfinished - 1 }.setLauncher i .gone)
  | exit {proc : Child} {output : String} (hproc : proc ∈ s.running) :
    Stepped total s (.exit proc output) { s with
      running := s.running.erase proc
      zombies := proc ::ₘ s.zombies
      stdout := Function.update s.stdout proc (some output) }
  | reclaim {proc : Child}
    (hproc : proc ∈ s.zombies ∧ ∃ old ∈ s.launched, old ≠ proc ∧ old.pid = proc.pid) :
    Stepped total s (.reclaim proc) { s with zombies := s.zombies.erase proc }
  | test (hreaper : s.reaper = .testing) :
    Stepped total s .test { s with reaper := if s.reapedCount < total then .waiting else .ended }
  | wait {proc : Child} (hreaper : s.reaper = .waiting) (hproc : proc ∈ s.zombies) :
    Stepped total s (.wait proc) { s with zombies := s.zombies.erase proc, reaper := .reaped proc }
  | noChild (hreaper : s.reaper = .waiting) (hnone : s.running = 0 ∧ s.zombies = 0) :
    Stepped total s .noChild { s with reaper := .testing }
  | pop {proc : Child} {info : TaskInfo} (hreaper : s.reaper = .reaped proc) (hlock : s.lock = none)
    (hinfo : s.activeTasks proc.pid = some info) :
    Stepped total s .pop { s with
      activeTasks := Function.update s.activeTasks proc.pid none, reaper := .popped info }
  | popUnknown {proc : Child} (hreaper : s.reaper = .reaped proc) (hlock : s.lock = none)
    (hinfo : s.activeTasks proc.pid = none) : Stepped total s .pop { s with reaper := .testing }
  | write {info : TaskInfo} {output : String} {returnTime : ℚ} (hreaper : s.reaper = .popped info)
    (houtput : s.stdout info.proc = some output) :
    Stepped total s (.write returnTime) { s with
      results := Function.update s.results info.index (some ⟨output,info.arg,info.requestTime,returnTime⟩)
      reapedCount := s.reapedCount + 1
      written := s.written ++ [info.proc]
      reaper := .testing }

theorem stepped {total : ℕ} {s t : Executor} {e : ExecutorEvent} (h : step total s e = some t) :
    Stepped total s e t := by
  cases e with
  | test =>
    simp only [step,reaperStep] at h
    split at h
    case h_1 hreaper => cases h; exact .test hreaper
    case h_2 => cases h
  | _ =>
    simp only [step,mainStep,launcherStep,kernelStep,popenStep,reaperStep] at h
    all_goals repeat' split at h
    all_goals cases h
    all_goals constructor <;> assumption

/-! ## Launchers one at a time -/

@[simp] theorem setLauncher_self (s : Executor) (i : Fin numLaunchers) (l : Launcher) :
    (s.setLauncher i l).launchers i = l := by simp [setLauncher]

@[simp] theorem setLauncher_ne (s : Executor) {i j : Fin numLaunchers} (l : Launcher) (h : j ≠ i) :
    (s.setLauncher i l).launchers j = s.launchers j := by simp [setLauncher,h]

/-- When one launcher moves, a sum over all of them changes by what the launcher adds. -/
theorem sum_setLauncher {M : Type} [AddCommMonoid M] (f : Launcher → M) (s : Executor) (i : Fin numLaunchers)
    (l : Launcher) : ∑ j, f ((s.setLauncher i l).launchers j) + f (s.launchers i) =
      ∑ j, f (s.launchers j) + f l := by
  have hrest : ∑ j ∈ Finset.univ.erase i, f ((s.setLauncher i l).launchers j) =
      ∑ j ∈ Finset.univ.erase i, f (s.launchers j) :=
    Finset.sum_congr rfl (fun j hj => by rw [setLauncher_ne s l (Finset.ne_of_mem_erase hj)])
  rw [← Finset.add_sum_erase _ _ (Finset.mem_univ i),hrest,setLauncher_self,
    ← Finset.add_sum_erase _ (fun j => f (s.launchers j)) (Finset.mem_univ i),add_comm (f l),
    add_comm (f (s.launchers i)),add_right_comm]

end Executor
end ServerlessSched.Loadgen
