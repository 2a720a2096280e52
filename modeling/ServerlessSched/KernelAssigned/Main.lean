import ServerlessSched.Kernel.Loader
import ServerlessSched.KernelAssigned.Bpf

/-! # The program of the kernel-assigned scheduler

It has no part in the decisions. Once a second it prints how many tasks the BPF component has
seen, until it is interrupted or the component has ended.
-/
namespace ServerlessSched.KernelAssigned
open Runs

structure Stats where
  enabledCount : UInt64
  disabledCount : UInt64
  active : UInt64

/-- `exit_req`, the counters of the loaded component, and the lines printed so far. -/
structure Process where
  exitReq : Bool
  bss : Bss
  stdout : List Stats

inductive ProcessEvent
  | enable
  | disable
  | round

namespace Process

/-- The body of `sched_main_loop`. -/
def printStats (s : Process) : Process :=
  let enabledCount := s.bss.nrEnabled
  let disabledCount := s.bss.nrDisabled
  { s with stdout := s.stdout ++ [⟨enabledCount,disabledCount,enabledCount - disabledCount⟩] }

/-- `exited` is `UEI_EXITED`. -/
def schedMainLoop (exited : Bool) (s : Process) : ProcessEvent → Option Process
  | .enable => some { s with bss := { s.bss with nrEnabled := s.bss.nrEnabled + 1 } }
  | .disable => some { s with bss := { s.bss with nrDisabled := s.bss.nrDisabled + 1 } }
  | .round => if !s.exitReq && !exited then some s.printStats else none

end Process

/-- The skeleton is opened anew for every incarnation, with its counters at zero. -/
def main : Loader Process ProcessEvent where
  preBootstrap := ⟨false,⟨0,0⟩,[]⟩
  bootstrap s := { s with bss := ⟨0,0⟩ }
  isRound
    | .round => true
    | .enable | .disable => false
  runs := Process.schedMainLoop
  returns exited s := !(!s.exitReq && !exited)
  exitReq := Process.exitReq
  setExitReq s := { s with exitReq := true }
  sigintHandler s := { s with exitReq := true }

def Process.Fresh (s : Process) : Prop := s.exitReq = false

theorem schedMainLoop_exitReq {exited : Bool} {s t : Process} {e : ProcessEvent}
    (h : s.schedMainLoop exited e = some t) : t.exitReq = s.exitReq := by
  cases e with
  | enable => cases h; rfl
  | disable => cases h; rfl
  | round =>
    obtain ⟨-,ht⟩ := Option.ite_none_right_eq_some.mp h
    cases ht
    rfl

theorem main_lawful : main.Lawful Process.Fresh (fun _ => True) (fun _ => True) where
  inv_start := trivial
  inv_bootstrap _ _ := trivial
  inv_runs _ _ _ _ _ _ _ := trivial
  inv_setExitReq _ _ := trivial
  inv_sigintHandler _ _ := trivial
  fresh_start := rfl
  fresh_exitReq _ h := h
  fresh_runs _ _ _ _ _ h hfresh := (schedMainLoop_exitReq h).trans hfresh
  exitReq_bootstrap _ := rfl
  exitReq_runs _ _ _ _ _ _ h := schedMainLoop_exitReq h
  exitReq_setExitReq _ := rfl
  exitReq_sigintHandler _ := rfl
  exitReq_returns s _ h := by
    change (!(!s.exitReq && !false)) = true at h
    change s.exitReq = true
    simpa using h

end ServerlessSched.KernelAssigned
