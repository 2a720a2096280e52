import ServerlessSched.Loadgen.CompareWorkload
import ServerlessSched.Loadgen.DispatchLoop
import ServerlessSched.Loadgen.ExecutorLog
import ServerlessSched.Policy.Agreement
import Mathlib.Tactic.NormNum.NatFib

/-! # The jobs of a generated workload

A job enters the scheduling class, if it is to run under `sched_ext`, turns into
`launch_function` and computes a Fibonacci number by plain recursion. The number is exact for
every argument the generator writes.
-/
namespace ServerlessSched.Loadgen
open Runs PythonText CString Agreement

namespace LaunchFunction

/-- `fibonacci`, in `unsigned long long`, on a stack of any depth. -/
def fibonacci (n : ℤ) : UInt64 :=
  if n ≤ 1 then 1 else fibonacci (n - 1) + fibonacci (n - 2)
termination_by n.toNat

/-- What `main` prints in the process `pid`. Without an argument `atoi` gets a null pointer. -/
def main (pid : ℕ) : List (List UInt8) → Option Text
  | _ :: arg :: _ => some (str pid ++ ' ' :: str (fibonacci (atoi arg)).toNat ++ ['\n'])
  | _ => none

end LaunchFunction

/-- The command that `run_with_sched_ext` turns into, which keeps its PID, if there is one and
the kernel has put the process into the class. -/
def RunWithSchedExt.main (granted : Bool) : List (List UInt8) → Option (List (List UInt8))
  | _ :: program :: args => if granted then some (program :: args) else none
  | _ => none

/-- `base_cmd` of `launcher_worker`. -/
def baseCmd (dir : List UInt8) (schedExt : Bool) : List (List UInt8) :=
  if schedExt then launcherBaseCmd dir else [dir ++ ascii "/payload/launch_function.out"]

/-- What the process `pid` prints that was launched with `arg`. -/
def payload (dir : List UInt8) (schedExt granted : Bool) (pid : ℕ) (arg : String) : Option Text :=
  let cmd := baseCmd dir schedExt ++ [ascii arg]
  (if schedExt then RunWithSchedExt.main granted cmd else some cmd).bind (LaunchFunction.main pid)

/-- The output of the payload, stripped as the reaper strips it. -/
def Child.Runs (dir : List UInt8) (schedExt : Bool) (proc : Child) (output : String) : Prop :=
  (payload dir schedExt true proc.pid proc.item.arg).map strip = some output.toList

/-- Each item of the workload has been done by a child of its own, all of them collected, and the
entry of the item is the PID of that child and the Fibonacci number of the argument. -/
structure ComputesWorkload (workload : List Request) (s : Executor) (procs : List Child) : Prop where
  items : procs.map Child.item = workload
  collected : procs.Perm s.written
  results : ∀ proc ∈ procs, ∃ n ∈ fibArgs, proc.item.arg = toString n ∧ ∃ returnTime,
    s.results proc.item.index = some ⟨String.ofList (str proc.pid ++ ' ' :: str (Nat.fib (n + 1))),toString n,
      proc.item.requestTime,returnTime⟩

/-! ## The number -/

namespace LaunchFunction

theorem fibonacci_add_two (n : ℕ) :
    fibonacci ((n + 2 : ℕ) : ℤ) = fibonacci ((n + 1 : ℕ) : ℤ) + fibonacci (n : ℤ) := by
  rw [fibonacci,if_neg (by omega)]
  have hone : ((n + 2 : ℕ) : ℤ) - 1 = ((n + 1 : ℕ) : ℤ) := by omega
  have htwo : ((n + 2 : ℕ) : ℤ) - 2 = (n : ℤ) := by omega
  rw [hone,htwo]

/-- Both summands and the sum wrap around alike. -/
theorem fibonacci_toNat (n : ℕ) : (fibonacci n).toNat = Nat.fib (n + 1) % 2 ^ 64 := by
  induction n using Nat.twoStepInduction with
  | zero =>
    rw [fibonacci,if_pos (by omega)]
    rfl
  | one =>
    rw [fibonacci,if_pos (by omega)]
    rfl
  | more n ih ih' =>
    rw [fibonacci_add_two,UInt64.toNat_add,ih,ih',Nat.fib_add_two (n := n + 1),← Nat.add_mod,Nat.add_comm]

theorem fib_lt_iff (n : ℕ) : Nat.fib (n + 1) < 2 ^ 64 ↔ n ≤ 92 := by
  have hlast : Nat.fib 93 < 2 ^ 64 := by norm_num
  have hnext : 2 ^ 64 ≤ Nat.fib 94 := by norm_num
  constructor
  · intro h
    by_contra hn
    have hmono : Nat.fib 94 ≤ Nat.fib (n + 1) := Nat.fib_mono (by omega)
    omega
  · intro hn
    exact (Nat.fib_mono (by omega)).trans_lt hlast

/-- The number is the Fibonacci number up to 92 and no further. -/
theorem fibonacci_exact_iff (n : ℕ) : (fibonacci n).toNat = Nat.fib (n + 1) ↔ n ≤ 92 := by
  rw [fibonacci_toNat,← fib_lt_iff]
  constructor
  · intro h
    rw [← h]
    exact Nat.mod_lt _ (by norm_num)
  · exact Nat.mod_eq_of_lt

end LaunchFunction

/-! ## The output -/

theorem atoi_fibArgs : ∀ n ∈ fibArgs, atoi (ascii (toString n)) = n := by decide

/-- With `run_with_sched_ext` before it or not, a job is given its argument. -/
theorem payload_eq (dir : List UInt8) (schedExt : Bool) (pid : ℕ) {n : ℕ} (hn : n ∈ fibArgs) :
    payload dir schedExt true pid (toString n) = some (str pid ++ ' ' :: str (Nat.fib (n + 1)) ++ ['\n']) := by
  have hle : n ≤ 92 := by
    have hrange := List.mem_range'_1.mp hn
    omega
  have hmain : ∀ program, LaunchFunction.main pid [program,ascii (toString n)] =
      some (str pid ++ ' ' :: str (Nat.fib (n + 1)) ++ ['\n']) := by
    intro program
    rw [LaunchFunction.main,atoi_fibArgs n hn,(LaunchFunction.fibonacci_exact_iff n).mpr hle]
  cases schedExt with
  | false => exact hmain (dir ++ ascii "/payload/launch_function.out")
  | true => exact hmain (dir ++ ascii "/payload/launch_function.out")

theorem strip_output (pid value : ℕ) :
    strip (str pid ++ ' ' :: str value ++ ['\n']) = str pid ++ ' ' :: str value := by
  have hsolid : strip (str pid ++ [' '] ++ str value) = str pid ++ [' '] ++ str value :=
    (isWord_str pid).strip_append (isWord_str value) [' ']
  have hstrip := strip_blanks (List.forall_mem_nil _) (List.forall_mem_singleton.mpr (rfl : isSpace '\n' = true)) hsolid
  simpa using hstrip

theorem Child.Runs.output_eq {dir : List UInt8} {schedExt : Bool} {proc : Child} {output : String}
    (h : proc.Runs dir schedExt output) {n : ℕ} (hn : n ∈ fibArgs) (harg : proc.item.arg = toString n) :
    output = String.ofList (str proc.pid ++ ' ' :: str (Nat.fib (n + 1))) := by
  unfold Child.Runs at h
  rw [harg,payload_eq dir schedExt proc.pid hn,Option.map_some,strip_output] at h
  rw [Option.some.inj h,String.ofList_toList]

/-! ## The whole way -/

theorem requests_index (lines : List WorkloadLine) (startSimulation : ℚ) :
    (requests lines startSimulation).map Request.index = List.range lines.length := by
  apply List.ext_getElem
  · simp [requests]
  · intro k _ _
    simp [requests]

theorem requests_arg (lines : List WorkloadLine) (startSimulation : ℚ) :
    (requests lines startSimulation).map Request.arg = lines.map WorkloadLine.arg := by
  apply List.ext_getElem
  · simp [requests]
  · intro k _ _
    simp [requests]

/-- From the trace to the results: every line of a generated file is run by a child of its own, and
what is kept for the line is the exact number, whatever the threads and the children do. -/
theorem workload_computed {counts : ℕ → ℕ → ℕ} {downscale startSimulation : ℚ} {lines : List WorkloadLine}
    {dir : List UInt8} {schedExt : Bool} {es : List ExecutorEvent} {s : Executor}
    (hgen : genWorkload counts downscale = some lines) (hruns : ∀ e ∈ es, ExitsWith (Child.Runs dir schedExt) e)
    (hr : run (Executor.step lines.length) (Executor.start (requests lines startSimulation)) es = some s)
    (hdone : s.main = .done) : ∃ procs, ComputesWorkload (requests lines startSimulation) s procs := by
  have hlength : (requests lines startSimulation).length = lines.length := List.length_mapIdx
  rw [← hlength] at hr
  have hindex : (requests lines startSimulation).map Request.index = List.range (requests lines startSimulation).length := by
    rw [requests_index,hlength]
  obtain ⟨⟨entered,hs⟩,hcount⟩ := Executor.ledger_of_run hindex hruns hr hdone
  obtain ⟨procs,hperm,hitems⟩ := hs.collected hcount
  refine ⟨procs,hitems,hperm,fun proc hproc => ?_⟩
  have harg : proc.item.arg ∈ lines.map WorkloadLine.arg := by
    rw [← requests_arg lines startSimulation,← hitems]
    exact List.mem_map_of_mem (List.mem_map_of_mem hproc)
  obtain ⟨line,hline,hline_arg⟩ := List.mem_map.mp harg
  obtain ⟨n,hn,hname⟩ := arg_of_genWorkload hgen hline
  have hitem : proc.item.arg = toString n := hline_arg.symm.trans hname
  obtain ⟨output,returnTime,hwrites,hresult⟩ := hs.results proc (hperm.mem_iff.mp hproc)
  rw [hwrites.output_eq hn hitem,hitem] at hresult
  exact ⟨n,hn,hitem,returnTime,hresult⟩

/-- The jobs of the two lines that are written of three invocations. -/
def shortJob : Child := ⟨100,"24",0,0⟩

def longJob : Child := ⟨101,"46",1,30⟩

theorem runs_of_fib {proc : Child} {n value : ℕ} {output : String} (hn : n ∈ fibArgs) (harg : toString n = proc.item.arg)
    (hfib : Nat.fib (n + 1) = value) (houtput : str proc.pid ++ ' ' :: str value = output.toList)
    (dir : List UInt8) (schedExt : Bool) : proc.Runs dir schedExt output := by
  rw [Child.Runs,← harg,payload_eq dir schedExt proc.pid hn,Option.map_some,strip_output,hfib,houtput]

def generatedRun : List ExecutorEvent := Executor.pairRun shortJob longJob "100 75025" "101 2971215073"

theorem generatedRun_runs : ∀ e ∈ generatedRun, ExitsWith (Child.Runs (ascii "/root/loadgen") true) e := by
  have hshort : Nat.fib (24 + 1) = 75025 := by norm_num
  have hlong : Nat.fib (46 + 1) = 2971215073 := by norm_num
  simp only [generatedRun,Executor.pairRun,List.forall_mem_cons,ExitsWith,true_and]
  exact ⟨runs_of_fib (by decide) (by decide) hlong (by decide) _ _,
    runs_of_fib (by decide) (by decide) hshort (by decide) _ _,by simp⟩

theorem workload_computed_two : ∃ s,
    run (Executor.step 2) (Executor.start (requests [⟨0,"24"⟩,⟨30,"46"⟩] 0)) generatedRun = some s ∧
      ∃ procs, ComputesWorkload (requests [⟨0,"24"⟩,⟨30,"46"⟩] 0) s procs := by
  obtain ⟨s,hr,hdone⟩ : ∃ s, run (Executor.step 2) (Executor.start [shortJob.item,longJob.item]) generatedRun = some s ∧
      s.main = .done := ⟨_,rfl,rfl⟩
  have hrequests : requests [⟨0,"24"⟩,⟨30,"46"⟩] 0 = [shortJob.item,longJob.item] := by
    simp [requests,shortJob,longJob]
  rw [← hrequests] at hr
  exact ⟨s,hr,workload_computed genWorkload_three generatedRun_runs hr hdone⟩

end ServerlessSched.Loadgen
