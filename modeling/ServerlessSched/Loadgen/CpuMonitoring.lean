import ServerlessSched.Library.Runs
import Mathlib.Algebra.Order.Ring.Rat
import Mathlib.Data.List.Infix

/-! # The thread that samples the load of the CPUs

It appends to a list that the main thread replaces by a filtered copy. Both look up the list by
its name, and a list looked up may be another one by the time it is appended to.
-/
namespace ServerlessSched.Loadgen
open Runs

/-- A time stamp and the load of each CPU. -/
structure Sample where
  timestamp : ℚ
  perCpu : List ℚ
deriving DecidableEq

/-- Where `monitor_cpu_usage` is: not started, before `monitor_running = True`, before the test of
its loop, before `time.time`, in `cpu_percent`, before it looks up `cpu_data`, before it appends
to the list it has found, which may be the filtered one, or past its loop. -/
inductive MonitorPc
  | notStarted
  | starting
  | testing
  | reading
  | measuring (timestamp : ℚ)
  | measured (sample : Sample)
  | appending (sample : Sample) (filtered : Bool)
  | ended
deriving DecidableEq

/-- Where the main thread is: before `stop_cpu_monitoring`, in `join`, at an index of the list it
filters, before the test of `output_cpu_utilization`, at an index of the list it writes, or past
it all. -/
inductive StopPc
  | executing
  | joining
  | filtering (k : ℕ) (kept : List Sample)
  | checking
  | writing (k : ℕ) (rows : List Sample)
  | done
deriving DecidableEq

/-- `cpuData` is the first list with the name and `filteredData` the one that replaces it. The
histories `taken` of all appended samples and `timedOut` are not part of the program. -/
structure Monitoring where
  monitorRunning : Bool
  monitor : MonitorPc
  main : StopPc
  cpuData : List Sample
  filteredData : Option (List Sample)
  file : List Sample
  taken : List Sample
  timedOut : Bool

inductive MonitoringEvent
  | start
  | stop
  | join
  | joinTimeout
  | filter
  | check
  | write
  | begin
  | test
  | read (timestamp : ℚ)
  | measure (perCpu : List ℚ)
  | lookup
  | append

/-- The steps of the monitor. -/
def MonitoringEvent.monitors : MonitoringEvent → Bool
  | .begin | .test | .read _ | .measure _ | .lookup | .append => true
  | .start | .stop | .join | .joinTimeout | .filter | .check | .write => false

/-- What the monitor has still to do once it was told to stop. -/
def MonitorPc.rank : MonitorPc → ℕ
  | .reading => 5
  | .measuring _ => 4
  | .measured _ => 3
  | .appending _ _ => 2
  | .testing => 1
  | .ended | .starting | .notStarted => 0

theorem MonitorPc.rank_le (monitor : MonitorPc) : monitor.rank ≤ 5 := by
  cases monitor <;> simp [MonitorPc.rank]

namespace Monitoring

def initial : Monitoring where
  monitorRunning := false
  monitor := .notStarted
  main := .executing
  cpuData := []
  filteredData := none
  file := []
  taken := []
  timedOut := false

/-- The test of the comprehension in `stop_cpu_monitoring`. -/
def InRange (startTime endTime : ℚ) (sample : Sample) : Prop :=
  startTime ≤ sample.timestamp ∧ sample.timestamp ≤ endTime

instance (startTime endTime : ℚ) : DecidablePred (InRange startTime endTime) := fun sample => by
  unfold InRange
  infer_instance

/-- `start_cpu_monitoring`, `stop_cpu_monitoring` and `output_cpu_utilization`. The loops over the
lists see what is appended while they go on. -/
def mainStep (startTime endTime : ℚ) (s : Monitoring) : MonitoringEvent → Option Monitoring
  | .start =>
    match s.main,s.monitor with
    | .executing,.notStarted => some { s with monitor := .starting }
    | _,_ => none
  | .stop =>
    match s.main with
    | .executing =>
      some { s with monitorRunning := false, main := if s.monitor = .notStarted then .done else .joining }
    | _ => none
  | .join =>
    match s.main,s.monitor with
    | .joining,.ended => some { s with main := .filtering 0 [] }
    | _,_ => none
  | .joinTimeout =>
    match s.main with
    | .joining => some { s with main := .filtering 0 [], timedOut := true }
    | _ => none
  | .filter =>
    match s.main with
    | .filtering k kept =>
      match s.cpuData[k]? with
      | some sample =>
        some { s with main := .filtering (k + 1) (if InRange startTime endTime sample then kept ++ [sample] else kept) }
      | none => some { s with main := .checking, filteredData := some kept }
    | _ => none
  | .check =>
    match s.main with
    | .checking =>
      some { s with main := if (s.filteredData.getD s.cpuData).isEmpty then .done else .writing 0 [] }
    | _ => none
  | .write =>
    match s.main with
    | .writing k rows =>
      match (s.filteredData.getD s.cpuData)[k]? with
      | some sample => some { s with main := .writing (k + 1) (rows ++ [sample]) }
      | none => some { s with main := .done, file := s.file ++ rows }
    | _ => none
  | _ => none

/-- `monitor_cpu_usage`. -/
def monitorStep (s : Monitoring) : MonitoringEvent → Option Monitoring
  | .begin =>
    match s.monitor with
    | .starting => some { s with monitorRunning := true, monitor := .testing }
    | _ => none
  | .test =>
    match s.monitor with
    | .testing => some { s with monitor := if s.monitorRunning then .reading else .ended }
    | _ => none
  | .read timestamp =>
    match s.monitor with
    | .reading => some { s with monitor := .measuring timestamp }
    | _ => none
  | .measure perCpu =>
    match s.monitor with
    | .measuring timestamp => some { s with monitor := .measured ⟨timestamp,perCpu⟩ }
    | _ => none
  | .lookup =>
    match s.monitor with
    | .measured sample => some { s with monitor := .appending sample s.filteredData.isSome }
    | _ => none
  | .append =>
    match s.monitor with
    | .appending sample true =>
      some { s with
        monitor := .testing
        filteredData := s.filteredData.map (fun data => data ++ [sample])
        taken := s.taken ++ [sample] }
    | .appending sample false =>
      some { s with monitor := .testing, cpuData := s.cpuData ++ [sample], taken := s.taken ++ [sample] }
    | _ => none
  | _ => none

def step (startTime endTime : ℚ) (s : Monitoring) (e : MonitoringEvent) : Option Monitoring :=
  match e with
  | .start | .stop | .join | .joinTimeout | .filter | .check | .write => s.mainStep startTime endTime e
  | .begin | .test | .read _ | .measure _ | .lookup | .append => s.monitorStep e

/-! ## What a step can do -/

inductive Stepped (startTime endTime : ℚ) (s : Monitoring) : MonitoringEvent → Monitoring → Prop
  | start (hmain : s.main = .executing) (hmonitor : s.monitor = .notStarted) :
    Stepped startTime endTime s .start { s with monitor := .starting }
  | stop (hmain : s.main = .executing) :
    Stepped startTime endTime s .stop { s with
      monitorRunning := false, main := if s.monitor = .notStarted then .done else .joining }
  | join (hmain : s.main = .joining) (hended : s.monitor = .ended) :
    Stepped startTime endTime s .join { s with main := .filtering 0 [] }
  | joinTimeout (hmain : s.main = .joining) :
    Stepped startTime endTime s .joinTimeout { s with main := .filtering 0 [], timedOut := true }
  | filter {k : ℕ} {kept : List Sample} {sample : Sample} (hmain : s.main = .filtering k kept)
    (hsample : s.cpuData[k]? = some sample) : Stepped startTime endTime s .filter { s with
      main := .filtering (k + 1) (if InRange startTime endTime sample then kept ++ [sample] else kept) }
  | replace {k : ℕ} {kept : List Sample} (hmain : s.main = .filtering k kept) (hend : s.cpuData[k]? = none) :
    Stepped startTime endTime s .filter { s with main := .checking, filteredData := some kept }
  | check (hmain : s.main = .checking) : Stepped startTime endTime s .check { s with
      main := if (s.filteredData.getD s.cpuData).isEmpty then .done else .writing 0 [] }
  | write {k : ℕ} {rows : List Sample} {sample : Sample} (hmain : s.main = .writing k rows)
    (hsample : (s.filteredData.getD s.cpuData)[k]? = some sample) :
    Stepped startTime endTime s .write { s with main := .writing (k + 1) (rows ++ [sample]) }
  | close {k : ℕ} {rows : List Sample} (hmain : s.main = .writing k rows)
    (hend : (s.filteredData.getD s.cpuData)[k]? = none) :
    Stepped startTime endTime s .write { s with main := .done, file := s.file ++ rows }
  | begin (hmonitor : s.monitor = .starting) :
    Stepped startTime endTime s .begin { s with monitorRunning := true, monitor := .testing }
  | test (hmonitor : s.monitor = .testing) :
    Stepped startTime endTime s .test { s with monitor := if s.monitorRunning then .reading else .ended }
  | read {timestamp : ℚ} (hmonitor : s.monitor = .reading) :
    Stepped startTime endTime s (.read timestamp) { s with monitor := .measuring timestamp }
  | measure {timestamp : ℚ} {perCpu : List ℚ} (hmonitor : s.monitor = .measuring timestamp) :
    Stepped startTime endTime s (.measure perCpu) { s with monitor := .measured ⟨timestamp,perCpu⟩ }
  | lookup {sample : Sample} (hmonitor : s.monitor = .measured sample) :
    Stepped startTime endTime s .lookup { s with monitor := .appending sample s.filteredData.isSome }
  | appendFiltered {sample : Sample} (hmonitor : s.monitor = .appending sample true) :
    Stepped startTime endTime s .append { s with
      monitor := .testing
      filteredData := s.filteredData.map (fun data => data ++ [sample])
      taken := s.taken ++ [sample] }
  | append {sample : Sample} (hmonitor : s.monitor = .appending sample false) :
    Stepped startTime endTime s .append { s with
      monitor := .testing, cpuData := s.cpuData ++ [sample], taken := s.taken ++ [sample] }

theorem stepped {startTime endTime : ℚ} {s t : Monitoring} {e : MonitoringEvent}
    (h : step startTime endTime s e = some t) : Stepped startTime endTime s e t := by
  cases e with
  | stop | check | test =>
    simp only [step,mainStep,monitorStep] at h
    split at h
    case h_1 hpc => cases h; constructor; exact hpc
    case h_2 => cases h
  | filter =>
    simp only [step,mainStep] at h
    split at h
    case h_1 hpc =>
      split at h
      case h_1 hsample => cases h; exact .filter hpc hsample
      case h_2 hend => cases h; exact .replace hpc hend
    case h_2 => cases h
  | _ =>
    simp only [step,mainStep,monitorStep] at h
    all_goals repeat' split at h
    all_goals cases h
    all_goals constructor <;> assumption

/-! ## What is written -/

section Samples
variable {startTime endTime : ℚ} {s t : Monitoring} {e : MonitoringEvent}

/-- Before the list is replaced. -/
def Filters (startTime endTime : ℚ) (s : Monitoring) : StopPc → Prop
  | .executing | .joining => True
  | .filtering k kept => k ≤ s.cpuData.length ∧ kept = (s.cpuData.take k).filter (InRange startTime endTime) ∧
      (s.timedOut = false → s.monitor = .ended)
  | .done => s.monitor = .notStarted
  | .checking | .writing _ _ => False

structure Collecting (startTime endTime : ℚ) (s : Monitoring) : Prop where
  data : s.filteredData = none
  taken : s.taken = s.cpuData
  file : s.file = []
  early : ∀ sample, s.monitor ≠ .appending sample true
  idle : s.monitor = .notStarted → s.cpuData = []
  main : Filters startTime endTime s s.main

/-- The rows are those of the list up to the index, or all that was there in the end. -/
def Writes (kept later file : List Sample) : StopPc → Prop
  | .checking => file = []
  | .writing k rows => file = [] ∧ k ≤ (kept ++ later).length ∧ rows = (kept ++ later).take k
  | .done => ∃ more, more <+: later ∧ file = kept ++ more
  | .executing | .joining | .filtering _ _ => False

/-- After it: `seen` was filtered, at most one sample went astray to the first list, and `later` ones
were appended to the filtered list. Without a timeout there are none. -/
structure Replaced (startTime endTime : ℚ) (seen stray later : List Sample) (s : Monitoring) : Prop where
  data : s.filteredData = some (seen.filter (InRange startTime endTime) ++ later)
  cpuData : s.cpuData = seen ++ stray
  taken : s.taken = seen ++ stray ++ later
  single : stray.length ≤ 1
  early : ∀ sample, s.monitor = .appending sample false → stray = [] ∧ later = []
  quiet : s.timedOut = false → stray = [] ∧ later = [] ∧ s.monitor = .ended
  main : Writes (seen.filter (InRange startTime endTime)) later s.file s.main

def Recorded (startTime endTime : ℚ) (s : Monitoring) : Prop :=
  Collecting startTime endTime s ∨ ∃ seen stray later, Replaced startTime endTime seen stray later s

theorem collecting_initial : Collecting startTime endTime initial where
  data := rfl
  taken := rfl
  file := rfl
  early sample h := by cases h
  idle _ := rfl
  main := trivial

/-- The monitor goes on, and what it holds is not for the filtered list. -/
theorem Collecting.move (hs : Collecting startTime endTime s) {running : Bool} {monitor : MonitorPc}
    (hstarted : s.monitor ≠ .notStarted) (hlive : s.monitor ≠ .ended) (hmonitor : monitor ≠ .notStarted)
    (hearly : ∀ sample, monitor ≠ .appending sample true) :
    Collecting startTime endTime { s with monitorRunning := running, monitor := monitor } := by
  refine ⟨hs.data,hs.taken,hs.file,hearly,fun h => absurd h hmonitor,?_⟩
  have hmain := hs.main
  cases hpc : s.main with
  | executing => trivial
  | joining => trivial
  | filtering k kept =>
    rw [hpc] at hmain
    obtain ⟨hk,hkept,hquiet⟩ := hmain
    exact ⟨hk,hkept,fun h => absurd (hquiet h) hlive⟩
  | checking => rw [hpc] at hmain; exact hmain.elim
  | writing k rows => rw [hpc] at hmain; exact hmain.elim
  | done => rw [hpc] at hmain; exact absurd hmain hstarted

/-- What the monitor appends is behind the index of the loop. -/
theorem Collecting.append (hs : Collecting startTime endTime s) {sample : Sample}
    (hmonitor : s.monitor = .appending sample false) : Collecting startTime endTime { s with
      monitor := .testing, cpuData := s.cpuData ++ [sample], taken := s.taken ++ [sample] } := by
  refine ⟨hs.data,congrArg (fun data => data ++ [sample]) hs.taken,hs.file,nofun,nofun,?_⟩
  have hmain := hs.main
  cases hpc : s.main with
  | executing => trivial
  | joining => trivial
  | filtering k kept =>
    rw [hpc] at hmain
    obtain ⟨hk,hkept,hquiet⟩ := hmain
    refine ⟨?_,?_,fun h => ?_⟩
    · rw [List.length_append]
      exact hk.trans (Nat.le_add_right _ _)
    · rw [List.take_append_of_le_length hk]
      exact hkept
    · cases hmonitor.symm.trans (hquiet h)
  | checking => rw [hpc] at hmain; exact hmain.elim
  | writing k rows => rw [hpc] at hmain; exact hmain.elim
  | done => rw [hpc] at hmain; cases hmonitor.symm.trans hmain

theorem Collecting.filter (hs : Collecting startTime endTime s) {k : ℕ} {kept : List Sample} {sample : Sample}
    (hmain : s.main = .filtering k kept) (hsample : s.cpuData[k]? = some sample) :
    Collecting startTime endTime { s with
      main := .filtering (k + 1) (if InRange startTime endTime sample then kept ++ [sample] else kept) } := by
  have h := hs.main
  rw [hmain] at h
  obtain ⟨-,hkept,hquiet⟩ := h
  refine ⟨hs.data,hs.taken,hs.file,hs.early,hs.idle,?_,?_,hquiet⟩
  · exact (List.getElem?_eq_some_iff.mp hsample).1
  · rw [List.take_add_one,hsample,List.filter_append,← hkept]
    by_cases hin : InRange startTime endTime sample
    · simp [hin]
    · simp [hin]

theorem Collecting.replace (hs : Collecting startTime endTime s) {k : ℕ} {kept : List Sample}
    (hmain : s.main = .filtering k kept) (hend : s.cpuData[k]? = none) :
    Replaced startTime endTime s.cpuData [] [] { s with main := .checking, filteredData := some kept } := by
  have h := hs.main
  rw [hmain] at h
  obtain ⟨-,hkept,hquiet⟩ := h
  have hall : s.cpuData.take k = s.cpuData := List.take_of_length_le (List.getElem?_eq_none_iff.mp hend)
  refine ⟨?_,(List.append_nil _).symm,?_,Nat.zero_le _,fun _ _ => ⟨rfl,rfl⟩,fun h => ⟨rfl,rfl,hquiet h⟩,hs.file⟩
  · rw [List.append_nil,hkept,hall]
  · rw [List.append_nil,List.append_nil]
    exact hs.taken

theorem Collecting.step (hs : Collecting startTime endTime s) (h : step startTime endTime s e = some t) :
    Recorded startTime endTime t := by
  cases stepped h with
  | start hpc hmonitor =>
    refine Or.inl ⟨hs.data,hs.taken,hs.file,nofun,nofun,?_⟩
    rw [hpc]
    trivial
  | stop hpc =>
    refine Or.inl ⟨hs.data,hs.taken,hs.file,hs.early,hs.idle,?_⟩
    change Filters startTime endTime _ (if s.monitor = .notStarted then .done else .joining)
    by_cases hmonitor : s.monitor = .notStarted
    · rw [if_pos hmonitor]
      exact hmonitor
    · rw [if_neg hmonitor]
      trivial
  | join hpc hended => exact Or.inl ⟨hs.data,hs.taken,hs.file,hs.early,hs.idle,Nat.zero_le _,rfl,fun _ => hended⟩
  | joinTimeout hpc => exact Or.inl ⟨hs.data,hs.taken,hs.file,hs.early,hs.idle,Nat.zero_le _,rfl,nofun⟩
  | filter hpc hsample => exact Or.inl (hs.filter hpc hsample)
  | replace hpc hend => exact Or.inr ⟨_,_,_,hs.replace hpc hend⟩
  | check hpc | write hpc _ | close hpc _ =>
    have hmain := hs.main
    rw [hpc] at hmain
    exact hmain.elim
  | begin hmonitor | read hmonitor | measure hmonitor =>
    exact Or.inl (hs.move (by rw [hmonitor]; exact nofun) (by rw [hmonitor]; exact nofun) nofun nofun)
  | test hmonitor =>
    refine Or.inl (hs.move (by rw [hmonitor]; exact nofun) (by rw [hmonitor]; exact nofun) ?_ ?_)
    · split <;> exact nofun
    · intro sample
      split <;> exact nofun
  | lookup hmonitor =>
    refine Or.inl (hs.move (by rw [hmonitor]; exact nofun) (by rw [hmonitor]; exact nofun) nofun fun _ h => ?_)
    rw [hs.data] at h
    cases h
  | appendFiltered hmonitor => exact absurd hmonitor (hs.early _)
  | append hmonitor => exact Or.inl (hs.append hmonitor)

variable {seen stray later : List Sample}

theorem Replaced.move (hs : Replaced startTime endTime seen stray later s) {running : Bool} {monitor : MonitorPc}
    (hlive : s.monitor ≠ .ended) (hearly : ∀ sample, monitor ≠ .appending sample false) :
    Replaced startTime endTime seen stray later { s with monitorRunning := running, monitor := monitor } :=
  ⟨hs.data,hs.cpuData,hs.taken,hs.single,fun sample h => absurd h (hearly sample),
    fun h => absurd (hs.quiet h).2.2 hlive,hs.main⟩

/-- The monitor had looked the list up before it was replaced. -/
theorem Replaced.append (hs : Replaced startTime endTime seen stray later s) {sample : Sample}
    (hmonitor : s.monitor = .appending sample false) : Replaced startTime endTime seen [sample] [] { s with
      monitor := .testing, cpuData := s.cpuData ++ [sample], taken := s.taken ++ [sample] } := by
  obtain ⟨rfl,rfl⟩ := hs.early sample hmonitor
  refine ⟨hs.data,?_,?_,le_rfl,nofun,fun h => ?_,hs.main⟩
  · rw [hs.cpuData,List.append_nil]
  · rw [hs.taken,List.append_nil,List.append_nil,List.append_nil]
  · cases hmonitor.symm.trans (hs.quiet h).2.2

theorem Writes.append {kept more file : List Sample} {main : StopPc} (h : Writes kept later file main) :
    Writes kept (later ++ more) file main := by
  cases main with
  | checking => exact h
  | writing k rows =>
    obtain ⟨hfile,hk,hrows⟩ := h
    rw [Writes,← List.append_assoc,List.length_append,List.take_append_of_le_length hk]
    exact ⟨hfile,hk.trans (Nat.le_add_right _ _),hrows⟩
  | done =>
    obtain ⟨written,hwritten,hfile⟩ := h
    exact ⟨written,hwritten.trans (List.prefix_append later more),hfile⟩
  | _ => exact h.elim

theorem Replaced.appendFiltered (hs : Replaced startTime endTime seen stray later s) {sample : Sample}
    (hmonitor : s.monitor = .appending sample true) : Replaced startTime endTime seen stray (later ++ [sample]) { s with
      monitor := .testing
      filteredData := s.filteredData.map (fun data => data ++ [sample])
      taken := s.taken ++ [sample] } := by
  refine ⟨?_,hs.cpuData,?_,hs.single,nofun,fun h => ?_,Writes.append hs.main⟩
  · rw [hs.data,Option.map_some,List.append_assoc]
  · rw [hs.taken,List.append_assoc]
  · cases hmonitor.symm.trans (hs.quiet h).2.2

/-- The main thread goes on with the rows. -/
theorem Replaced.write (hs : Replaced startTime endTime seen stray later s) {main : StopPc} (file : List Sample)
    (hmain : Writes (seen.filter (InRange startTime endTime)) later file main) :
    Replaced startTime endTime seen stray later { s with main := main, file := file } :=
  ⟨hs.data,hs.cpuData,hs.taken,hs.single,hs.early,hs.quiet,hmain⟩

theorem Replaced.step (hs : Replaced startTime endTime seen stray later s) (h : step startTime endTime s e = some t) :
    ∃ seen stray later, Replaced startTime endTime seen stray later t := by
  have hmain := hs.main
  have hdata : s.filteredData.getD s.cpuData = seen.filter (InRange startTime endTime) ++ later := by
    rw [hs.data,Option.getD_some]
  cases stepped h with
  | start hpc _ | stop hpc | join hpc _ | joinTimeout hpc | filter hpc _ | replace hpc _ =>
    rw [hpc] at hmain
    exact hmain.elim
  | check hpc =>
    rw [hpc] at hmain
    refine ⟨_,_,_,hs.write s.file ?_⟩
    rw [hdata]
    split
    case isTrue hempty =>
      refine ⟨[],List.nil_prefix,hmain.trans ?_⟩
      rw [List.append_nil]
      exact (List.append_eq_nil_iff.mp (List.isEmpty_iff.mp hempty)).1.symm
    case isFalse => exact ⟨hmain,Nat.zero_le _,rfl⟩
  | write hpc hsample =>
    rw [hpc] at hmain
    obtain ⟨hfile,-,hrows⟩ := hmain
    rw [hdata] at hsample
    refine ⟨_,_,_,hs.write s.file ⟨hfile,(List.getElem?_eq_some_iff.mp hsample).1,?_⟩⟩
    rw [List.take_add_one,hsample,hrows]
    rfl
  | close hpc hend =>
    rw [hpc] at hmain
    obtain ⟨hfile,-,hrows⟩ := hmain
    rw [hdata] at hend
    refine ⟨_,_,_,hs.write _ ⟨later,List.prefix_rfl,?_⟩⟩
    rw [hfile,hrows,List.take_of_length_le (List.getElem?_eq_none_iff.mp hend)]
    rfl
  | begin hmonitor | read hmonitor | measure hmonitor =>
    exact ⟨_,_,_,hs.move (by rw [hmonitor]; exact nofun) nofun⟩
  | test hmonitor =>
    refine ⟨_,_,_,hs.move (by rw [hmonitor]; exact nofun) fun sample => ?_⟩
    split <;> exact nofun
  | lookup hmonitor =>
    refine ⟨_,_,_,hs.move (by rw [hmonitor]; exact nofun) fun sample h => ?_⟩
    rw [hs.data] at h
    cases h
  | appendFiltered hmonitor => exact ⟨_,_,_,hs.appendFiltered hmonitor⟩
  | append hmonitor => exact ⟨_,_,_,hs.append hmonitor⟩

theorem Recorded.step (hs : Recorded startTime endTime s) (h : step startTime endTime s e = some t) :
    Recorded startTime endTime t := by
  rcases hs with hs | ⟨_,_,_,hs⟩
  · exact hs.step h
  · exact Or.inr (hs.step h)

theorem timedOut_step (he : e ≠ .joinTimeout) (h : step startTime endTime s e = some t) (hs : s.timedOut = false) :
    t.timedOut = false := by
  cases stepped h with
  | joinTimeout _ => exact absurd rfl he
  | _ => exact hs

/-- The file has the samples within the range that were taken before the list was replaced, and
after them perhaps some that were taken later; at most one sample in between is lost. When
`join` has not run into its timeout, the file has exactly the samples within the range. -/
structure Utilization (startTime endTime : ℚ) (es : List MonitoringEvent) (s : Monitoring) : Prop where
  rows : ∃ seen stray later more, s.taken = seen ++ stray ++ later ∧ stray.length ≤ 1 ∧ more <+: later ∧
    s.file = seen.filter (InRange startTime endTime) ++ more
  exact : .joinTimeout ∉ es → s.file = s.taken.filter (InRange startTime endTime)

theorem utilization_recorded {es : List MonitoringEvent} (hr : run (step startTime endTime) initial es = some s)
    (hdone : s.main = .done) : Utilization startTime endTime es s := by
  have hs : Recorded startTime endTime s :=
    run_invariant (fun _ _ _ hs h => Recorded.step hs h) (Or.inl collecting_initial) hr
  rcases hs with hs | ⟨seen,stray,later,hs⟩
  · have hidle : s.cpuData = [] := by
      have hmain := hs.main
      rw [hdone] at hmain
      exact hs.idle hmain
    have htaken : s.taken = [] := hs.taken.trans hidle
    refine ⟨⟨[],[],[],[],?_,Nat.zero_le _,List.prefix_rfl,?_⟩,fun _ => ?_⟩
    · rw [htaken]
      rfl
    · rw [hs.file]
      rfl
    · rw [hs.file,htaken]
      rfl
  · have hmain := hs.main
    rw [hdone] at hmain
    obtain ⟨more,hmore,hfile⟩ := hmain
    refine ⟨⟨seen,stray,later,more,hs.taken,hs.single,hmore,hfile⟩,fun hnone => ?_⟩
    have halong : Along (step startTime endTime) (fun _ e => e ≠ .joinTimeout) initial es :=
      along_of_forall fun _ e he heq => hnone (heq ▸ he)
    have hall : Always (step startTime endTime) (fun s => s.timedOut = false) initial es :=
      always_of_along (fun _ _ _ hs he h => timedOut_step he h hs) rfl halong
    obtain ⟨rfl,rfl,-⟩ := hs.quiet (always_iff_visited.mp hall es s List.prefix_rfl hr)
    rw [hfile,List.prefix_nil.mp hmore,hs.taken,List.append_nil,List.append_nil,List.append_nil]

/-- The second sample goes to the list that was filtered before. -/
def lostSample : List MonitoringEvent :=
  [.start,.begin,.test,.read 1,.measure [],.lookup,.append,.test,.read 2,.measure [],.lookup,.stop,.joinTimeout,
    .filter,.filter,.append,.check,.write,.write]

theorem utilization_recorded_lost : ∃ s, run (step 0 9) initial lostSample = some s ∧ s.taken = [⟨1,[]⟩,⟨2,[]⟩] ∧
    s.file = [⟨1,[]⟩] ∧ Utilization 0 9 lostSample s := by
  obtain ⟨s,hr,hdone,htaken,hfile⟩ : ∃ s, run (step 0 9) initial lostSample = some s ∧ s.main = .done ∧
      s.taken = [⟨1,[]⟩,⟨2,[]⟩] ∧ s.file = [⟨1,[]⟩] := ⟨_,rfl,rfl,rfl,rfl⟩
  exact ⟨s,hr,htaken,hfile,utilization_recorded hr hdone⟩

end Samples

/-! ## Does the monitor stop? -/

section Stopping
variable {startTime endTime : ℚ} {s t u : Monitoring} {e : MonitoringEvent}

/-- The monitor had begun when it was told to stop. -/
structure Stopped (s : Monitoring) : Prop where
  told : s.main ≠ .executing
  running : s.monitorRunning = false
  begun : s.monitor ≠ .starting ∧ s.monitor ≠ .notStarted

/-- It begins after it was told, and overwrites the word. -/
structure Unstoppable (s : Monitoring) : Prop where
  told : s.main ≠ .executing
  going : s.monitor = .starting ∨ s.monitorRunning = true ∧ s.monitor ≠ .ended ∧ s.monitor ≠ .notStarted

theorem Unstoppable.step (hs : Unstoppable s) (h : step startTime endTime s e = some t) : Unstoppable t := by
  have hgo : ∀ m : MonitorPc, s.monitor ≠ .starting → m ≠ .ended → m ≠ .notStarted →
      m = .starting ∨ s.monitorRunning = true ∧ m ≠ .ended ∧ m ≠ .notStarted :=
    fun m hbegun hlive hstarted => Or.inr ⟨(hs.going.resolve_left hbegun).1,hlive,hstarted⟩
  cases stepped h with
  | start hpc _ | stop hpc => exact absurd hpc hs.told
  | join _ _ | joinTimeout _ | filter _ _ | replace _ _ | write _ _ | close _ _ => exact ⟨nofun,hs.going⟩
  | check _ =>
    refine ⟨?_,hs.going⟩
    dsimp only
    split <;> exact nofun
  | begin _ => exact ⟨hs.told,Or.inr ⟨rfl,nofun,nofun⟩⟩
  | test hmonitor =>
    have hrunning := (hs.going.resolve_left (by rw [hmonitor]; exact nofun)).1
    refine ⟨hs.told,?_⟩
    dsimp only
    rw [if_pos hrunning]
    exact Or.inr ⟨hrunning,nofun,nofun⟩
  | read hmonitor | measure hmonitor | lookup hmonitor | appendFiltered hmonitor | append hmonitor =>
    exact ⟨hs.told,hgo _ (by rw [hmonitor]; exact nofun) nofun nofun⟩

theorem Stopped.step (hs : Stopped s) (h : step startTime endTime s e = some t) :
    Stopped t ∧ t.monitor.rank + (if e.monitors then 1 else 0) = s.monitor.rank := by
  cases stepped h with
  | start hpc _ | stop hpc => exact absurd hpc hs.told
  | join _ _ | joinTimeout _ | filter _ _ | replace _ _ | write _ _ | close _ _ => exact ⟨⟨nofun,hs.running,hs.begun⟩,rfl⟩
  | check _ =>
    refine ⟨⟨?_,hs.running,hs.begun⟩,rfl⟩
    dsimp only
    split <;> exact nofun
  | begin hmonitor => exact absurd hmonitor hs.begun.1
  | test hmonitor =>
    have hended : (if s.monitorRunning = true then MonitorPc.reading else .ended) = .ended :=
      if_neg (by rw [hs.running]; exact nofun)
    refine ⟨⟨hs.told,hs.running,?_⟩,?_⟩
    · dsimp only
      rw [hended]
      exact ⟨nofun,nofun⟩
    · dsimp only
      rw [hended,hmonitor]
      rfl
  | read hmonitor | measure hmonitor | lookup hmonitor | appendFiltered hmonitor | append hmonitor =>
    refine ⟨⟨hs.told,hs.running,nofun,nofun⟩,?_⟩
    rw [hmonitor]
    rfl

theorem Stopped.goes (hs : Stopped s) (hlive : s.monitor ≠ .ended) :
    ∃ e t, e.monitors = true ∧ Monitoring.step startTime endTime s e = some t := by
  cases hmonitor : s.monitor with
  | notStarted => exact absurd hmonitor hs.begun.2
  | starting => exact absurd hmonitor hs.begun.1
  | testing => exact ⟨.test,_,rfl,by simp only [Monitoring.step,monitorStep,hmonitor]; rfl⟩
  | reading => exact ⟨.read 0,_,rfl,by simp only [Monitoring.step,monitorStep,hmonitor]; rfl⟩
  | measuring timestamp => exact ⟨.measure [],_,rfl,by simp only [Monitoring.step,monitorStep,hmonitor]; rfl⟩
  | measured sample => exact ⟨.lookup,_,rfl,by simp only [Monitoring.step,monitorStep,hmonitor]; rfl⟩
  | appending sample filtered =>
    cases filtered with
    | true => exact ⟨.append,_,rfl,by simp only [Monitoring.step,monitorStep,hmonitor]; rfl⟩
    | false => exact ⟨.append,_,rfl,by simp only [Monitoring.step,monitorStep,hmonitor]; rfl⟩
  | ended => exact absurd hmonitor hlive

/-- A monitor that has begun is at its end five steps after it was told to stop, if it is let go on;
one that has not never comes to its end. -/
structure StopsMonitor (startTime endTime : ℚ) (u : Monitoring) (es : List MonitoringEvent) (s : Monitoring) : Prop where
  late : u.monitor = .starting → s.monitor ≠ .ended
  inTime : u.monitor ≠ .starting → es.countP MonitoringEvent.monitors ≤ 5 ∧
    (s.monitor ≠ .ended → ∃ e t, e.monitors = true ∧ step startTime endTime s e = some t)

theorem monitor_stops {es : List MonitoringEvent} (hstarted : u.monitor ≠ .notStarted)
    (hr : run (step startTime endTime) u (.stop :: es) = some s) : StopsMonitor startTime endTime u es s := by
  obtain ⟨t,ht,hr⟩ := run_cons_eq_some.mp hr
  cases stepped ht with
  | stop hpc =>
    rw [if_neg hstarted] at hr
    constructor
    · intro hlate hended
      have hfirst : Unstoppable { u with monitorRunning := false, main := .joining } := ⟨nofun,Or.inl hlate⟩
      have hs : Unstoppable s := run_invariant (fun _ _ _ hs h => Unstoppable.step hs h) hfirst hr
      rcases hs.going with hstarting | ⟨-,hlive,-⟩
      · cases hstarting.symm.trans hended
      · exact hlive hended
    · intro hbegun
      have hfirst : Stopped { u with monitorRunning := false, main := .joining } := ⟨nofun,rfl,hbegun,hstarted⟩
      have hpays : ∀ (s : Monitoring) (e : MonitoringEvent) (t : Monitoring), Stopped s → True →
          step startTime endTime s e = some t → Stopped t ∧
            t.monitor.rank + (if e.monitors then 1 else 0) ≤ s.monitor.rank + if false then 1 else 0 :=
        fun _ _ _ hs _ h => (Stopped.step hs h).imp_right (fun hrank => hrank.le)
      obtain ⟨hs,hpaid⟩ := run_potential (q := fun _ => false) hpays hfirst (along_of_forall fun _ _ _ => trivial) hr
      refine ⟨?_,hs.goes⟩
      rw [List.countP_false,Function.const_apply] at hpaid
      exact (Nat.le_add_left _ _).trans (hpaid.trans (MonitorPc.rank_le u.monitor))

/-- The monitor is told to stop before its first statement, and samples on. -/
theorem monitor_stops_late : ∃ u s, run (step 0 9) initial [.start] = some u ∧
    run (step 0 9) u [.stop,.joinTimeout,.begin,.test] = some s ∧ s.monitor = .reading ∧
      StopsMonitor 0 9 u [.joinTimeout,.begin,.test] s := by
  obtain ⟨u,s,hu,hs,hstarted,hreading⟩ : ∃ u s, run (step 0 9) initial [.start] = some u ∧
      run (step 0 9) u [.stop,.joinTimeout,.begin,.test] = some s ∧ u.monitor = .starting ∧ s.monitor = .reading :=
    ⟨_,_,rfl,rfl,rfl,rfl⟩
  exact ⟨u,s,hu,hs,hreading,monitor_stops (by rw [hstarted]; exact nofun) hs⟩

end Stopping

end Monitoring
end ServerlessSched.Loadgen
