import ServerlessSched.Analyze.PerfLatency
import ServerlessSched.Analyze.PerfTimehist
import ServerlessSched.Library.OuterMerge

/-! # The statistics of the processes

`combine_stats_csvs.py` merges the table of the latencies and the table of the averages on the
PID. From the log of the workload and the two reports the scripts make a table with one row for
each job.
-/
namespace ServerlessSched.Analyze
open PythonText Loadgen

namespace CombineStats
open ParsePerfLatency (Latency)
open ParsePerfTimehistAvg (Average)

/-- The columns that are kept of a latency. -/
structure Delays where
  task : Text
  arg : Text
  runtimeMs : ℚ
  switches : ℕ
  avgDelayMs : ℚ
  maxDelayMs : ℚ

/-- The columns of an average beside the PID. -/
structure Runs where
  comm : Text
  schedInCount : ℕ
  minRunMs : ℚ
  avgRunMs : ℚ
  maxRunMs : ℚ
  migrations : ℕ

/-- A row of the merged table. -/
structure Stats where
  pid : ℤ
  delays : Option Delays
  runs : Option Runs

def delays (l : Latency) : Delays := ⟨l.task,l.arg,l.runtimeMs,l.switches,l.avgDelayMs,l.maxDelayMs⟩

def runs (a : Average) : Runs := ⟨a.comm,a.schedInCount,a.minRunMs,a.avgRunMs,a.maxRunMs,a.migrations⟩

/-- `main`, of the tables in the two files. -/
def main (df1 : List Latency) (df2 : List Average) : List Stats :=
  (outerMerge (df1.map (fun l => (l.pid,l))) (df2.map (fun a => ((a.pid : ℤ),a)))).map
    (fun row => ⟨row.1,row.2.1.map delays,row.2.2.map runs⟩)

end CombineStats

open CombineStats

/-- The last commands of `run_experiment_perf.sh`, from the reports of `perf` to the table of the
statistics. -/
def statsTable (latency timehistFull pids : Text) : Option (List Stats) := do
  let timehistAvg ← ParsePerfTimehistAvg.timehistAvg timehistFull
  let latencies ← ParsePerfLatency.main latency pids
  let averages ← ParsePerfTimehistAvg.main timehistAvg pids
  return main latencies averages

/-! ## The table of a run -/

section Table
variable (latency : List ParsePerfLatency.Row) (summary : List ParsePerfTimehistAvg.Row)

/-- The row of a job: what each report says of its PID, with the argument of the job. -/
def jobStats (pid arg : ℕ) : Stats :=
  ⟨pid,(latency.find? (fun r => r.pid = pid)).map (fun r => delays (r.latency (str arg))),
    (summary.find? (fun r => r.pid.value = pid)).map (fun r => runs r.average)⟩

/-- The table has one row for each job that a report knows of, and no others, in the order of the
PIDs. -/
structure PerJob (logged : List (ℕ × ℕ)) (table : List Stats) : Prop where
  sorted : (table.map Stats.pid).Pairwise (fun a b => a < b)
  mem_iff : ∀ row, row ∈ table ↔ ∃ pid arg, (pid,arg) ∈ logged ∧ row = jobStats latency summary pid arg ∧
    (row.delays ≠ none ∨ row.runs ≠ none)

variable {latency summary} {logged : List (ℕ × ℕ)} {pidArgMap : ℕ → Option Text} {k : ℤ}

/-- The keyed table of the latencies. -/
def keyedLatencies (latency : List ParsePerfLatency.Row) (pidArgMap : ℕ → Option Text) :
    List (ℤ × ParsePerfLatency.Latency) :=
  (latency.filterMap (fun r => (pidArgMap r.pid).map r.latency)).map (fun l => (l.pid,l))

theorem keyedLatencies_eq : keyedLatencies latency pidArgMap = latency.filterMap (fun r =>
    ((pidArgMap r.pid).map r.latency).map (fun l => ((r.pid : ℤ),l))) := by
  rw [keyedLatencies,List.map_filterMap]
  apply List.filterMap_congr
  intro r _
  cases pidArgMap r.pid <;> rfl

def keyedAverages (summary : List ParsePerfTimehistAvg.Row) (pidsSet : Finset ℕ) :
    List (ℤ × ParsePerfTimehistAvg.Average) :=
  (summary.filterMap (fun r => if r.pid.value ∈ pidsSet then some r.average else none)).map (fun a => ((a.pid : ℤ),a))

theorem keyedAverages_eq (pidsSet : Finset ℕ) : keyedAverages summary pidsSet = summary.filterMap (fun r =>
    (if r.pid.value ∈ pidsSet then some r.average else none).map (fun a => ((r.pid.value : ℤ),a))) := by
  rw [keyedAverages,List.map_filterMap]
  apply List.filterMap_congr
  intro r _
  split <;> rfl

/-- The values that were read from the log, by a PID. -/
structure Reads (logged : List (ℕ × ℕ)) (pidArgMap : ℕ → Option Text) (pidsSet : Finset ℕ) : Prop where
  args : ∀ pid value, pidArgMap pid = some value ↔ ∃ arg, (pid,arg) ∈ logged ∧ value = str arg
  pids : ∀ pid, pid ∈ pidsSet ↔ ∃ arg, (pid,arg) ∈ logged

variable {pidsSet : Finset ℕ}

/-- Distinct PIDs are distinct keys. -/
theorem nodup_cast {ρ : Type} {pid : ρ → ℕ} {rows : List ρ} (h : (rows.map pid).Nodup) :
    (rows.map (fun r => (pid r : ℤ))).Nodup := by
  have hcast := h.map (f := fun n : ℕ => (n : ℤ)) Nat.cast_injective
  rwa [List.map_map] at hcast

theorem keyedLatencies_nodup (hlatency : (latency.map ParsePerfLatency.Row.pid).Nodup) (pidArgMap : ℕ → Option Text) :
    ((keyedLatencies latency pidArgMap).map Prod.fst).Nodup := by
  rw [keyedLatencies_eq]
  exact keys_filterMap_nodup (nodup_cast hlatency)

theorem keyedAverages_nodup (hsummary : (summary.map (fun r => r.pid.value)).Nodup) (pidsSet : Finset ℕ) :
    ((keyedAverages summary pidsSet).map Prod.fst).Nodup := by
  rw [keyedAverages_eq]
  exact keys_filterMap_nodup (nodup_cast hsummary)

theorem lookup_keyedLatencies (hlatency : (latency.map ParsePerfLatency.Row.pid).Nodup) (k : ℤ) :
    (keyedLatencies latency pidArgMap).lookup k =
      (latency.find? (fun r => (r.pid : ℤ) = k)).bind (fun r => (pidArgMap r.pid).map r.latency) := by
  rw [keyedLatencies_eq]
  exact lookup_filterMap (nodup_cast hlatency) k

theorem lookup_keyedAverages (hsummary : (summary.map (fun r => r.pid.value)).Nodup) (k : ℤ) :
    (keyedAverages summary pidsSet).lookup k = (summary.find? (fun r => (r.pid.value : ℤ) = k)).bind
      (fun r => if r.pid.value ∈ pidsSet then some r.average else none) := by
  rw [keyedAverages_eq]
  exact lookup_filterMap (nodup_cast hsummary) k

/-- What a table has of the PID of a job is what the report has of it. -/
theorem stats_of_logged (hreads : Reads logged pidArgMap pidsSet) (hlatency : (latency.map ParsePerfLatency.Row.pid).Nodup)
    (hsummary : (summary.map (fun r => r.pid.value)).Nodup) {pid arg : ℕ} (h : (pid,arg) ∈ logged) :
    (⟨(pid : ℤ),((keyedLatencies latency pidArgMap).lookup (pid : ℤ)).map delays,
      ((keyedAverages summary pidsSet).lookup (pid : ℤ)).map runs⟩ : Stats) = jobStats latency summary pid arg := by
  have hdelays : (latency.find? (fun r => (r.pid : ℤ) = pid)).bind (fun r => (pidArgMap r.pid).map r.latency) =
      (latency.find? (fun r => r.pid = pid)).map (fun r => r.latency (str arg)) := by
    simp only [Nat.cast_inj]
    cases hfind : latency.find? (fun r => r.pid = pid) with
    | none => rfl
    | some r =>
      have hr : r.pid = pid := by simpa using List.find?_some hfind
      have harg : pidArgMap r.pid = some (str arg) := (hreads.args r.pid (str arg)).mpr ⟨arg,hr ▸ h,rfl⟩
      simp [harg]
  have hruns : (summary.find? (fun r => (r.pid.value : ℤ) = pid)).bind
      (fun r => if r.pid.value ∈ pidsSet then some r.average else none) =
      (summary.find? (fun r => r.pid.value = pid)).map (fun r => r.average) := by
    simp only [Nat.cast_inj]
    cases hfind : summary.find? (fun r => r.pid.value = pid) with
    | none => rfl
    | some r =>
      have hr : r.pid.value = pid := by simpa using List.find?_some hfind
      have hmem : r.pid.value ∈ pidsSet := (hreads.pids r.pid.value).mpr ⟨arg,hr ▸ h⟩
      simp [hmem]
  rw [lookup_keyedLatencies hlatency,lookup_keyedAverages hsummary,hdelays,hruns,jobStats,Option.map_map,Option.map_map]
  rfl

/-- Only PIDs of jobs come into the tables. -/
theorem logged_of_lookup (hreads : Reads logged pidArgMap pidsSet) (hlatency : (latency.map ParsePerfLatency.Row.pid).Nodup)
    (hsummary : (summary.map (fun r => r.pid.value)).Nodup)
    (h : (keyedLatencies latency pidArgMap).lookup k ≠ none ∨ (keyedAverages summary pidsSet).lookup k ≠ none) :
    ∃ pid arg, (pid,arg) ∈ logged ∧ k = (pid : ℤ) := by
  rw [lookup_keyedLatencies hlatency,lookup_keyedAverages hsummary] at h
  rcases h with h | h
  · obtain ⟨l,hl⟩ := Option.ne_none_iff_exists'.mp h
    obtain ⟨r,hfind,hr⟩ := Option.bind_eq_some_iff.mp hl
    have hk : (r.pid : ℤ) = k := by simpa using List.find?_some hfind
    obtain ⟨value,hvalue,-⟩ := Option.map_eq_some_iff.mp hr
    obtain ⟨arg,hmem,-⟩ := (hreads.args r.pid value).mp hvalue
    exact ⟨r.pid,arg,hmem,hk.symm⟩
  · obtain ⟨a,ha⟩ := Option.ne_none_iff_exists'.mp h
    obtain ⟨r,hfind,hr⟩ := Option.bind_eq_some_iff.mp ha
    have hk : (r.pid.value : ℤ) = k := by simpa using List.find?_some hfind
    have hpid : r.pid.value ∈ pidsSet := by
      by_contra hf
      rw [if_neg hf] at hr
      cases hr
    obtain ⟨arg,hmem⟩ := (hreads.pids r.pid.value).mp hpid
    exact ⟨r.pid.value,arg,hmem,hk.symm⟩

theorem perJob_main (hreads : Reads logged pidArgMap pidsSet) (hlatency : (latency.map ParsePerfLatency.Row.pid).Nodup)
    (hsummary : (summary.map (fun r => r.pid.value)).Nodup) : PerJob latency summary logged
      (main (latency.filterMap (fun r => (pidArgMap r.pid).map r.latency))
        (summary.filterMap (fun r => if r.pid.value ∈ pidsSet then some r.average else none))) := by
  have hleft := keyedLatencies_nodup hlatency pidArgMap
  have hright := keyedAverages_nodup hsummary pidsSet
  have hmain : main (latency.filterMap (fun r => (pidArgMap r.pid).map r.latency))
      (summary.filterMap (fun r => if r.pid.value ∈ pidsSet then some r.average else none)) =
      (outerMerge (keyedLatencies latency pidArgMap) (keyedAverages summary pidsSet)).map
        (fun row => ⟨row.1,row.2.1.map delays,row.2.2.map runs⟩) := rfl
  rw [hmain]
  constructor
  · have hkeys := outerKeys_sorted (keyedLatencies latency pidArgMap) (keyedAverages summary pidsSet)
    rw [← outerMerge_keys hleft hright] at hkeys
    rwa [List.map_map]
  · intro row
    rw [List.mem_map]
    constructor
    · rintro ⟨merged,hmerged,rfl⟩
      obtain ⟨k,rfl,hsome⟩ := (mem_outerMerge hleft hright).mp hmerged
      obtain ⟨pid,arg,hmem,rfl⟩ := logged_of_lookup hreads hlatency hsummary hsome
      refine ⟨pid,arg,hmem,stats_of_logged hreads hlatency hsummary hmem,?_⟩
      exact hsome.imp (fun h hf => h (Option.map_eq_none_iff.mp hf)) (fun h hf => h (Option.map_eq_none_iff.mp hf))
    · rintro ⟨pid,arg,hmem,rfl,hsome⟩
      rw [← stats_of_logged hreads hlatency hsummary hmem] at hsome ⊢
      have hlookup := hsome.imp (fun h hf => h (Option.map_eq_none_iff.mpr hf))
        (fun h hf => h (Option.map_eq_none_iff.mpr hf))
      exact ⟨_,(mem_outerMerge hleft hright).mpr ⟨pid,rfl,hlookup⟩,rfl⟩

end Table

theorem reads_of_logged {jobs : List Job} {file : Text} (h : Logged jobs file) : ∃ pidArgMap pidsSet,
    ParsePerfLatency.getPidArgMap file = some pidArgMap ∧ ParsePerfTimehistAvg.pidsFtoset file = some pidsSet ∧
      Reads (jobs.filterMap Job.logged) pidArgMap pidsSet := by
  obtain ⟨pidArgMap,hmap,hargs⟩ := h.latency
  refine ⟨pidArgMap,_,hmap,h.timehist,hargs,fun pid => ?_⟩
  simp only [List.mem_toFinset,List.mem_map,Prod.exists,exists_and_right,exists_eq_right]

/-- From the log that is written for the jobs and the reports of `perf`, the scripts make a table
with one row for each job that was seen. -/
theorem stats_per_job {jobs : List Job} (hne : jobs ≠ []) (hprinted : ∀ j ∈ jobs, j.printed ≠ none)
    (hpids : ((jobs.filterMap Job.logged).map Prod.fst).Nodup)
    (report : Report ParsePerfLatency.pattern ParsePerfLatency.Row ParsePerfLatency.Row.line)
    (hlatency : (report.rows.map ParsePerfLatency.Row.pid).Nodup) {r : PerfRun} (o : ParsePerfTimehistAvg.Opening r)
    (hsummary : (o.rows.map (fun row => row.pid.value)).Nodup) : ∃ pids timings table,
      logTasksOutput (jobs.map Job.result) = some (pids,timings) ∧
      statsTable report.text r.timehistFull pids = some table ∧
      PerJob report.rows o.rows (jobs.filterMap Job.logged) table := by
  obtain ⟨rows,hrows,hwritten⟩ := logTasks_some hprinted
  have hlines : lines (join ['\n'] (rows.map Prod.fst) ++ ['\n']) = (jobs.filterMap Job.logged).map pidLine := by
    rw [hwritten]
    apply lines_join
    · simpa [logged_eq_nil hprinted] using hne
    · intro l hl
      obtain ⟨p,-,rfl⟩ := List.mem_map.mp hl
      exact pidLine_inline p
  obtain ⟨pidArgMap,pidsSet,hmap,hset,hreads⟩ := reads_of_logged (logged_of_lines hpids hlines)
  refine ⟨_,_,_,by rw [logTasksOutput,hrows]; rfl,?_,perJob_main hreads hlatency hsummary⟩
  have hlatencies : ParsePerfLatency.main report.text (join ['\n'] (rows.map Prod.fst) ++ ['\n']) =
      some (report.rows.filterMap (fun r => (pidArgMap r.pid).map r.latency)) := by
    rw [ParsePerfLatency.main,hmap]
    exact ParsePerfLatency.parseLatencyData_report report pidArgMap
  rw [statsTable,o.timehistAvg_eq,hlatencies]
  simp only [Option.bind_eq_bind,Option.bind_some]
  rw [o.main_eq _ hset]
  rfl

/-! ## Two jobs -/

def cell (a : Amount) : ParsePerfLatency.Cell := ⟨blank,a,blank,blank⟩

/-- The row of the first job in the report of the latencies. -/
def latencyOfFib : ParsePerfLatency.Row where
  toTask := gap
  comm := "fib".toList
  pid := 100
  fromTask := blank
  runtime := cell (thousandths 42 125 (by decide))
  toSwitches := blank
  switches := ⟨3,0⟩
  fromSwitches := blank
  toAvg := blank
  avgDelay := cell (thousandths 0 2 (by decide))
  toMax := blank
  maxDelay := cell (thousandths 0 3 (by decide))
  toStart := blank
  maxDelayStart := cell (thousandths 7 1 (by decide))
  toEnd := blank
  maxDelayEnd := cell (thousandths 7 4 (by decide))
  comm_head := by rintro c ⟨⟩; rfl
  comm_bar := by decide +kernel
  comm_line := by decide +kernel

/-- A process that is none of the workload. -/
def latencyOfPerf : ParsePerfLatency.Row :=
  { latencyOfFib with
    comm := "perf".toList
    pid := 99
    comm_head := by rintro c ⟨⟩; rfl
    comm_bar := by decide +kernel
    comm_line := by decide +kernel }

/-- The row of the first job in the summary. -/
def averageOfFib : ParsePerfTimehistAvg.Row where
  toComm := blank
  comm := "fib".toList
  pid := ⟨100,0⟩
  toParent := gap
  parent := -1
  schedIn := ⟨gap,⟨3,0⟩⟩
  runTime := ⟨gap,thousandths 42 125 (by decide)⟩
  minRun := ⟨gap,thousandths 0 25 (by decide)⟩
  avgRun := ⟨gap,thousandths 14 41 (by decide)⟩
  maxRun := ⟨gap,thousandths 40 0 (by decide)⟩
  stddev := ⟨gap,thousandths 47 120 (by decide)⟩
  migrations := ⟨gap,⟨1,0⟩⟩
  fromMigrations := noBlank
  comm_head := by rintro c ⟨⟩; rfl
  comm_bracket := by decide +kernel
  comm_line := by decide +kernel

/-- The row of the second job, which the other report does not know of. -/
def averageOfShorter : ParsePerfTimehistAvg.Row :=
  { averageOfFib with pid := ⟨101,0⟩, schedIn := ⟨gap,⟨1,0⟩⟩ }

def averageOfPerf : ParsePerfTimehistAvg.Row :=
  { averageOfFib with
    comm := "perf".toList
    pid := ⟨99,0⟩
    comm_head := by rintro c ⟨⟩; rfl
    comm_bracket := by decide +kernel
    comm_line := by decide +kernel }

example : latencyOfFib.line =
    (" fib:100 | 42.125 ms | 3 | avg: 0.002 ms | max: 0.003 ms | max start: 7.001 s | max end: 7.004 s ").toList := by
  decide +kernel

example : averageOfFib.line = " fib[100] -1 3 42.125 0.025 14.041 40.000 47.120 1".toList := by
  decide +kernel

def rule {pattern : Regex} {Row : Type} {c : Char} (hneeds : pattern.Needs c) (hc : c ∉ "-----".toList) :
    ReportLine pattern Row := .other "-----".toList (by decide +kernel) c hneeds hc

def latencyReport : Report ParsePerfLatency.pattern ParsePerfLatency.Row ParsePerfLatency.Row.line where
  before := ['\n',' ']
  lines := [rule ParsePerfLatency.pattern_needs (by decide +kernel),.row latencyOfPerf,.row latencyOfFib,
    rule ParsePerfLatency.pattern_needs (by decide +kernel)]
  after := ['\n']
  before_blank := List.forall_mem_cons.mpr ⟨rfl,List.forall_mem_singleton.mpr rfl⟩
  after_blank := List.forall_mem_singleton.mpr rfl
  lines_nonempty := List.cons_ne_nil _ _
  stripped := by decide +kernel

/-- A second thread of the process that is none of the workload. -/
def tallyOfThread : ParsePerfTimehistAvg.Tally :=
  .thread "perf".toList ⟨98,0⟩ "99] -1 1 0.001 0.001 0.001 0.001 0.000 0".toList (by decide +kernel)
    (by decide +kernel) (by decide +kernel) (by decide +kernel)

def summaryLines : List (ReportLine ParsePerfTimehistAvg.pattern ParsePerfTimehistAvg.Tally) :=
  List.replicate 4 (rule ParsePerfTimehistAvg.pattern_needs (by decide +kernel)) ++
    [.row (.process averageOfShorter),.row tallyOfThread,.row (.process averageOfPerf),.row (.process averageOfFib)]

def fibRun : PerfRun where
  outputfile := "fib".toList
  totalTime := 1
  opening := ["time".toList] ++ [] :: summaryLines.map (ReportLine.text ParsePerfTimehistAvg.Tally.line)
  cpus := [none]
  totals := ⟨4,8,42125,0,1⟩
  workloadSize := 2
  outputfile_inline := inline_of_notMem (by decide +kernel) (by decide +kernel)
  opening_lines := by decide +kernel
  opening_paragraphs := by decide +kernel

def fibOpening : ParsePerfTimehistAvg.Opening fibRun where
  events := ["time".toList]
  summary := summaryLines
  opening := rfl
  events_paragraph := by decide +kernel
  summary_nonempty := List.cons_ne_nil _ _
  summary_full := by decide +kernel
  summary_stripped := by decide +kernel

/-- The job that only the summary knows of has a row without delays, and so without an argument. -/
theorem stats_per_job_two : ∃ pids timings table,
    logTasksOutput ([ranJob,shorterJob].map Job.result) = some (pids,timings) ∧
      statsTable latencyReport.text fibRun.timehistFull pids = some table ∧
      PerJob [latencyOfPerf,latencyOfFib] [averageOfShorter,averageOfPerf,averageOfFib] [(100,30),(101,24)] table ∧
      ⟨101,none,some (runs averageOfShorter.average)⟩ ∈ table := by
  have hprinted : ∀ j ∈ [ranJob,shorterJob], j.printed ≠ none := by
    intro j hj
    rcases List.mem_pair.mp hj with rfl | rfl
    · exact Option.some_ne_none (100,832040)
    · exact Option.some_ne_none (101,46368)
  have hpids : (([ranJob,shorterJob].filterMap Job.logged).map Prod.fst).Nodup := by decide
  have hlatency : (latencyReport.rows.map ParsePerfLatency.Row.pid).Nodup := by decide
  have hsummary : (fibOpening.rows.map (fun row => row.pid.value)).Nodup := by decide
  obtain ⟨pids,timings,table,hlog,htable,hjobs⟩ :=
    stats_per_job (List.cons_ne_nil _ _) hprinted hpids latencyReport hlatency fibOpening hsummary
  refine ⟨pids,timings,table,hlog,htable,hjobs,(hjobs.mem_iff _).mpr ⟨101,24,?_,rfl,Or.inr (Option.some_ne_none _)⟩⟩
  exact List.mem_cons_of_mem _ List.mem_cons_self

end ServerlessSched.Analyze
