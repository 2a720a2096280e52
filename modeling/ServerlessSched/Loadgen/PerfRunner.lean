import ServerlessSched.Library.PythonText
import Mathlib.Data.NNRat.Floor

/-! # The statistics file of the perf runner

`run_experiment_perf.sh` assembles `gen_stats.txt` from three sources: the line that
`exec_workload.py` logs, the last paragraphs of what `perf` prints, and a line of its own.
-/
namespace ServerlessSched.Loadgen
open PythonText

/-! ## The runtime line -/

def roundHalfEven (x : ℚ≥0) : ℕ :=
  if x < ⌊x⌋₊ + 1 / 2 then ⌊x⌋₊
  else if ⌊x⌋₊ + 1 / 2 < x then ⌊x⌋₊ + 1
  else if ⌊x⌋₊ % 2 = 0 then ⌊x⌋₊
  else ⌊x⌋₊ + 1

/-- The runtime in hundredths of a second, as two decimals show it. -/
def hundredths (totalTime : ℚ≥0) : ℕ := roundHalfEven (totalTime * 100)

/-- What `log_total_time` writes. -/
def logTotalTime (outputfile : Text) (totalTime : ℚ≥0) : Text :=
  outputfile ++ ": ".toList ++ fixedPoint 2 (hundredths totalTime) ++ " s\n".toList

/-! ## What perf prints -/

/-- `print_sched_time`, of a time in microseconds. -/
def schedTime (width usecs : ℕ) : Text := padLeft (width + 4) (fixedPoint 3 usecs) ++ [' ']

/-- The idle time of a CPU in microseconds and in hundredths of a percent. -/
structure IdleTime where
  usecs : ℕ
  hundredths : ℕ

/-- A CPU that has run nothing has no times. -/
def cpuLine (cpu : ℕ) (idle : Option IdleTime) : Text :=
  "    CPU ".toList ++ padLeft 2 (str cpu) ++
    match idle with
    | some idle =>
      " idle for ".toList ++ schedTime 6 idle.usecs ++ " msec  (".toList ++
        padLeft 6 (fixedPoint 2 idle.hundredths) ++ "%)".toList
    | none => " idle entire time window".toList

/-- One line per CPU, from `cpu` on. -/
def cpuLines (cpu : ℕ) : List (Option IdleTime) → List Text
  | [] => []
  | idle :: rest => cpuLine cpu idle :: cpuLines (cpu + 1) rest

structure Totals where
  uniqueTasks : ℕ
  contextSwitches : ℕ
  runTime : ℕ
  schedulingTime : ℕ
  maxCpu : ℕ

namespace Totals
variable (t : Totals)

def tasksLine : Text := "    Total number of unique tasks: ".toList ++ str t.uniqueTasks

def switchesLine : Text := "Total number of context switches: ".toList ++ str t.contextSwitches

def runLine : Text := "           Total run time (msec): ".toList ++ schedTime 2 t.runTime

def schedulingLine : Text :=
  "    Total scheduling time (msec): ".toList ++ schedTime 2 t.schedulingTime ++ " (x ".toList ++ str t.maxCpu ++ [')']

def lines : List Text := [t.tasksLine,t.switchesLine,t.runLine,t.schedulingLine]

end Totals

/-! ## What the script does with it -/

/-- The records of `awk` with an empty `RS`. -/
def paragraphs (ls : List Text) : List (List Text) := (ls.splitOnP List.isEmpty).filter (fun p => !p.isEmpty)

/-- `timehist_rest.txt`: the paragraphs from the third on, with an empty line after each. -/
def timehistRest (timehistFull : Text) : Text :=
  ((paragraphs (timehistFull.splitOn '\n')).drop 2).flatMap (fun p => join ['\n'] p ++ "\n\n".toList)

/-- `total_workload_size: ` and the output of `wc -l`. -/
def sizeLine (workloadSize : ℕ) : Text := "total_workload_size: ".toList ++ str workloadSize

/-- A run of the script. Of what `perf` prints before the idle times, the events and the table
of the tasks, no more is said than that these are two paragraphs. -/
structure PerfRun where
  outputfile : Text
  totalTime : ℚ≥0
  opening : List Text
  cpus : List (Option IdleTime)
  totals : Totals
  workloadSize : ℕ
  outputfile_inline : Inline outputfile
  opening_lines : ∀ l ∈ opening, '\n' ∉ l
  opening_paragraphs : (paragraphs opening).length = 2

namespace PerfRun
variable (r : PerfRun)

def idleBlock : List Text := "Idle stats:".toList :: cpuLines 0 r.cpus

def timehistFull : Text :=
  (r.opening ++ [] :: (r.idleBlock ++ [] :: r.totals.lines)).flatMap (fun l => l ++ ['\n'])

def genStats : Text :=
  logTotalTime r.outputfile r.totalTime ++ timehistRest r.timehistFull ++ (sizeLine r.workloadSize ++ ['\n'])

end PerfRun

/-! ## The lines of the file -/

section Characters
variable {c : Char}

theorem notMem_schedTime (h : c.isDigit = false) (hother : c ∉ [' ','.']) (width usecs : ℕ) :
    c ∉ schedTime width usecs := by
  obtain ⟨hblank,hpoint⟩ : c ≠ ' ' ∧ c ≠ '.' := by simpa using hother
  have hnumber : c ∉ padLeft (width + 4) (fixedPoint 3 usecs) :=
    notMem_padLeft hblank (notMem_fixedPoint h hpoint _ _) _
  simp [schedTime,hnumber,hblank]

/-- The characters of the idle times that are not digits. -/
def idleAlphabet : Text := " .(%)CPU idle for msec entire time window".toList

theorem notMem_cpuLine (h : c.isDigit = false) (hother : c ∉ idleAlphabet) (cpu : ℕ) (idle : Option IdleTime) :
    c ∉ cpuLine cpu idle := by
  have htext : ∀ s : Text, s ⊆ idleAlphabet → c ∉ s := fun s hs hc => hother (hs hc)
  have hblank : c ≠ ' ' := fun hc => htext [' '] (by decide) (hc ▸ List.mem_cons_self)
  have hpoint : c ≠ '.' := fun hc => htext ['.'] (by decide) (hc ▸ List.mem_cons_self)
  unfold cpuLine
  rw [List.mem_append,List.mem_append,not_or,not_or]
  refine ⟨⟨htext _ (by decide),notMem_padLeft hblank (notMem_str h cpu) 2⟩,?_⟩
  cases idle with
  | none => exact htext _ (by decide)
  | some idle =>
    have hidle : c ∉ schedTime 6 idle.usecs := notMem_schedTime h (by simp [hblank,hpoint]) 6 idle.usecs
    have hpercent : c ∉ padLeft 6 (fixedPoint 2 idle.hundredths) :=
      notMem_padLeft hblank (notMem_fixedPoint h hpoint _ _) 6
    simp only [List.mem_append,not_or]
    exact ⟨⟨⟨⟨htext _ (by decide),hidle⟩,htext _ (by decide)⟩,hpercent⟩,
      htext _ (by decide)⟩

def totalsAlphabet : Text := " .():Total number of unique tasks run time (msec) scheduling x".toList

theorem notMem_totals (h : c.isDigit = false) (hother : c ∉ totalsAlphabet) (t : Totals) :
    c ∉ t.tasksLine ∧ c ∉ t.runLine ∧ c ∉ t.schedulingLine := by
  have htext : ∀ s : Text, s ⊆ totalsAlphabet → c ∉ s := fun s hs hc => hother (hs hc)
  have hpoints : c ∉ [' ','.'] := htext _ (by decide)
  unfold Totals.tasksLine Totals.runLine Totals.schedulingLine
  simp only [List.mem_append,not_or]
  exact ⟨⟨htext _ (by decide),notMem_str h _⟩,⟨htext _ (by decide),notMem_schedTime h hpoints _ _⟩,
    ⟨⟨⟨htext _ (by decide),notMem_schedTime h hpoints _ _⟩,htext _ (by decide)⟩,notMem_str h _⟩,
    htext _ (by decide)⟩

theorem notMem_switchesLine (h : c.isDigit = false) (hother : c ∉ "Total number of context switches: ".toList)
    (t : Totals) : c ∉ t.switchesLine := by
  unfold Totals.switchesLine
  rw [List.mem_append,not_or]
  exact ⟨hother,notMem_str h _⟩

theorem notMem_sizeLine (h : c.isDigit = false) (hother : c ∉ "total_workload_size: ".toList) (workloadSize : ℕ) :
    c ∉ sizeLine workloadSize := by
  unfold sizeLine
  rw [List.mem_append,not_or]
  exact ⟨hother,notMem_str h _⟩

end Characters

theorem paragraphs_append (front back : List Text) :
    paragraphs (front ++ [] :: back) = paragraphs front ++ paragraphs back := by
  rw [paragraphs,List.splitOnP_append_cons front back rfl,List.filter_append]
  rfl

theorem paragraphs_of_full {p : List Text} (hne : p ≠ []) (h : ∀ l ∈ p, l ≠ []) : paragraphs p = [p] := by
  have hfull : ∀ l ∈ p, l.isEmpty = false := by
    intro l hl
    simp [h l hl]
  rw [paragraphs,List.splitOnP_eq_singleton hfull]
  simp [hne]

theorem paragraph_ends {p : List Text} (hne : p ≠ []) :
    join ['\n'] p ++ "\n\n".toList = (p ++ [[]]).flatMap (fun l => l ++ ['\n']) := by
  rw [List.flatMap_append,flatMap_ends hne]
  simp

theorem cpuLine_ne_nil (cpu : ℕ) (idle : Option IdleTime) : cpuLine cpu idle ≠ [] := by
  unfold cpuLine
  exact List.append_ne_nil_of_left_ne_nil (List.append_ne_nil_of_left_ne_nil (by decide) _) _

theorem mem_cpuLines {cpu : ℕ} {cpus : List (Option IdleTime)} {l : Text} (h : l ∈ cpuLines cpu cpus) :
    ∃ n idle, l = cpuLine n idle := by
  induction cpus generalizing cpu with
  | nil => cases h
  | cons idle cpus ih =>
    rcases List.mem_cons.mp h with rfl | h
    · exact ⟨cpu,idle,rfl⟩
    · exact ih h

namespace PerfRun
variable (r : PerfRun)

def runtimeLine : Text := r.outputfile ++ ": ".toList ++ fixedPoint 2 (hundredths r.totalTime) ++ " s".toList

def statsLines : List Text :=
  r.runtimeLine :: (r.idleBlock ++ [] :: (r.totals.lines ++ [[],sizeLine r.workloadSize]))

theorem idleBlock_inline : ∀ l ∈ r.idleBlock, Inline l := by
  intro l hl
  rcases List.mem_cons.mp hl with rfl | hl
  · exact inline_of_notMem (by decide) (by decide)
  · obtain ⟨cpu,idle,rfl⟩ := mem_cpuLines hl
    exact inline_of_notMem (notMem_cpuLine rfl (by decide) cpu idle)
      (notMem_cpuLine rfl (by decide) cpu idle)

theorem totals_inline : ∀ l ∈ r.totals.lines, Inline l := by
  obtain ⟨htasks,hrun,hscheduling⟩ := notMem_totals (c := '\n') rfl (by decide) r.totals
  obtain ⟨htasks',hrun',hscheduling'⟩ := notMem_totals (c := '\r') rfl (by decide) r.totals
  simp only [Totals.lines,List.forall_mem_cons]
  exact ⟨inline_of_notMem htasks htasks',
    inline_of_notMem (notMem_switchesLine rfl (by decide) _) (notMem_switchesLine rfl (by decide) _),
    inline_of_notMem hrun hrun',inline_of_notMem hscheduling hscheduling',fun l hl => by cases hl⟩

theorem idleBlock_full : ∀ l ∈ r.idleBlock, l ≠ [] := by
  intro l hl
  rcases List.mem_cons.mp hl with rfl | hl
  · exact List.cons_ne_nil _ _
  · obtain ⟨cpu,idle,rfl⟩ := mem_cpuLines hl
    exact cpuLine_ne_nil cpu idle

theorem totals_full : ∀ l ∈ r.totals.lines, l ≠ [] := by
  simp only [Totals.lines,List.forall_mem_cons]
  exact ⟨List.append_ne_nil_of_right_ne_nil _ (str_ne_nil _),List.append_ne_nil_of_right_ne_nil _ (str_ne_nil _),
    List.append_ne_nil_of_right_ne_nil _ (by simp [schedTime]),List.append_ne_nil_of_right_ne_nil _ (by simp),
    fun l hl => by cases hl⟩

theorem timehistFull_lines :
    ∀ l ∈ r.opening ++ [] :: (r.idleBlock ++ [] :: r.totals.lines), '\n' ∉ l := by
  intro l hl hend
  rcases List.mem_append.mp hl with hl | hl
  · exact r.opening_lines l hl hend
  rcases List.mem_cons.mp hl with rfl | hl
  · cases hend
  rcases List.mem_append.mp hl with hl | hl
  · exact (r.idleBlock_inline l hl).notMem_end hend
  rcases List.mem_cons.mp hl with rfl | hl
  · cases hend
  · exact (r.totals_inline l hl).notMem_end hend

theorem timehistRest_eq : timehistRest r.timehistFull =
    (r.idleBlock ++ [] :: (r.totals.lines ++ [[]])).flatMap (fun l => l ++ ['\n']) := by
  have hidle_ne : r.idleBlock ≠ [] := List.cons_ne_nil _ _
  have htotals_ne : r.totals.lines ≠ [] := List.cons_ne_nil _ _
  have hidle : paragraphs r.idleBlock = [r.idleBlock] := paragraphs_of_full hidle_ne r.idleBlock_full
  have htotals : paragraphs r.totals.lines = [r.totals.lines] := paragraphs_of_full htotals_ne r.totals_full
  have hsplit : r.timehistFull.splitOn '\n' = r.opening ++ [] :: (r.idleBlock ++ [] :: (r.totals.lines ++ [[]])) := by
    rw [timehistFull,splitOn_ends r.timehistFull_lines]
    simp
  have hparagraphs : (paragraphs (r.timehistFull.splitOn '\n')).drop 2 = [r.idleBlock,r.totals.lines] := by
    rw [hsplit,paragraphs_append,paragraphs_append,paragraphs_append,hidle,htotals,
      List.drop_append_of_le_length r.opening_paragraphs.ge]
    simp [← r.opening_paragraphs,paragraphs]
  rw [timehistRest,hparagraphs,List.flatMap_cons,List.flatMap_singleton,paragraph_ends hidle_ne,
    paragraph_ends htotals_ne,← List.flatMap_append,List.append_assoc]
  rfl

/-- The file is made of lines. -/
theorem genStats_eq : r.genStats = r.statsLines.flatMap (fun l => l ++ ['\n']) := by
  have hruntime : logTotalTime r.outputfile r.totalTime = r.runtimeLine ++ ['\n'] := by
    simp [logTotalTime,runtimeLine]
  rw [genStats,hruntime,timehistRest_eq,statsLines]
  simp

theorem statsLines_inline : ∀ l ∈ r.statsLines, Inline l := by
  have hruntime : Inline r.runtimeLine :=
    ((r.outputfile_inline.append (inline_of_notMem (by decide) (by decide))).append
      (inline_of_notMem (notMem_fixedPoint rfl (by decide) _ _) (notMem_fixedPoint rfl (by decide) _ _))).append
      (inline_of_notMem (by decide) (by decide))
  have hsize : Inline (sizeLine r.workloadSize) :=
    inline_of_notMem (notMem_sizeLine rfl (by decide) _) (notMem_sizeLine rfl (by decide) _)
  have hempty : Inline [] := fun c hc => by cases hc
  simp only [statsLines,List.forall_mem_cons,List.forall_mem_append]
  exact ⟨hruntime,r.idleBlock_inline,hempty,r.totals_inline,hempty,hsize,fun l hl => by cases hl⟩

end PerfRun

/-- The first lines of `cfs_100_stats.txt`, and a CPU that has run nothing. -/
def cfsRun : PerfRun where
  outputfile := "/root/loadgen/runners/tmp/cfs_100".toList
  totalTime := 2957 / 20
  opening := ["           time    cpu  task name".toList,[],"Runtime summary".toList]
  cpus := [some ⟨125892782,8491⟩,some ⟨4561705,308⟩,none]
  totals := ⟨4247,738993,3308396092,148268826,24⟩
  workloadSize := 4130
  outputfile_inline := inline_of_notMem (by decide +kernel) (by decide +kernel)
  opening_lines := by decide +kernel
  opening_paragraphs := by decide +kernel

example : cfsRun.statsLines =
    ["/root/loadgen/runners/tmp/cfs_100: 147.85 s","Idle stats:","    CPU  0 idle for 125892.782  msec  ( 84.91%)",
      "    CPU  1 idle for   4561.705  msec  (  3.08%)","    CPU  2 idle entire time window","",
      "    Total number of unique tasks: 4247","Total number of context switches: 738993",
      "           Total run time (msec): 3308396.092 ","    Total scheduling time (msec): 148268.826  (x 24)","",
      "total_workload_size: 4130"].map String.toList := by
  decide +kernel

end ServerlessSched.Loadgen
