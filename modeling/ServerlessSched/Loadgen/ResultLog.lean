import ServerlessSched.Library.PythonText
import ServerlessSched.Loadgen.Executor
import Mathlib.Data.Finset.Insert

/-! # The log of results and its three readers

One line for each task, a PID and an argument. The writer takes the PID from what the task
printed; the readers are three scripts that check the lines in their own ways.
-/
namespace ServerlessSched
open PythonText

namespace Loadgen

/-- A row of the timings file. -/
structure Timing where
  pid : Text
  arg : Text
  requestTime : ℚ
  returnTime : ℚ
  duration : ℚ

/-- A round of the loop of `log_tasks_output`; without a first word in the output, the index
`[0]` raises. -/
def logTask (r : Result) : Option (Text × Timing) :=
  (split r.output.toList).head?.map (fun pid =>
    (pid ++ ' ' :: r.arg.toList,⟨pid,r.arg.toList,r.requestTime,r.returnTime,r.returnTime - r.requestTime⟩))

def logTasks : List Result → Option (List (Text × Timing))
  | [] => some []
  | r :: rs => (logTask r).bind (fun row => (logTasks rs).map (fun rows => row :: rows))

/-- The contents of the PID file and the rows of the timings file, both written at the end. -/
def logTasksOutput (taskResults : List Result) : Option (Text × List Timing) :=
  (logTasks taskResults).map (fun rows =>
    (join ['\n'] (rows.map Prod.fst) ++ ['\n'],rows.map Prod.snd))

end Loadgen

namespace Analyze

/-- A reader cuts every stripped line, expects two parts, and adds them to what it has. -/
def readPidLines {S : Type} (cut : Text → List Text) (add : Text → Text → S → Option S) :
    List Text → S → Option S
  | [], s => some s
  | line :: rest, s =>
    match cut (strip line) with
    | [pid,arg] => (add pid arg s).bind (readPidLines cut add rest)
    | _ => none

namespace ParseTrace

def addPid (pid arg : Text) (pids : Finset (ℕ × ℕ)) : Option (Finset (ℕ × ℕ)) :=
  if isDigits pid && isDigits arg then some (insert (intOfDigits arg,intOfDigits pid) pids) else none

/-- The set of pairs of an argument and a PID. -/
def pidsFtoset (file : Text) : Option (Finset (ℕ × ℕ)) := readPidLines split addPid (lines file) ∅

end ParseTrace

namespace ParsePerfTimehistAvg

def addPid (pid _ : Text) (pids : Finset ℕ) : Option (Finset ℕ) :=
  if isDigits pid then some (insert (intOfDigits pid) pids) else none

def pidsFtoset (file : Text) : Option (Finset ℕ) := readPidLines split addPid (lines file) ∅

end ParsePerfTimehistAvg

namespace ParsePerfLatency

/-- Lines that do not start with a PID are skipped. -/
def addArg (pid arg : Text) (pidArgMap : ℕ → Option Text) : Option (ℕ → Option Text) :=
  if isDigits pid then some (Function.update pidArgMap (intOfDigits pid) (some arg)) else some pidArgMap

def getPidArgMap (file : Text) : Option (ℕ → Option Text) :=
  readPidLines (splitOnce ' ') addArg (lines file) (fun _ => none)

end ParsePerfLatency

end Analyze

namespace Loadgen

/-- A job of the workload, and the PID and the number it printed, if it came so far. -/
structure Job where
  arg : ℕ
  printed : Option (ℕ × ℕ)
  requestTime : ℚ
  returnTime : ℚ

namespace Job

def stdout (j : Job) : Text :=
  match j.printed with
  | none => []
  | some (pid,number) => str pid ++ ' ' :: str number

/-- The entry the reaper writes for the job. -/
def result (j : Job) : Result := ⟨String.ofList j.stdout,String.ofList (str j.arg),j.requestTime,j.returnTime⟩

/-- The PID of a job that printed it, with the argument. -/
def logged (j : Job) : Option (ℕ × ℕ) := j.printed.map (fun p => (p.1,j.arg))

end Job

def pidLine (p : ℕ × ℕ) : Text := str p.1 ++ ' ' :: str p.2

/-- The log is written, holds one line for each job that printed its PID, and is read alike by
the three readers. -/
structure Logged (jobs : List Job) (file : Text) : Prop where
  lines : lines file = (jobs.filterMap Job.logged).map pidLine
  trace : Analyze.ParseTrace.pidsFtoset file = some ((jobs.filterMap Job.logged).map Prod.swap).toFinset
  timehist : Analyze.ParsePerfTimehistAvg.pidsFtoset file =
    some ((jobs.filterMap Job.logged).map Prod.fst).toFinset
  latency : ∃ pidArgMap, Analyze.ParsePerfLatency.getPidArgMap file = some pidArgMap ∧
    ∀ pid value, pidArgMap pid = some value ↔ ∃ arg, (pid,arg) ∈ jobs.filterMap Job.logged ∧ value = str arg

def SurvivesLog (jobs : List Job) : Prop :=
  ∃ file timings, logTasksOutput (jobs.map Job.result) = some (file,timings) ∧ Logged jobs file

/-! ## The writer -/

theorem Job.logTask_none {j : Job} (h : j.printed = none) : logTask j.result = none := by
  have hsplit : split j.result.output.toList = [] := by simp [Job.result,Job.stdout,h,split]
  rw [logTask,hsplit]
  rfl

theorem Job.logTask_some {j : Job} {pid number : ℕ} (h : j.printed = some (pid,number)) :
    ∃ timing, logTask j.result = some (pidLine (pid,j.arg),timing) := by
  have hsplit : split j.result.output.toList = str pid :: split (str number) := by
    simp only [Job.result,Job.stdout,h,String.toList_ofList]
    exact (isWord_str pid).split_append (str number)
  rw [logTask,hsplit]
  exact ⟨_,by simp [Job.result,pidLine]; rfl⟩

theorem logTasks_none {jobs : List Job} {j : Job} (hj : j ∈ jobs) (h : j.printed = none) :
    logTasks (jobs.map Job.result) = none := by
  induction jobs with
  | nil => cases hj
  | cons k jobs ih =>
    rw [List.map_cons,logTasks]
    rcases List.mem_cons.mp hj with rfl | hj
    · rw [Job.logTask_none h]
      rfl
    · rw [ih hj]
      cases logTask k.result <;> rfl

theorem logTasks_some {jobs : List Job} (h : ∀ j ∈ jobs, j.printed ≠ none) :
    ∃ rows, logTasks (jobs.map Job.result) = some rows ∧
      rows.map Prod.fst = (jobs.filterMap Job.logged).map pidLine := by
  induction jobs with
  | nil => exact ⟨[],rfl,rfl⟩
  | cons j jobs ih =>
    obtain ⟨rows,hrows,hlines⟩ := ih (fun k hk => h k (List.mem_cons_of_mem j hk))
    obtain ⟨⟨pid,number⟩,hprinted⟩ := Option.ne_none_iff_exists'.mp (h j List.mem_cons_self)
    obtain ⟨timing,htask⟩ := Job.logTask_some hprinted
    refine ⟨(pidLine (pid,j.arg),timing) :: rows,?_,?_⟩
    · rw [List.map_cons,logTasks,htask,hrows]
      rfl
    · have hlogged : j.logged = some (pid,j.arg) := by rw [Job.logged,hprinted]; rfl
      rw [List.filterMap_cons_some hlogged,List.map_cons,List.map_cons,hlines]

theorem logged_eq_nil {jobs : List Job} (h : ∀ j ∈ jobs, j.printed ≠ none) :
    jobs.filterMap Job.logged = [] ↔ jobs = [] := by
  cases jobs with
  | nil => exact iff_of_true rfl rfl
  | cons j jobs =>
    obtain ⟨printed,hprinted⟩ := Option.ne_none_iff_exists'.mp (h j List.mem_cons_self)
    have hlogged : j.logged = some (printed.1,j.arg) := by rw [Job.logged,hprinted]; rfl
    simp [hlogged]

/-! ## The readers -/

theorem strip_pidLine (p : ℕ × ℕ) : strip (pidLine p) = pidLine p := by
  have hstrip := (isWord_str p.1).strip_append (isWord_str p.2) [' ']
  simpa [pidLine] using hstrip

theorem pidLine_inline (p : ℕ × ℕ) : Inline (pidLine p) :=
  (isWord_str p.1).inline.append ((isWord_str p.2).inline.cons (by decide))

theorem split_pidLine (p : ℕ × ℕ) : split (pidLine p) = [str p.1,str p.2] := by
  rw [pidLine,(isWord_str p.1).split_append,(isWord_str p.2).split]

theorem splitOnce_pidLine (p : ℕ × ℕ) : splitOnce ' ' (pidLine p) = [str p.1,str p.2] := by
  apply splitOnce_append
  intro hspace
  cases (isWord_str p.1).solid ' ' hspace

open Analyze

theorem addPid_trace (p : ℕ × ℕ) (pids : Finset (ℕ × ℕ)) :
    ParseTrace.addPid (str p.1) (str p.2) pids = some (insert p.swap pids) := by
  have hswap : p.swap = (p.2,p.1) := rfl
  simp [ParseTrace.addPid,hswap]

theorem addPid_timehist (p : ℕ × ℕ) (pids : Finset ℕ) :
    ParsePerfTimehistAvg.addPid (str p.1) (str p.2) pids = some (insert p.1 pids) := by
  simp [ParsePerfTimehistAvg.addPid]

theorem addArg_latency (p : ℕ × ℕ) (pidArgMap : ℕ → Option Text) :
    ParsePerfLatency.addArg (str p.1) (str p.2) pidArgMap =
      some (Function.update pidArgMap p.1 (some (str p.2))) := by
  simp [ParsePerfLatency.addArg]

/-- A reader that takes every written line goes through the file line by line. -/
theorem readPidLines_written {S : Type} {cut : Text → List Text} {add : Text → Text → S → Option S}
    {take : S → ℕ × ℕ → S} (hcut : ∀ p, cut (pidLine p) = [str p.1,str p.2])
    (hadd : ∀ p s, add (str p.1) (str p.2) s = some (take s p)) (ps : List (ℕ × ℕ)) (s : S) :
    readPidLines cut add (ps.map pidLine) s = some (ps.foldl take s) := by
  induction ps generalizing s with
  | nil => rfl
  | cons p ps ih =>
    rw [List.map_cons,readPidLines,strip_pidLine,hcut]
    simp [hadd,ih]

theorem foldl_insert {α : Type} [DecidableEq α] (f : ℕ × ℕ → α) (ps : List (ℕ × ℕ)) (s : Finset α) :
    ps.foldl (fun s p => insert (f p) s) s = s ∪ (ps.map f).toFinset := by
  induction ps generalizing s with
  | nil => simp
  | cons p ps ih =>
    rw [List.foldl_cons,ih,List.map_cons,List.toFinset_cons,Finset.insert_union,Finset.union_insert]

/-- With distinct PIDs no entry replaces another. -/
theorem foldl_update {ps : List (ℕ × ℕ)} (hps : (ps.map Prod.fst).Nodup) (g : ℕ → Option Text) (pid : ℕ)
    (value : Text) :
    ps.foldl (fun (g : ℕ → Option Text) p => Function.update g p.1 (some (str p.2))) g pid = some value ↔
      (∃ arg, (pid,arg) ∈ ps ∧ value = str arg) ∨ (pid ∉ ps.map Prod.fst ∧ g pid = some value) := by
  induction ps generalizing g with
  | nil => simp
  | cons p ps ih =>
    obtain ⟨p,a⟩ := p
    obtain ⟨hp,hnodup⟩ := List.nodup_cons.mp hps
    rw [List.foldl_cons,ih hnodup]
    by_cases hpid : pid = p
    · subst hpid
      have habsent : ∀ arg, (pid,arg) ∉ ps := fun arg hmem => hp (List.mem_map.mpr ⟨(pid,arg),hmem,rfl⟩)
      simp [habsent,eq_comm]
    · simp [hpid]

theorem foldl_update_empty {ps : List (ℕ × ℕ)} (hps : (ps.map Prod.fst).Nodup) (pid : ℕ) (value : Text) :
    ps.foldl (fun (g : ℕ → Option Text) p => Function.update g p.1 (some (str p.2))) (fun _ => none) pid =
      some value ↔ ∃ arg, (pid,arg) ∈ ps ∧ value = str arg := by
  rw [foldl_update hps]
  simp

/-- A file of one line for each pair gives each reader exactly the pairs. -/
theorem logged_of_lines {jobs : List Job} (hpids : ((jobs.filterMap Job.logged).map Prod.fst).Nodup)
    {file : Text} (hlines : lines file = (jobs.filterMap Job.logged).map pidLine) : Logged jobs file := by
  refine ⟨hlines,?_,?_,?_⟩
  · rw [ParseTrace.pidsFtoset,hlines,readPidLines_written split_pidLine addPid_trace,foldl_insert,
      Finset.empty_union]
  · rw [ParsePerfTimehistAvg.pidsFtoset,hlines,readPidLines_written split_pidLine addPid_timehist,foldl_insert,
      Finset.empty_union]
  · refine ⟨_,?_,foldl_update_empty hpids⟩
    rw [ParsePerfLatency.getPidArgMap,hlines]
    exact readPidLines_written splitOnce_pidLine addArg_latency _ _

/-! ## When the log survives -/

/-- The log of distinct PIDs is written and read back exactly when there are jobs and all of
them printed their PID. -/
theorem survivesLog_iff (jobs : List Job) (hpids : ((jobs.filterMap Job.logged).map Prod.fst).Nodup) :
    SurvivesLog jobs ↔ jobs ≠ [] ∧ ∀ j ∈ jobs, j.printed ≠ none := by
  constructor
  · rintro ⟨file,timings,hfile,hlogged⟩
    constructor
    · rintro rfl
      cases hfile
      cases hlogged.lines
    · intro j hj hnone
      rw [logTasksOutput,logTasks_none hj hnone] at hfile
      cases hfile
  · rintro ⟨hne,hprinted⟩
    obtain ⟨rows,hrows,hwritten⟩ := logTasks_some hprinted
    refine ⟨_,_,by rw [logTasksOutput,hrows]; rfl,logged_of_lines hpids ?_⟩
    rw [hwritten]
    apply lines_join
    · simpa [logged_eq_nil hprinted] using hne
    · intro l hl
      obtain ⟨p,-,rfl⟩ := List.mem_map.mp hl
      exact pidLine_inline p

def ranJob : Job := ⟨30,some (100,832040),0,1⟩

/-- A second job, started before the first one came back and back before it. -/
def shorterJob : Job := ⟨24,some (101,46368),1/4,1/2⟩

theorem survivesLog_two : SurvivesLog [ranJob,shorterJob] := by
  have hpids : (([ranJob,shorterJob].filterMap Job.logged).map Prod.fst).Nodup := by decide
  refine (survivesLog_iff [ranJob,shorterJob] hpids).mpr ⟨List.cons_ne_nil _ _,?_⟩
  intro j hj
  rcases List.mem_pair.mp hj with rfl | rfl
  · exact Option.some_ne_none (100,832040)
  · exact Option.some_ne_none (101,46368)

/-- A job that failed before it could print. -/
def failedJob : Job := ⟨31,none,1,2⟩

/-- One failed job costs the whole log; and the log of no jobs is a line that no reader takes. -/
theorem log_lost : (logTasksOutput ([ranJob,failedJob].map Job.result)).isNone = true ∧
    ¬SurvivesLog [ranJob,failedJob] ∧ (logTasksOutput []).map Prod.fst = some ['\n'] ∧
    Analyze.ParseTrace.pidsFtoset ['\n'] = none ∧ ¬SurvivesLog [] := by
  have hlost : logTasksOutput ([ranJob,failedJob].map Job.result) = none := by
    rw [logTasksOutput,logTasks_none (j := failedJob) (by simp) rfl]
    rfl
  refine ⟨by rw [hlost]; rfl,?_,rfl,by decide,?_⟩
  · rintro ⟨file,timings,hfile,-⟩
    cases hlost.symm.trans hfile
  · rintro ⟨file,timings,hfile,hlogged⟩
    cases hfile
    cases hlogged.lines

end Loadgen
end ServerlessSched
