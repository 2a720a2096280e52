import ServerlessSched.Analyze.PerfReports
import ServerlessSched.Loadgen.PerfRunner
import ServerlessSched.Loadgen.ResultLog

/-! # Scheduling history

Two scripts read what `perf sched timehist` prints: one the times a process ran for, in the
table of the summary, the other each single run, with how long the task had waited.
-/
namespace ServerlessSched.Analyze
open PythonText Regex Loadgen

/-! ## Columns of numbers -/

/-- `\s+([\d.]+)` -/
def column (t : Regex) : Regex := seq (plus isSpace) (seq (group (plus number)) t)

structure Column where
  gap : Gap
  amount : Amount

def Column.text (c : Column) (rest : Text) : Text := c.gap.text ++ (c.amount.text ++ rest)

/-- `\s+` and a group of digits. -/
def count (t : Regex) : Regex := seq (plus isSpace) (seq (group (plus Char.isDigit)) t)

structure Count where
  gap : Gap
  value : Numeral

def Count.text (c : Count) (rest : Text) : Text := c.gap.text ++ (c.value.text ++ rest)

section Columns
variable {t : Regex} {rest : Text} {m : List Text × Text}

theorem Column.head (c : Column) (hstop : ∀ d ∈ rest.head?, number d = false) (h : (t.ways rest).head? = some m) :
    ((column t).ways (c.text rest)).head? = some (c.amount.text :: m.1,m.2) :=
  head_seq (c.gap.head (c.amount.not_isSpace rest)) (head_seq (c.amount.head hstop) h)

theorem Count.head (c : Count) (hstop : ∀ d ∈ rest.head?, d.isDigit = false) (h : (t.ways rest).head? = some m) :
    ((count t).ways (c.text rest)).head? = some (c.value.text :: m.1,m.2) :=
  head_seq (c.gap.head (c.value.not_isSpace rest)) (head_seq (c.value.head hstop) h)

theorem Column.stops {p : Char → Bool} (c : Column) (hblank : p ' ' = false) (htab : p '\t' = false) (rest : Text) :
    ∀ d ∈ (c.text rest).head?, p d = false := c.gap.stops hblank htab _

theorem Count.stops {p : Char → Bool} (c : Count) (hblank : p ' ' = false) (htab : p '\t' = false) (rest : Text) :
    ∀ d ∈ (c.text rest).head?, p d = false := c.gap.stops hblank htab _

theorem Column.notMem {c : Char} (column : Column) (hblank : c ≠ ' ') (htab : c ≠ '\t') (hnumber : number c = false)
    (hrest : c ∉ rest) : c ∉ column.text rest := by
  simp only [Column.text,List.mem_append,not_or]
  exact ⟨column.gap.notMem hblank htab,column.amount.notMem hnumber,hrest⟩

theorem Count.notMem {c : Char} (count : Count) (hblank : c ≠ ' ') (htab : c ≠ '\t') (hdigit : c.isDigit = false)
    (hrest : c ∉ rest) : c ∉ count.text rest := by
  simp only [Count.text,List.mem_append,not_or]
  exact ⟨count.gap.notMem hblank htab,count.value.notMem hdigit,hrest⟩

/-- `-?\d+` -/
def integer : Regex := seq (optional (lit '-')) (plus Char.isDigit)

theorem head_integer (n : ℤ) (hstop : ∀ d ∈ rest.head?, d.isDigit = false) :
    ((group integer).ways (strInt n ++ rest)).head? = some ([strInt n],rest) := by
  apply head_group
  cases n with
  | ofNat n =>
    have hdash : ((optional (lit '-')).ways (str n ++ rest)).head? = some ([],str n ++ rest) := by
      obtain ⟨c,w,hstr⟩ := List.exists_cons_of_ne_nil (str_ne_nil n)
      have hc : c ≠ '-' := by
        rintro rfl
        exact notMem_str (by decide) n (hstr ▸ List.mem_cons_self)
      simp [hstr,ways,lit,hc]
    exact head_seq hdash (head_digits (isDigits_str n) hstop)
  | negSucc n =>
    have hdash : ((optional (lit '-')).ways ('-' :: (str (n + 1) ++ rest))).head? = some ([],str (n + 1) ++ rest) := by
      rw [ways,List.head?_append,lit,head_char rfl]
      rfl
    exact head_seq hdash (head_digits (isDigits_str (n + 1)) hstop)

theorem strInt_not_isSpace (n : ℤ) (rest : Text) : ∀ d ∈ (strInt n ++ rest).head?, isSpace d = false := by
  cases n with
  | ofNat n => exact stops_append (str_ne_nil n) (isWord_str n).solid rest
  | negSucc n => exact stops_cons rfl _

theorem notMem_strInt {c : Char} (hdash : c ≠ '-') (hdigit : c.isDigit = false) (n : ℤ) : c ∉ strInt n := by
  cases n with
  | ofNat n => exact notMem_str hdigit n
  | negSucc n => exact List.not_mem_cons_of_ne_of_not_mem hdash (notMem_str hdigit (n + 1))

theorem Blanks.stops_end {p : Char → Bool} (b : Blanks) (hblank : p ' ' = false) (htab : p '\t' = false) :
    ∀ d ∈ b.text.head?, p d = false := by
  have hend : ∀ d ∈ ([] : Text).head?, p d = false := fun d hd => by cases hd
  have hstops := b.stops hblank htab hend
  rwa [List.append_nil] at hstops

end Columns

/-! ## The summary -/

namespace ParsePerfTimehistAvg

def notBracket : Char → Bool := fun c => c ≠ '['

/-- `\s*([^[]*)\[(\d+)\]\s+(-?\d+)\s+(\d+)`
`\s+([\d.]+)\s+([\d.]+)\s+([\d.]+)\s+([\d.]+)\s+([\d.]+)\s+(\d+)` -/
def pattern : Regex :=
  seq (star isSpace) <| seq (group (star notBracket)) <| seq (lit '[') <| seq (group (plus Char.isDigit)) <|
    seq (lit ']') <| seq (plus isSpace) <| seq (group integer) <| count <| column <| column <| column <| column <|
    column <| seq (plus isSpace) (group (plus Char.isDigit))

theorem pattern_needs : pattern.Needs '[' := Or.inr (Or.inr (Or.inl (fun _ hd => of_decide_eq_true hd)))

/-- A row of the table that is written. -/
structure Average where
  comm : Text
  pid : ℕ
  schedInCount : ℕ
  minRunMs : ℚ
  avgRunMs : ℚ
  maxRunMs : ℚ
  migrations : ℕ

/-- The rows of other processes are left out before their values are converted. -/
def readAverage (pidsSet : Finset ℕ) : List Text → Option (Option Average)
  | [comm,pid,_,schedIn,_,minRun,avgRun,maxRun,_,migrations] =>
    if intOfDigits pid ∈ pidsSet then do
      let minRunMs ← float minRun
      let avgRunMs ← float avgRun
      let maxRunMs ← float maxRun
      return some ⟨comm,intOfDigits pid,intOfDigits schedIn,minRunMs,avgRunMs,maxRunMs,intOfDigits migrations⟩
    else some none
  | _ => none

def parseTimehistAvgData (text : Text) (pidsSet : Finset ℕ) : Option (List Average) :=
  readRows pattern (readAverage pidsSet) (((strip text).splitOn '\n').drop 4)

/-- `main`, up to the file that is written. -/
def main (timehistFile pidFile : Text) : Option (List Average) :=
  (pidsFtoset pidFile).bind (parseTimehistAvgData timehistFile)

/-! ## Rows as they are printed -/

structure Row where
  toComm : Blanks
  comm : Text
  pid : Numeral
  toParent : Gap
  parent : ℤ
  schedIn : Count
  runTime : Column
  minRun : Column
  avgRun : Column
  maxRun : Column
  stddev : Column
  migrations : Count
  fromMigrations : Blanks
  comm_head : ∀ c ∈ comm.head?, isSpace c = false
  comm_bracket : '[' ∉ comm
  comm_line : '\n' ∉ comm

namespace Row
variable (r : Row)

def fromMinRun : Text :=
  r.minRun.text (r.avgRun.text (r.maxRun.text (r.stddev.text (r.migrations.text r.fromMigrations.text))))

def fromPid : Text :=
  ']' :: (r.toParent.text ++ (strInt r.parent ++ r.schedIn.text (r.runTime.text r.fromMinRun)))

def line : Text := r.toComm.text ++ (r.comm ++ '[' :: (r.pid.text ++ r.fromPid))

def average : Average :=
  ⟨r.comm,r.pid.value,r.schedIn.value.value,r.minRun.amount.value,r.avgRun.amount.value,r.maxRun.amount.value,
    r.migrations.value.value⟩

theorem head_line : (pattern.ways r.line).head? = some
    ([r.comm,r.pid.text,strInt r.parent,r.schedIn.value.text,r.runTime.amount.text,r.minRun.amount.text,
      r.avgRun.amount.text,r.maxRun.amount.text,r.stddev.amount.text,r.migrations.value.text],r.fromMigrations.text) := by
  have hmigrations := head_seq (r.migrations.gap.head (r.migrations.value.not_isSpace _))
    (r.migrations.value.head (r.fromMigrations.stops_end rfl rfl))
  have hmax := r.maxRun.head (r.stddev.stops rfl rfl _) (r.stddev.head (r.migrations.stops rfl rfl _) hmigrations)
  have hmin := r.minRun.head (r.avgRun.stops rfl rfl _) (r.avgRun.head (r.maxRun.stops rfl rfl _) hmax)
  have hschedIn := r.schedIn.head (r.runTime.stops rfl rfl _) (r.runTime.head (r.minRun.stops rfl rfl _) hmin)
  have hparent := head_seq (r.toParent.head (strInt_not_isSpace r.parent _))
    (head_seq (head_integer r.parent (r.schedIn.stops rfl rfl _)) hschedIn)
  have hpid := head_seq (r.pid.head (stops_cons rfl _)) (head_seq_lit ']' hparent)
  have hcomm : ∀ c ∈ r.comm, notBracket c = true := fun c hc => decide_eq_true (fun hf => r.comm_bracket (hf ▸ hc))
  have hbracket : notBracket '[' = false := by decide
  have hgroup := head_group (head_star hcomm (stops_cons hbracket (r.pid.text ++ r.fromPid)))
  exact head_seq (r.toComm.head (stops_both r.comm_head (stops_cons rfl _))) (head_seq hgroup (head_seq_lit '[' hpid))

/-- A row is read as it was printed, if its process is one of the workload. -/
theorem read_line (pidsSet : Finset ℕ) : readLine pattern (readAverage pidsSet) r.line =
    some (if r.pid.value ∈ pidsSet then some r.average else none) := by
  rw [readLine_of_search (search_of_head r.head_line),readAverage,r.pid.intOfDigits_text,r.minRun.amount.float_text,
    r.avgRun.amount.float_text,r.maxRun.amount.float_text,r.schedIn.value.intOfDigits_text,
    r.migrations.value.intOfDigits_text]
  split <;> rfl

theorem notMem_end_line : '\n' ∉ r.line := by
  have hcolumn : ∀ (c : Column) (rest : Text), '\n' ∉ rest → '\n' ∉ c.text rest :=
    fun c _ hrest => c.notMem (by decide) (by decide) rfl hrest
  have hcount : ∀ (c : Count) (rest : Text), '\n' ∉ rest → '\n' ∉ c.text rest :=
    fun c _ hrest => c.notMem (by decide) (by decide) rfl hrest
  have hmigrations := hcount r.migrations _ (r.fromMigrations.notMem (by decide) (by decide))
  have hmin := hcolumn r.minRun _ (hcolumn r.avgRun _ (hcolumn r.maxRun _ (hcolumn r.stddev _ hmigrations)))
  have hschedIn := hcount r.schedIn _ (hcolumn r.runTime _ hmin)
  have hpid : '\n' ∉ r.fromPid := by
    simp only [fromPid,List.mem_cons,List.mem_append,not_or]
    exact ⟨by decide,r.toParent.notMem (by decide) (by decide),notMem_strInt (by decide) rfl r.parent,hschedIn⟩
  simp only [line,List.mem_cons,List.mem_append,not_or]
  exact ⟨r.toComm.notMem (by decide) (by decide),r.comm_line,by decide,r.pid.notMem rfl,hpid⟩

end Row

/-- A line of the summary: a process by its PID, or another of its threads by both numbers, of which the text
after the first is left open. -/
inductive Tally
  | process (r : Row)
  | thread (comm : Text) (tid : Numeral) (rest : Text) (comm_bracket : '[' ∉ comm) (rest_bracket : '[' ∉ rest)
    (comm_line : '\n' ∉ comm) (rest_line : '\n' ∉ rest)

namespace Tally

def line : Tally → Text
  | process r => r.line
  | thread comm tid rest .. => comm ++ '[' :: (tid.text ++ '/' :: rest)

def process? : Tally → Option Row
  | process r => some r
  | thread .. => none

/-- After the number of a thread there is no bracket. -/
theorem search_thread {comm rest : Text} (tid : Numeral) (hcomm : '[' ∉ comm) (hrest : '[' ∉ rest) :
    search pattern.ways (comm ++ '[' :: (tid.text ++ '/' :: rest)) = none := by
  refine search_of_needs_at pattern_needs (fun v w hw hv => ?_)
  have hlast : '[' ∉ tid.text ++ '/' :: rest := by
    simp only [List.mem_append,List.mem_cons,not_or]
    exact ⟨tid.notMem rfl,by decide,hrest⟩
  have hends : w = tid.text ++ '/' :: rest := by
    rcases List.suffix_cons_iff.mp (suffix_of_notMem hcomm hw) with hw | hw
    · exact (List.cons.inj hw).2
    · exact absurd (hw.subset List.mem_cons_self) hlast
  subst hends
  refine Avoids.seq_eq_nil (r := star isSpace) rfl (fun v₁ hv₁ => ?_)
  have hbracket : notBracket '[' = false := by decide
  refine Avoids.seq_eq_nil (r := group (star notBracket)) hbracket (fun v₂ hv₂ => ?_)
  refine ways_seq_lit_eq_nil (fun hf => hv ((hv₂.trans hv₁).subset hf)) ?_
  refine Avoids.seq_eq_nil (r := group (plus Char.isDigit)) ⟨rfl,rfl⟩ (fun v₃ hv₃ => ways_seq_char_of_ne ?_ _)
  refine stops_both (fun d hd => decide_eq_false ?_) (stops_cons rfl rest)
  rintro rfl
  exact tid.notMem rfl (hv₃.subset (List.mem_of_mem_head? hd))

theorem read_line (t : Tally) (pidsSet : Finset ℕ) : readLine pattern (readAverage pidsSet) t.line =
    some (t.process?.bind (fun r => if r.pid.value ∈ pidsSet then some r.average else none)) := by
  cases t with
  | process r => exact r.read_line pidsSet
  | thread comm tid rest hcomm hrest => exact readLine_of_none (search_thread tid hcomm hrest)

theorem notMem_end_line (t : Tally) : '\n' ∉ t.line := by
  cases t with
  | process r => exact r.notMem_end_line
  | thread comm tid rest _ _ hcomm hrest =>
    simp only [line,List.mem_append,List.mem_cons,not_or]
    exact ⟨hcomm,by decide,tid.notMem rfl,by decide,hrest⟩

end Tally

/-- Of the summary, the rows of the processes of the workload are read, in their order. -/
theorem parseTimehistAvgData_report (report : Report pattern Tally Tally.line) (pidsSet : Finset ℕ) :
    parseTimehistAvgData report.text pidsSet = some (((report.lines.drop 4).filterMap ReportLine.row?).filterMap
      (fun t => t.process?.bind (fun r => if r.pid.value ∈ pidsSet then some r.average else none))) := by
  rw [parseTimehistAvgData,report.splitOn_strip Tally.notMem_end_line,← List.map_drop]
  exact readRows_report (fun t => t.read_line pidsSet) (report.lines.drop 4)

/-- `timehist_avg.txt`: the second paragraph. Without one there is no such file. -/
def timehistAvg (timehistFull : Text) : Option Text :=
  ((paragraphs (timehistFull.splitOn '\n'))[1]?).map (fun p => join ['\n'] p ++ "\n\n".toList)

/-- What `perf` prints before the idle times: the events and the summary. -/
structure Opening (r : PerfRun) where
  events : List Text
  summary : List (ReportLine pattern Tally)
  opening : r.opening = events ++ [] :: summary.map (ReportLine.text Tally.line)
  events_paragraph : (paragraphs events).length = 1
  summary_nonempty : summary ≠ []
  summary_full : ∀ l ∈ summary, l.text Tally.line ≠ []
  summary_stripped : strip (join ['\n'] (summary.map (ReportLine.text Tally.line))) =
    join ['\n'] (summary.map (ReportLine.text Tally.line))

namespace Opening
variable {r : PerfRun} (o : Opening r)

/-- The rows of the processes, after the four lines of the heading. -/
def rows : List Row := ((o.summary.drop 4).filterMap ReportLine.row?).filterMap Tally.process?

/-- The second paragraph, as `awk` writes it. -/
def report : Report pattern Tally Tally.line where
  before := []
  lines := o.summary
  after := ['\n','\n']
  before_blank := by simp
  after_blank := List.forall_mem_cons.mpr ⟨rfl,List.forall_mem_singleton.mpr rfl⟩
  lines_nonempty := o.summary_nonempty
  stripped := o.summary_stripped

theorem timehistAvg_eq : timehistAvg r.timehistFull = some o.report.text := by
  have hends : "\n\n".toList = ['\n','\n'] := by decide
  have hsummary : paragraphs (o.summary.map (ReportLine.text Tally.line)) = [o.summary.map (ReportLine.text Tally.line)] := by
    apply paragraphs_of_full (by simpa using o.summary_nonempty)
    intro l hl
    obtain ⟨line,hline,rfl⟩ := List.mem_map.mp hl
    exact o.summary_full line hline
  have hparagraph : (paragraphs (r.timehistFull.splitOn '\n'))[1]? = some (o.summary.map (ReportLine.text Tally.line)) := by
    rw [PerfRun.timehistFull,splitOn_ends r.timehistFull_lines,o.opening]
    simp only [List.append_assoc,List.cons_append]
    rw [paragraphs_append,paragraphs_append,hsummary,List.getElem?_append_right o.events_paragraph.le,o.events_paragraph]
    rfl
  rw [timehistAvg,hparagraph,Option.map_some,hends]
  rfl

/-- The averages of the workload's processes. -/
theorem main_eq (pidFile : Text) {pidsSet : Finset ℕ} (h : pidsFtoset pidFile = some pidsSet) :
    main o.report.text pidFile =
      some (o.rows.filterMap (fun r => if r.pid.value ∈ pidsSet then some r.average else none)) := by
  rw [main,h,Option.bind_some,parseTimehistAvgData_report,rows,List.filterMap_filterMap (f := Tally.process?)]
  rfl

end Opening

end ParsePerfTimehistAvg

/-! ## Single runs -/

namespace ParsePerfTimehist

/-- `\s*(\d+\.\d+)\s+\[(\d+)\]\s+(\S+)\[(\d+)\]\s+([\d.]+)\s+([\d.]+)\s+([\d.]+)` -/
def pattern : Regex :=
  seq (star isSpace) <| seq (group decimal) <| seq (plus isSpace) <| seq (lit '[') <|
    seq (group (plus Char.isDigit)) <| seq (lit ']') <| seq (plus isSpace) <| seq (group (plus notSpace)) <|
    seq (lit '[') <| seq (group (plus Char.isDigit)) <| seq (lit ']') <| column <| column <|
    seq (plus isSpace) (group (plus number))

/-- A row of the table that is written. -/
structure Latency where
  time : ℚ
  cpu : ℕ
  task : Text
  pid : ℕ
  waitTimeMs : ℚ
  schedDelayMs : ℚ
  runTimeMs : ℚ

def readLatency : List Text → Option (Option Latency)
  | [time,cpu,task,pid,waitTime,schedDelay,runTime] => do
    let waitTimeMs ← float waitTime
    let schedDelayMs ← float schedDelay
    let runTimeMs ← float runTime
    return some ⟨floatOfDecimal time,intOfDigits cpu,task,intOfDigits pid,waitTimeMs,schedDelayMs,runTimeMs⟩
  | _ => none

def parseTimehistData (text : Text) : Option (List Latency) :=
  readRows pattern readLatency (((strip text).splitOn '\n').drop 2)

/-! ### Lines as they are printed -/

/-- How a task is named: a main thread by its PID, another thread by its own number before that of its
process, which the column may cut short, and the idle task of a CPU by its name alone. -/
inductive Task
  | main (comm : Text) (pid : Numeral)
  | thread (comm : Text) (tid : Numeral) (last : Text) (last_solid : ∀ c ∈ last, isSpace c = false)
    (last_bracket : '[' ∉ last)
  | idle

namespace Task

def comm : Task → Text
  | main comm _ => comm
  | thread comm .. => comm
  | idle => "<idle>".toList

/-- What comes after the name. -/
def numbers : Task → Text
  | main _ pid => '[' :: (pid.text ++ [']'])
  | thread _ tid last .. => '[' :: (tid.text ++ '/' :: last)
  | idle => []

def text (t : Task) : Text := t.comm ++ t.numbers

theorem numbers_solid (t : Task) : ∀ c ∈ t.numbers, isSpace c = false := by
  have hdigits : ∀ (n : Numeral), ∀ c ∈ n.text, isSpace c = false :=
    fun n c hc => isSpace_of_isDigit ((isDigits_iff.mp n.isDigits).2 c hc)
  intro c hc
  cases t with
  | main comm pid =>
    simp only [numbers,List.mem_cons,List.mem_append,List.not_mem_nil,or_false] at hc
    rcases hc with rfl | hc | rfl
    · rfl
    · exact hdigits pid c hc
    · rfl
  | thread comm tid last hlast =>
    simp only [numbers,List.mem_cons,List.mem_append] at hc
    rcases hc with rfl | hc | rfl | hc
    · rfl
    · exact hdigits tid c hc
    · rfl
    · exact hlast c hc
  | idle => cases hc

theorem text_ne_nil (t : Task) : t.text ≠ [] := by
  cases t with
  | main => exact List.append_ne_nil_of_right_ne_nil _ (List.cons_ne_nil _ _)
  | thread => exact List.append_ne_nil_of_right_ne_nil _ (List.cons_ne_nil _ _)
  | idle => exact List.cons_ne_nil '<' _

theorem text_head (t : Task) (h : ∀ c ∈ t.comm.head?, isSpace c = false) : ∀ c ∈ t.text.head?, isSpace c = false :=
  stops_both h (fun c hc => t.numbers_solid c (List.mem_of_mem_head? hc))

end Task

/-- A run of a task, whose name may be of several words; a name that holds a bracket is one word. -/
structure Row where
  toTime : Blanks
  time : Amount
  toCpu : Gap
  cpu : Numeral
  toTask : Gap
  task : Task
  waitTime : Column
  schedDelay : Column
  runTime : Column
  fromRunTime : Blanks
  comm_head : ∀ c ∈ task.comm.head?, isSpace c = false
  comm_bracket : '[' ∈ task.comm → ∀ c ∈ task.comm, isSpace c = false
  comm_line : '\n' ∉ task.comm

namespace Row
variable (r : Row)

def columns : Text := r.waitTime.text (r.schedDelay.text (r.runTime.text r.fromRunTime.text))

def fromCpu : Text := r.cpu.text ++ ']' :: (r.toTask.text ++ (r.task.text ++ r.columns))

def line : Text := (r.toTime.text ++ (r.time.text ++ r.toCpu.text)) ++ '[' :: r.fromCpu

/-- The run of a main thread whose name is one word. -/
def latency? : Option Latency :=
  match r.task with
  | .main comm pid =>
    if IsWord comm then
      some ⟨r.time.value,r.cpu.value,comm,pid.value,r.waitTime.amount.value,r.schedDelay.amount.value,
        r.runTime.amount.value⟩
    else none
  | .thread .. => none
  | .idle => none

/-- What comes after a task whose name is one word. -/
def afterTask : Regex :=
  seq (lit '[') <| seq (group (plus Char.isDigit)) <| seq (lit ']') <| column <| column <|
    seq (plus isSpace) (group (plus number))

theorem head_afterTask (pid : Numeral) : (afterTask.ways ('[' :: (pid.text ++ ']' :: r.columns))).head? = some
    ([pid.text,r.waitTime.amount.text,r.schedDelay.amount.text,r.runTime.amount.text],r.fromRunTime.text) := by
  have hrunTime := head_seq (r.runTime.gap.head (r.runTime.amount.not_isSpace _))
    (r.runTime.amount.head (r.fromRunTime.stops_end rfl rfl))
  have hwait := r.waitTime.head (r.schedDelay.stops rfl rfl _) (r.schedDelay.head (r.runTime.stops rfl rfl _) hrunTime)
  exact head_seq_lit '[' (head_seq (pid.head (stops_cons rfl _)) (head_seq_lit ']' hwait))

theorem notMem_columns {c : Char} (hblank : c ≠ ' ') (htab : c ≠ '\t') (hnumber : number c = false) : c ∉ r.columns :=
  r.waitTime.notMem hblank htab hnumber (r.schedDelay.notMem hblank htab hnumber
    (r.runTime.notMem hblank htab hnumber (r.fromRunTime.notMem hblank htab)))

theorem columns_blank : ∃ b rest, r.columns = b :: rest ∧ isSpace b = true := by
  obtain ⟨b,gap,hgap⟩ := List.exists_cons_of_ne_nil r.waitTime.gap.nonempty
  refine ⟨b,_,by rw [columns,Column.text,hgap,List.cons_append],?_⟩
  exact r.waitTime.gap.solid b (hgap ▸ List.mem_cons_self)

theorem afterTask_needs : afterTask.Needs '[' := Or.inl (fun _ hd => of_decide_eq_true hd)

theorem notSpace_of_solid {c : Char} (h : isSpace c = false) : notSpace c = true := by
  rw [notSpace,h]
  rfl

theorem notSpace_of_blank {c : Char} (h : isSpace c = true) : notSpace c = false := by
  rw [notSpace,h]
  rfl

/-- A name that is one word takes the PID along at first, and gives it back. -/
theorem task_settles {comm : Text} (pid : Numeral) (hword : IsWord comm) : (plus notSpace).Settles afterTask
    (comm ++ '[' :: (pid.text ++ ']' :: r.columns)) ([],'[' :: (pid.text ++ ']' :: r.columns)) := by
  obtain ⟨c,w,rfl⟩ := List.exists_cons_of_ne_nil hword.nonempty
  have hpid : ∀ d ∈ '[' :: (pid.text ++ [']']), notSpace d = true :=
    fun d hd => notSpace_of_solid ((Task.main (c :: w) pid).numbers_solid d hd)
  have hfrom : '[' :: (pid.text ++ ']' :: r.columns) = '[' :: (pid.text ++ [']']) ++ r.columns := by simp
  rw [hfrom]
  apply plus_settles (fun d hd => notSpace_of_solid (hword.solid d hd)) hpid (r.waitTime.stops rfl rfl _)
  intro v v' hv hne
  -- what is left of the PID has no bracket that opens
  obtain ⟨d,v,rfl⟩ := List.exists_cons_of_ne_nil hne
  have hv' : pid.text ++ [']'] = v ++ v' := (List.cons.inj hv).2
  apply afterTask_needs.ways_eq_nil
  rw [List.mem_append,not_or]
  refine ⟨fun hf => ?_,r.notMem_columns (by decide) (by decide) rfl⟩
  have hmem : '[' ∈ pid.text ++ [']'] := hv' ▸ List.mem_append_right v hf
  rcases List.mem_append.mp hmem with hmem | hmem
  · exact pid.notMem rfl hmem
  · exact absurd (List.mem_singleton.mp hmem) (by decide)

theorem task_head (rest : Text) : ∀ d ∈ (r.task.text ++ rest).head?, isSpace d = false := by
  obtain ⟨c,w,htask⟩ := List.exists_cons_of_ne_nil r.task.text_ne_nil
  rw [htask]
  exact stops_cons (r.task.text_head r.comm_head c (htask ▸ rfl)) (w ++ rest)

theorem head_line {comm : Text} {pid : Numeral} (htask : r.task = .main comm pid) (hword : IsWord comm) :
    (pattern.ways r.line).head? = some ([r.time.text,r.cpu.text,comm,pid.text,r.waitTime.amount.text,
      r.schedDelay.amount.text,r.runTime.amount.text],r.fromRunTime.text) := by
  have hfrom : r.task.text ++ r.columns = comm ++ '[' :: (pid.text ++ ']' :: r.columns) := by
    simp [htask,Task.text,Task.comm,Task.numbers]
  have hname := (r.task_settles pid hword).group.head_seq (r.head_afterTask pid)
  rw [← hfrom] at hname
  have hcpu := head_seq_lit '[' (head_seq (r.cpu.head (stops_cons rfl _))
    (head_seq_lit ']' (head_seq (r.toTask.head (r.task_head r.columns)) hname)))
  have htime := head_group (head_decimal r.time.whole.isDigits r.time.frac.isDigits (r.toCpu.stops rfl rfl ('[' :: r.fromCpu)))
  rw [line,List.append_assoc,List.append_assoc]
  exact head_seq (r.toTime.head (r.time.not_isSpace _))
    (head_seq htime (head_seq (r.toCpu.head (stops_cons rfl _)) hcpu))

/-! ### Names that are not found -/

/-- A task as the pattern reads it: a word and a PID. -/
def taskPattern : Regex := seq (group (plus notSpace)) afterTask

/-- What comes after the bracket before the CPU. -/
def afterBracket : Regex := seq (group (plus Char.isDigit)) <| seq (lit ']') <| seq (plus isSpace) taskPattern

theorem pattern_needs : pattern.Needs '[' := Or.inr (Or.inr (Or.inr (Or.inl (fun _ hd => of_decide_eq_true hd))))

/-- The word ends before the first blank. -/
theorem taskPattern_rejects {w rest : Text} {b : Char} (hb : isSpace b = true)
    (h : ∀ v, v <:+ w → afterTask.ways (v ++ b :: rest) = []) : taskPattern.ways (w ++ b :: rest) = [] :=
  Avoids.seq_eq_nil (r := group (plus notSpace)) ⟨notSpace_of_blank hb,notSpace_of_blank hb⟩ h

/-- A name of several words has no bracket after the first of them. -/
theorem several_rejects {comm : Text} (hbracket : '[' ∉ comm) (hblank : ¬∀ c ∈ comm, isSpace c = false) (rest : Text) :
    taskPattern.ways (comm ++ rest) = [] := by
  obtain ⟨b,hmem,hb⟩ : ∃ b ∈ comm, isSpace b = true := by simpa using hblank
  obtain ⟨w,w',rfl⟩ := List.append_of_mem hmem
  rw [List.append_assoc,List.cons_append]
  refine taskPattern_rejects hb (fun v hv => ways_seq_char_of_ne (fun d hd => ?_) _)
  have hd' : d ∈ w ++ b :: w' := by
    cases v with
    | nil => exact Option.some.inj hd ▸ hmem
    | cons e v => exact Option.some.inj hd ▸ List.mem_append_left _ (hv.subset List.mem_cons_self)
  exact decide_eq_false (fun hf => hbracket (hf ▸ hd'))

/-- Up to a slash in the word there is no PID. -/
theorem slash_rejects {v : Text} (hv : ∀ c ∈ v, isSpace c = false) (rest : Text) :
    afterTask.ways (v ++ '/' :: rest) = [] := by
  cases v with
  | nil => exact ways_seq_char_of_ne (stops_cons (by decide) rest) _
  | cons d v =>
    apply ways_seq_eq_nil
    intro m hm
    obtain ⟨-,hv⟩ := List.forall_mem_cons.mp hv
    have hrest : m.2 = v ++ '/' :: rest := by
      rw [List.cons_append,lit,ways] at hm
      split at hm
      · exact congrArg Prod.snd (List.mem_singleton.mp hm)
      · cases hm
    rw [hrest]
    refine Avoids.seq_eq_nil (r := group (plus Char.isDigit)) ⟨rfl,rfl⟩ (fun v' hv' => ?_)
    refine Avoids.seq_eq_nil (r := lit ']') rfl (fun v'' hv'' => ?_)
    have hgap : (plus isSpace).ways (v'' ++ '/' :: rest) = [] := ways_seq_char_of_ne (stops_both
      (fun c hc => hv c ((hv''.trans hv').subset (List.mem_of_mem_head? hc))) (stops_cons rfl rest)) _
    rw [column,ways,hgap,List.flatMap_nil]

theorem rejects_of_notMem {v : Text} (hv : '[' ∉ v) : afterTask.ways (v ++ r.columns) = [] := by
  apply afterTask_needs.ways_eq_nil
  rw [List.mem_append,not_or]
  exact ⟨hv,r.notMem_columns (by decide) (by decide) rfl⟩

theorem word_rejects {w : Text} (h : ∀ v, v <:+ w → afterTask.ways (v ++ r.columns) = []) :
    taskPattern.ways (w ++ r.columns) = [] := by
  obtain ⟨b,rest,hcolumns,hb⟩ := r.columns_blank
  rw [hcolumns] at h ⊢
  exact taskPattern_rejects hb h

/-- Without a name the bracket comes first, and the pattern wants a word before it. -/
theorem nameless_rejects (pid : Numeral) : taskPattern.ways ('[' :: (pid.text ++ [']']) ++ r.columns) = [] := by
  obtain ⟨b,rest,hcolumns,hb⟩ := r.columns_blank
  apply ways_seq_eq_nil
  intro m hm
  obtain ⟨m',hm',rfl⟩ := List.mem_map.mp hm
  rw [hcolumns,List.cons_append] at hm'
  obtain ⟨v,hv,hleft⟩ := plus_stops (notSpace_of_blank hb) hm'
  dsimp only
  rw [hleft,← hcolumns]
  apply r.rejects_of_notMem
  intro hf
  rcases List.mem_append.mp (hv.subset hf) with hf | hf
  · exact pid.notMem rfl hf
  · exact absurd (List.mem_singleton.mp hf) (by decide)

/-- In the word of a thread there is a slash where the bracket would have to close. -/
theorem thread_rejects {comm last : Text} (tid : Numeral) (hcomm : ∀ c ∈ comm, isSpace c = false)
    (hlast : '[' ∉ last) : taskPattern.ways ((comm ++ '[' :: tid.text) ++ '/' :: last ++ r.columns) = [] := by
  apply r.word_rejects
  intro v hv
  rcases suffix_cases hv with ⟨w,hw,rfl⟩ | hv
  · rw [List.append_assoc,List.cons_append]
    apply slash_rejects
    intro c hc
    rcases List.mem_append.mp (hw.subset hc) with hc | hc
    · exact hcomm c hc
    · rcases List.mem_cons.mp hc with rfl | hc
      · rfl
      · exact isSpace_of_isDigit ((isDigits_iff.mp tid.isDigits).2 c hc)
  · exact r.rejects_of_notMem (fun hf => hlast (hv.subset hf))

theorem task_rejects (h : r.latency? = none) : taskPattern.ways (r.task.text ++ r.columns) = [] := by
  by_cases hsolid : ∀ c ∈ r.task.comm, isSpace c = false
  case neg =>
    rw [Task.text,List.append_assoc]
    exact several_rejects (fun hf => hsolid (r.comm_bracket hf)) hsolid _
  case pos =>
    cases htask : r.task with
    | main comm pid =>
      rw [htask] at hsolid
      have hcomm : comm = [] := by
        by_contra hne
        rw [latency?,htask] at h
        dsimp only at h
        rw [if_pos ⟨hne,hsolid⟩] at h
        cases h
      subst hcomm
      exact r.nameless_rejects pid
    | thread comm tid last hlast hbracket =>
      rw [htask] at hsolid
      have htext : (Task.thread comm tid last hlast hbracket).text = (comm ++ '[' :: tid.text) ++ '/' :: last := by
        simp [Task.text,Task.comm,Task.numbers]
      rw [htext]
      exact r.thread_rejects tid hsolid hbracket
    | idle =>
      apply r.word_rejects
      exact fun v hv => r.rejects_of_notMem (fun hf => absurd (hv.subset hf) (by decide))

/-- After the CPU there would have to be such a task. -/
theorem ways_fromCpu (h : r.latency? = none) : afterBracket.ways r.fromCpu = [] := by
  refine Avoids.seq_eq_nil (r := group (plus Char.isDigit)) ⟨rfl,rfl⟩ (fun v hv => ?_)
  refine ways_seq_lit_eq_nil (fun hf => r.cpu.notMem rfl (hv.subset hf)) ?_
  obtain ⟨c,w,htask⟩ := List.exists_cons_of_ne_nil r.task.text_ne_nil
  have hc : isSpace c = false := r.task.text_head r.comm_head c (htask ▸ rfl)
  have hrejects := r.task_rejects h
  rw [htask,List.cons_append] at hrejects ⊢
  refine Avoids.seq_eq_nil (r := plus isSpace) ⟨hc,hc⟩ (fun v hv => ?_)
  cases v with
  | nil => exact hrejects
  | cons d v =>
    have hd : notSpace d = false := notSpace_of_blank (r.toTask.solid d (hv.subset List.mem_cons_self))
    have hword : (plus notSpace).ways (d :: (v ++ c :: (w ++ r.columns))) = [] :=
      ways_seq_char_of_ne (stops_cons hd _) _
    rw [List.cons_append,taskPattern,ways,ways,hword,List.map_nil,List.flatMap_nil]

/-- In a word, a bracket that opens is that of no CPU. -/
theorem ways_word {y after : Text} (hy : ∀ c ∈ y, isSpace c = false) (hafter : '[' ∉ after) :
    afterBracket.ways (y ++ after) = [] := by
  have hneeds : taskPattern.Needs '[' := Or.inr afterTask_needs
  refine ways_seq_eq_nil (fun m hm => ways_seq_eq_nil (fun m' hm' => ways_seq_eq_nil (fun m'' hm'' => ?_)))
  have hsuffix : m'.2 <:+ y ++ after := (infix_ways hm').1.trans (infix_ways hm).1
  cases hleft : m'.2 with
  | nil => rw [hleft] at hm''; cases hm''
  | cons c s =>
    rw [hleft] at hm'' hsuffix
    cases hc : isSpace c with
    | false =>
      rw [plus,ways_seq_char_of_ne (stops_cons hc s)] at hm''
      cases hm''
    | true =>
      -- the word is over
      have hend : c :: s <:+ after := suffix_of_notMem (fun hf => by cases hc.symm.trans (hy c hf)) hsuffix
      exact hneeds.ways_eq_nil (fun hf => hafter (((infix_ways hm'').1.trans hend).subset hf))

/-- Up to the first bracket there is nothing but the time. -/
theorem ways_bracket {v w : Text} (hv : '[' ∉ v) (h : afterBracket.ways w = []) : pattern.ways (v ++ '[' :: w) = [] := by
  refine Avoids.seq_eq_nil (r := star isSpace) rfl (fun v₁ hv₁ => ?_)
  refine Avoids.seq_eq_nil (r := group decimal) ⟨⟨rfl,rfl⟩,rfl,rfl,rfl⟩ (fun v₂ hv₂ => ?_)
  refine Avoids.seq_eq_nil (r := plus isSpace) ⟨rfl,rfl⟩ (fun v₃ hv₃ => ?_)
  exact ways_seq_lit_eq_nil (fun hf => hv (((hv₃.trans hv₂).trans hv₁).subset hf)) h

theorem search_word {before p y after : Text} (hbefore : '[' ∉ before) (hp : '[' ∉ p)
    (hy : ∀ c ∈ y, isSpace c = false) (hafter : '[' ∉ after) (h : afterBracket.ways (p ++ (y ++ after)) = []) :
    search pattern.ways (before ++ '[' :: (p ++ (y ++ after))) = none := by
  refine search_of_needs_at pattern_needs (fun v w hw hv => ways_bracket hv ?_)
  rcases List.suffix_cons_iff.mp (suffix_of_notMem hbefore hw) with hw | hw
  · rwa [(List.cons.inj hw).2]
  · obtain ⟨x,hx,rfl⟩ := suffix_before hafter (suffix_of_notMem hp hw)
    exact ways_word (fun c hc => hy c (hx.subset hc)) hafter

/-- A run is not found unless it is that of a main thread whose name is one word. -/
theorem search_line (h : r.latency? = none) : search pattern.ways r.line = none := by
  have hways := r.ways_fromCpu h
  have hbefore : '[' ∉ r.toTime.text ++ (r.time.text ++ r.toCpu.text) := by
    simp only [List.mem_append,not_or]
    exact ⟨r.toTime.notMem (by decide) (by decide),r.time.notMem rfl,r.toCpu.notMem (by decide) (by decide)⟩
  have hbetween : '[' ∉ r.cpu.text ++ ']' :: r.toTask.text := by
    simp only [List.mem_append,List.mem_cons,not_or]
    exact ⟨r.cpu.notMem rfl,by decide,r.toTask.notMem (by decide) (by decide)⟩
  have hcolumns : '[' ∉ r.columns := r.notMem_columns (by decide) (by decide) rfl
  by_cases hsolid : ∀ c ∈ r.task.comm, isSpace c = false
  · have htext : ∀ c ∈ r.task.text, isSpace c = false :=
      fun c hc => (List.mem_append.mp hc).elim (hsolid c) (r.task.numbers_solid c)
    have hfrom : r.fromCpu = (r.cpu.text ++ ']' :: r.toTask.text) ++ (r.task.text ++ r.columns) := by simp [fromCpu]
    rw [line,hfrom]
    exact search_word hbefore hbetween htext hcolumns (hfrom ▸ hways)
  · have hcomm : '[' ∉ r.task.comm := fun hf => hsolid (r.comm_bracket hf)
    have hfrom : r.fromCpu = ((r.cpu.text ++ ']' :: r.toTask.text) ++ r.task.comm) ++ (r.task.numbers ++ r.columns) := by
      simp [fromCpu,Task.text]
    have hname : '[' ∉ (r.cpu.text ++ ']' :: r.toTask.text) ++ r.task.comm := by
      rw [List.mem_append,not_or]
      exact ⟨hbetween,hcomm⟩
    rw [line,hfrom]
    exact search_word hbefore hname r.task.numbers_solid hcolumns (hfrom ▸ hways)

theorem read_line : readLine pattern readLatency r.line = some r.latency? := by
  cases hlatency : r.latency? with
  | none => exact readLine_of_none (r.search_line hlatency)
  | some latency =>
    obtain ⟨comm,pid,htask,hword⟩ : ∃ comm pid, r.task = .main comm pid ∧ IsWord comm := by
      cases htask : r.task with
      | main comm pid =>
        refine ⟨comm,pid,rfl,?_⟩
        by_contra hf
        rw [latency?,htask] at hlatency
        dsimp only at hlatency
        rw [if_neg hf] at hlatency
        cases hlatency
      | thread => rw [latency?,htask] at hlatency; cases hlatency
      | idle => rw [latency?,htask] at hlatency; cases hlatency
    rw [readLine_of_search (search_of_head (r.head_line htask hword)),readLatency,r.waitTime.amount.float_text,
      r.schedDelay.amount.float_text,r.runTime.amount.float_text,r.time.floatOfDecimal_text,r.cpu.intOfDigits_text,
      pid.intOfDigits_text,← hlatency,latency?,htask]
    dsimp only
    rw [if_pos hword]
    rfl

theorem notMem_end_line : '\n' ∉ r.line := by
  have hcolumns : '\n' ∉ r.columns := r.notMem_columns (by decide) (by decide) rfl
  have hnumbers : '\n' ∉ r.task.numbers := by
    intro hf
    cases r.task.numbers_solid '\n' hf
  simp only [line,fromCpu,Task.text,List.mem_append,List.mem_cons,not_or]
  exact ⟨⟨r.toTime.notMem (by decide) (by decide),r.time.notMem rfl,r.toCpu.notMem (by decide) (by decide)⟩,by decide,
    r.cpu.notMem rfl,by decide,r.toTask.notMem (by decide) (by decide),⟨r.comm_line,hnumbers⟩,hcolumns⟩

end Row

/-- The runs that are read, in their order, are those of the main threads whose name is one word. -/
theorem latencies_recovered (report : Report pattern Row Row.line) : parseTimehistData report.text =
    some (((report.lines.drop 2).filterMap ReportLine.row?).filterMap Row.latency?) := by
  rw [parseTimehistData,report.splitOn_strip Row.notMem_end_line,← List.map_drop]
  exact readRows_report Row.read_line (report.lines.drop 2)

end ParsePerfTimehist

/-! ### A listing -/

theorem space_blank : ∀ c ∈ [' '], c = ' ' ∨ c = '\t' :=
  List.forall_mem_singleton.mpr (Or.inl rfl)

def noBlank : Blanks := ⟨[],List.forall_mem_nil _⟩

def blank : Blanks := ⟨[' '],space_blank⟩

def gap : Gap := ⟨[' '],List.cons_ne_nil _ _,space_blank⟩

/-- `whole` and `frac` thousandths. -/
def thousandths (whole frac : ℕ) (h : frac < 1000) : Amount := ⟨⟨whole,0⟩,⟨frac,3⟩,⟨Nat.succ_pos 2,h⟩⟩

namespace ParsePerfTimehist

/-- The run of a job on CPU 3. -/
def runOfJob : Row where
  toTime := blank
  time := thousandths 7 5 (by decide)
  toCpu := gap
  cpu := ⟨3,4⟩
  toTask := gap
  task := .main "job".toList ⟨100,0⟩
  waitTime := ⟨gap,thousandths 0 6 (by decide)⟩
  schedDelay := ⟨gap,thousandths 0 7 (by decide)⟩
  runTime := ⟨gap,thousandths 40 8 (by decide)⟩
  fromRunTime := noBlank
  comm_head := by rintro c ⟨⟩; rfl
  comm_bracket := fun hf => absurd hf (by decide +kernel)
  comm_line := by decide +kernel

/-- The same line for a task of another kind, with a name without a bracket. -/
def runOf (task : Task) (hhead : ∀ c ∈ task.comm.head?, isSpace c = false) (hbracket : '[' ∉ task.comm)
    (hline : '\n' ∉ task.comm) : Row :=
  { runOfJob with
    task := task
    comm_head := hhead
    comm_bracket := fun hf => absurd hf hbracket
    comm_line := hline }

theorem pattern_needs_point : pattern.Needs '.' :=
  Or.inr (Or.inl (Or.inr (Or.inl (fun _ hd => of_decide_eq_true hd))))

theorem threadEnd_solid : ∀ c ∈ ['9','9',']'], isSpace c = false :=
  List.forall_mem_cons.mpr ⟨rfl,List.forall_mem_cons.mpr ⟨rfl,List.forall_mem_singleton.mpr rfl⟩⟩

/-- The headings, and the runs of a job, of a task with a blank in its name, of a second thread and of the
idle task. -/
def listing : Report pattern Row Row.line where
  before := []
  lines := [.other "time cpu task name wait time sch delay run time".toList (by decide +kernel) '.'
      pattern_needs_point (by decide +kernel),
    .other "[tid/pid] (msec) (msec) (msec)".toList (by decide +kernel) '.' pattern_needs_point (by decide +kernel),
    .other "----- ---- ----- ----- -----".toList (by decide +kernel) '[' Row.pattern_needs (by decide +kernel),
    .row runOfJob,
    .row (runOf (.main "tmux: server".toList ⟨90,0⟩) (by rintro c ⟨⟩; rfl) (by decide +kernel) (by decide +kernel)),
    .row (runOf (.thread "perf".toList ⟨98,0⟩ ['9','9',']'] threadEnd_solid (by decide +kernel))
      (by rintro c ⟨⟩; rfl) (by decide +kernel) (by decide +kernel)),
    .row (runOf .idle (by rintro c ⟨⟩; rfl) (by decide +kernel) (by decide +kernel))]
  after := ['\n','\n']
  before_blank := List.forall_mem_nil _
  after_blank := List.forall_mem_cons.mpr ⟨rfl,List.forall_mem_singleton.mpr rfl⟩
  lines_nonempty := List.cons_ne_nil _ _
  stripped := by decide +kernel

theorem latencies_recovered_job : parseTimehistData listing.text = some runOfJob.latency?.toList := by
  rw [latencies_recovered]
  rfl

end ParsePerfTimehist
end ServerlessSched.Analyze
