import ServerlessSched.Analyze.PerfReports
import ServerlessSched.Loadgen.ResultLog

/-! # Scheduling latencies

`parse_perf_latency.py` reads the table of `perf sched latency`, one row per process, and keeps
the processes of the workload, each with the argument its PID was logged with.
-/
namespace ServerlessSched.Analyze
open PythonText Regex Loadgen

namespace ParsePerfLatency

/-- `\s*\|` -/
def bar (t : Regex) : Regex := seq (star isSpace) (seq (lit '|') t)

/-- `\s*([\d.]+)\s*` -/
def amount (t : Regex) : Regex := seq (star isSpace) (seq (group (plus number)) (seq (star isSpace) t))

/-- `\s*<label>` -/
def label (text : String) (t : Regex) : Regex := seq (star isSpace) (lits text.toList t)

/-- `\s*(.*?)\s*\|\s*([\d.]+)\s*ms\s*\|\s*(\d+)\s*\|`
`\s*avg:\s*([\d.]+)\s*ms\s*\|\s*max:\s*([\d.]+)\s*ms\s*\|`
`\s*max start:\s*([\d.]+)\s*s\s*\|\s*max end:\s*([\d.]+)\s*s` -/
def pattern : Regex :=
  seq (star isSpace) <| seq (group (lazyStar dot)) <| bar <| amount <| lits "ms".toList <| bar <|
    seq (star isSpace) <| seq (group (plus Char.isDigit)) <| bar <|
    label "avg:" <| amount <| lits "ms".toList <| bar <| label "max:" <| amount <| lits "ms".toList <| bar <|
    label "max start:" <| amount <| lits "s".toList <| bar <| label "max end:" <| amount <| lit 's'

theorem pattern_needs : pattern.Needs '|' := Or.inr (Or.inr (Or.inr (Or.inl (fun _ hd => of_decide_eq_true hd))))

/-- A row before the PIDs are looked at. -/
structure Entry where
  task : Text
  runtimeMs : ℚ
  switches : ℕ
  avgDelayMs : ℚ
  maxDelayMs : ℚ
  maxDelayStart : ℚ
  maxDelayEnd : ℚ

def readEntry : List Text → Option (Option Entry)
  | [task,runtime,switches,avgDelay,maxDelay,maxDelayStart,maxDelayEnd] => do
    let runtimeMs ← float runtime
    let avgDelayMs ← float avgDelay
    let maxDelayMs ← float maxDelay
    let maxDelayStart ← float maxDelayStart
    let maxDelayEnd ← float maxDelayEnd
    return some ⟨strip task,runtimeMs,intOfDigits switches,avgDelayMs,maxDelayMs,maxDelayStart,maxDelayEnd⟩
  | _ => none

/-- A row of the table that is written. -/
structure Latency where
  task : Text
  pid : ℤ
  arg : Text
  runtimeMs : ℚ
  switches : ℕ
  avgDelayMs : ℚ
  maxDelayMs : ℚ
  maxDelayStart : ℚ
  maxDelayEnd : ℚ

/-- `task.split(':')[-1]` -/
def pidText (task : Text) : Text := (task.splitOn ':').getLastD []

/-- `pid_arg_map.get(pid)` -/
def lookupArg (pidArgMap : ℕ → Option Text) : ℤ → Option Text
  | .ofNat pid => pidArgMap pid
  | .negSucc _ => none

/-- The last three statements of `parse_latency_data`: the PIDs are converted, all of them, and
the rows are filtered and given their arguments. -/
def addArgs (pidArgMap : ℕ → Option Text) (entries : List Entry) : Option (List Latency) :=
  (entries.mapM (fun e => (int (pidText e.task)).map (fun pid => (e,pid)))).map (List.filterMap (fun (e,pid) =>
    (lookupArg pidArgMap pid).map (fun arg =>
      ⟨e.task,pid,arg,e.runtimeMs,e.switches,e.avgDelayMs,e.maxDelayMs,e.maxDelayStart,e.maxDelayEnd⟩)))

def isDataLine (line : Text) : Bool := contains ['|'] line && !startsWith "---".toList line

def parseLatencyData (text : Text) (pidArgMap : ℕ → Option Text) : Option (List Latency) :=
  (readRows pattern readEntry (((strip text).splitOn '\n').filter isDataLine)).bind (addArgs pidArgMap)

/-! ## Rows as they are printed -/

/-- A number, its unit and what is around them. -/
structure Cell where
  toAmount : Blanks
  amount : Amount
  toUnit : Blanks
  toBar : Blanks

def Cell.text (c : Cell) (unit rest : Text) : Text :=
  c.toAmount.text ++ (c.amount.text ++ (c.toUnit.text ++ (unit ++ (c.toBar.text ++ rest))))

/-- `<comm>:<pid> | <ms> ms | <count> | avg: <ms> ms | max: <ms> ms | max start: <s> s | max end: <s> s` -/
structure Row where
  toTask : Gap
  comm : Text
  pid : ℕ
  fromTask : Blanks
  runtime : Cell
  toSwitches : Blanks
  switches : Numeral
  fromSwitches : Blanks
  toAvg : Blanks
  avgDelay : Cell
  toMax : Blanks
  maxDelay : Cell
  toStart : Blanks
  maxDelayStart : Cell
  toEnd : Blanks
  maxDelayEnd : Cell
  comm_head : ∀ c ∈ comm.head?, isSpace c = false
  comm_bar : '|' ∉ comm
  comm_line : '\n' ∉ comm

namespace Row
variable (r : Row)

def task : Text := r.comm ++ ':' :: str r.pid

def fromEnd : Text := r.toEnd.text ++ ("max end:".toList ++ r.maxDelayEnd.text "s".toList [])

def fromStart : Text :=
  r.toStart.text ++ ("max start:".toList ++ r.maxDelayStart.text "s".toList ('|' :: r.fromEnd))

def fromMax : Text := r.toMax.text ++ ("max:".toList ++ r.maxDelay.text "ms".toList ('|' :: r.fromStart))

def fromAvg : Text := r.toAvg.text ++ ("avg:".toList ++ r.avgDelay.text "ms".toList ('|' :: r.fromMax))

def fromCount : Text := r.toSwitches.text ++ (r.switches.text ++ (r.fromSwitches.text ++ '|' :: r.fromAvg))

def fromRuntime : Text := r.runtime.text "ms".toList ('|' :: r.fromCount)

def line : Text := r.toTask.text ++ (r.task ++ (r.fromTask.text ++ '|' :: r.fromRuntime))

def entry : Entry :=
  ⟨r.task,r.runtime.amount.value,r.switches.value,r.avgDelay.amount.value,r.maxDelay.amount.value,
    r.maxDelayStart.amount.value,r.maxDelayEnd.amount.value⟩

end Row

/-! ## What each part of the pattern takes -/

section Parts
variable {t : Regex} {rest : Text} {m : List Text × Text}

theorem stops_first {p : Char → Bool} {s : Text} (h : s.head?.map p = some false) (rest : Text) :
    ∀ d ∈ (s ++ rest).head?, p d = false := by
  cases s with
  | nil => cases h
  | cons c s => exact stops_cons (Option.some.inj h) _

theorem head_bar (b : Blanks) (h : (t.ways rest).head? = some m) :
    ((bar t).ways (b.text ++ '|' :: rest)).head? = some m :=
  head_seq (b.head (stops_cons rfl rest)) (head_seq_lit '|' h)

theorem head_label (text : String) (b : Blanks) (hfirst : text.toList.head?.map isSpace = some false)
    (h : (t.ways rest).head? = some m) : ((label text t).ways (b.text ++ (text.toList ++ rest))).head? = some m :=
  head_seq (b.head (stops_first hfirst rest)) (head_lits text.toList h)

theorem head_amount (unit : Text) (c : Cell) (hspace : unit.head?.map isSpace = some false)
    (hnumber : unit.head?.map number = some false) (h : (t.ways (unit ++ (c.toBar.text ++ rest))).head? = some m) :
    ((amount t).ways (c.text unit rest)).head? = some (c.amount.text :: m.1,m.2) := by
  have hunit := head_seq (c.toUnit.head (stops_first hspace _)) h
  have hstop := c.toUnit.stops (p := number) rfl rfl (stops_first hnumber (c.toBar.text ++ rest))
  exact head_seq (c.toAmount.head (c.amount.not_isSpace _)) (head_seq (c.amount.head hstop) hunit)

/-- A cell with its unit, up to the bar. -/
theorem head_cell (unit : Text) (c : Cell) (hspace : unit.head?.map isSpace = some false)
    (hnumber : unit.head?.map number = some false) (h : (t.ways rest).head? = some m) :
    ((amount (lits unit (bar t))).ways (c.text unit ('|' :: rest))).head? = some (c.amount.text :: m.1,m.2) :=
  head_amount unit c hspace hnumber (head_lits unit (head_bar c.toBar h))

/-- What a task ends with is no blank, so that no bar comes next within the task. -/
theorem bar_rejects {v : Text} (hne : v ≠ []) (hlast : isSpace (v.getLast hne) = false) (hbar : '|' ∉ v) (rest : Text) :
    (bar t).ways (v ++ rest) = [] := by
  have hsplit : v ++ rest = v.dropLast ++ v.getLast hne :: rest := by
    have hv := congrArg (· ++ rest) (List.dropLast_append_getLast hne)
    simpa using hv.symm
  apply ways_seq_eq_nil
  intro m hm
  rw [hsplit] at hm
  obtain ⟨v',hv',hleft⟩ := Avoids.stops (r := star isSpace) hlast hm
  rw [hleft]
  apply ways_seq_char_of_ne
  intro d hd
  have hmem : d ∈ v := by
    cases v' with
    | nil => exact Option.some.inj hd ▸ List.getLast_mem hne
    | cons e v' => exact Option.some.inj hd ▸ List.mem_of_mem_dropLast (hv'.subset List.mem_cons_self)
  apply decide_eq_false
  rintro rfl
  exact hbar hmem

end Parts

namespace Row
variable (r : Row)

theorem task_ne_nil : r.task ≠ [] := List.append_ne_nil_of_right_ne_nil _ (List.cons_ne_nil _ _)

theorem task_last : isSpace (r.task.getLast r.task_ne_nil) = false := by
  have hlast : r.task.getLast r.task_ne_nil = (str r.pid).getLast (str_ne_nil r.pid) :=
    (List.getLast_append_of_ne_nil _ (List.cons_ne_nil ':' (str r.pid))).trans (List.getLast_cons (str_ne_nil r.pid))
  rw [hlast]
  exact isSpace_of_isDigit (str_isDigit r.pid _ (List.getLast_mem _))

theorem task_head (rest : Text) : ∀ d ∈ (r.task ++ rest).head?, isSpace d = false := by
  rw [task,List.append_assoc]
  exact stops_both r.comm_head (stops_cons rfl _)

theorem notMem_task {c : Char} (hcomm : c ∉ r.comm) (hcolon : c ≠ ':') (hdigit : c.isDigit = false) : c ∉ r.task := by
  intro hc
  rcases List.mem_append.mp hc with hc | hc
  · exact hcomm hc
  · exact notMem_str hdigit r.pid ((List.mem_cons.mp hc).resolve_left hcolon)

theorem strip_task : strip r.task = r.task := by
  have hfront : r.task.dropWhile isSpace = r.task := by
    obtain ⟨c,w,htask⟩ := List.exists_cons_of_ne_nil r.task_ne_nil
    have hc : isSpace c = false := r.task_head [] c (by simp [htask])
    rw [htask,List.dropWhile_cons_of_neg (by simp [hc])]
  rw [strip,hfront,List.rdropWhile_eq_self_iff]
  intro _
  simp [r.task_last]

/-- The task is what stands before the first bar. -/
theorem task_settles {t : Regex} : (lazyStar dot).Settles (bar t) (r.task ++ (r.fromTask.text ++ '|' :: r.fromRuntime))
    ([],r.fromTask.text ++ '|' :: r.fromRuntime) := by
  apply lazyStar_settles
  · intro c hc
    apply decide_eq_true
    rintro rfl
    exact r.notMem_task r.comm_line (by decide) rfl hc
  · intro u v huv hv
    have hlast : isSpace (v.getLast hv) = false := by
      have hend := r.task_last
      simp only [huv,List.getLast_append_of_ne_nil _ hv] at hend
      exact hend
    have hbar : '|' ∉ v := by
      intro hf
      exact r.notMem_task r.comm_bar (by decide) rfl (huv ▸ List.mem_append_right u hf)
    exact bar_rejects hv hlast hbar _

theorem head_line : ∃ left, (pattern.ways r.line).head? = some
    ([r.task,r.runtime.amount.text,r.switches.text,r.avgDelay.amount.text,r.maxDelay.amount.text,
      r.maxDelayStart.amount.text,r.maxDelayEnd.amount.text],left) := by
  refine ⟨r.maxDelayEnd.toBar.text,?_⟩
  have hs : "s".toList = ['s'] := by decide
  have hunit : ((lit 's').ways ("s".toList ++ (r.maxDelayEnd.toBar.text ++ []))).head? =
      some ([],r.maxDelayEnd.toBar.text) := by
    rw [hs,List.append_nil]
    exact head_char rfl r.maxDelayEnd.toBar.text
  have hend := head_label "max end:" r.toEnd (by decide)
    (head_amount "s".toList r.maxDelayEnd (by decide) (by decide) hunit)
  have hstart := head_label "max start:" r.toStart (by decide)
    (head_cell "s".toList r.maxDelayStart (by decide) (by decide) hend)
  have hmax := head_label "max:" r.toMax (by decide)
    (head_cell "ms".toList r.maxDelay (by decide) (by decide) hstart)
  have havg := head_label "avg:" r.toAvg (by decide)
    (head_cell "ms".toList r.avgDelay (by decide) (by decide) hmax)
  have hcount := head_seq (r.toSwitches.head (r.switches.not_isSpace _))
    (head_seq (r.switches.head (r.fromSwitches.stops rfl rfl (stops_cons rfl _))) (head_bar r.fromSwitches havg))
  have hruntime := head_cell "ms".toList r.runtime (by decide) (by decide) hcount
  have hgap : ((star isSpace).ways (r.toTask.text ++ (r.task ++ (r.fromTask.text ++ '|' :: r.fromRuntime)))).head? =
      some ([],r.task ++ (r.fromTask.text ++ '|' :: r.fromRuntime)) := head_star r.toTask.solid (r.task_head _)
  exact head_seq hgap (r.task_settles.group.head_seq (head_bar r.fromTask hruntime))

/-- A row is read as it was printed. -/
theorem read_line : readLine pattern readEntry r.line = some (some r.entry) := by
  obtain ⟨left,hhead⟩ := r.head_line
  rw [readLine_of_search (search_of_head hhead),readEntry,r.runtime.amount.float_text,r.avgDelay.amount.float_text,
    r.maxDelay.amount.float_text,r.maxDelayStart.amount.float_text,r.maxDelayEnd.amount.float_text,r.strip_task,
    r.switches.intOfDigits_text]
  rfl

theorem bar_mem_line : '|' ∈ r.line :=
  List.mem_append_right _ (List.mem_append_right _ (List.mem_append_right _ List.mem_cons_self))

theorem isDataLine_line : isDataLine r.line = true := by
  have hbar : contains ['|'] r.line = true := by
    apply decide_eq_true
    exact (List.singleton_infix_iff _ _).mpr r.bar_mem_line
  have hrule : startsWith "---".toList r.line = false := by
    obtain ⟨c,w,hgap⟩ := List.exists_cons_of_ne_nil r.toTask.nonempty
    have hc : c ≠ '-' := by
      rcases r.toTask.blank c (hgap ▸ List.mem_cons_self) with rfl | rfl <;> decide
    have hline : r.line = c :: (w ++ (r.task ++ (r.fromTask.text ++ '|' :: r.fromRuntime))) := by
      rw [line,hgap,List.cons_append]
    have hdashes : "---".toList = ['-','-','-'] := by decide
    simp [startsWith,hline,hdashes,List.isPrefixOf,hc.symm]
  rw [isDataLine,hbar,hrule]
  rfl

theorem notMem_end_line : '\n' ∉ r.line := by
  have hcell : ∀ (c : Cell) (unit rest : Text), '\n' ∉ unit → '\n' ∉ rest → '\n' ∉ c.text unit rest := by
    intro c unit rest hunit hrest
    simp only [Cell.text,List.mem_append,not_or]
    exact ⟨c.toAmount.notMem (by decide) (by decide),c.amount.notMem rfl,c.toUnit.notMem (by decide) (by decide),
      hunit,c.toBar.notMem (by decide) (by decide),hrest⟩
  have hlabel : ∀ (b : Blanks) (label rest : Text), '\n' ∉ label → '\n' ∉ rest → '\n' ∉ b.text ++ (label ++ rest) := by
    intro b label rest hlabel hrest
    simp only [List.mem_append,not_or]
    exact ⟨b.notMem (by decide) (by decide),hlabel,hrest⟩
  have hbar : ∀ rest : Text, '\n' ∉ rest → '\n' ∉ '|' :: rest := by
    intro rest hrest
    simpa using hrest
  have hend := hlabel r.toEnd "max end:".toList _ (by decide)
    (hcell r.maxDelayEnd "s".toList [] (by decide) List.not_mem_nil)
  have hstart := hlabel r.toStart "max start:".toList _ (by decide)
    (hcell r.maxDelayStart "s".toList _ (by decide) (hbar _ hend))
  have hmax := hlabel r.toMax "max:".toList _ (by decide)
    (hcell r.maxDelay "ms".toList _ (by decide) (hbar _ hstart))
  have havg := hlabel r.toAvg "avg:".toList _ (by decide)
    (hcell r.avgDelay "ms".toList _ (by decide) (hbar _ hmax))
  have hcount := hlabel r.toSwitches r.switches.text _ (r.switches.notMem rfl)
    (hlabel r.fromSwitches [] _ List.not_mem_nil (hbar _ havg))
  have hruntime := hcell r.runtime "ms".toList _ (by decide) (hbar _ hcount)
  have htask := hlabel r.fromTask [] _ List.not_mem_nil (hbar _ hruntime)
  rw [line,List.mem_append,List.mem_append,not_or,not_or]
  exact ⟨r.toTask.notMem (by decide) (by decide),r.notMem_task r.comm_line (by decide) rfl,htask⟩

theorem int_pidText : int (pidText r.task) = some (r.pid : ℤ) := by
  have hcolon : ':' ∉ str r.pid := notMem_str rfl r.pid
  have hpid : pidText r.task = str r.pid := by
    rw [pidText,task,List.splitOn_append_cons_self,List.splitOn_eq_singleton hcolon,List.getLastD_concat]
  have hblank : strip (' ' :: str r.pid) = strip (str r.pid) := strip_cons rfl _
  have hint := int_str r.pid
  rw [int,hblank] at hint
  rw [hpid,int]
  exact hint

/-- The row with the argument that was logged. -/
def latency (arg : Text) : Latency :=
  ⟨r.task,r.pid,arg,r.runtime.amount.value,r.switches.value,r.avgDelay.amount.value,r.maxDelay.amount.value,
    r.maxDelayStart.amount.value,r.maxDelayEnd.amount.value⟩

end Row

theorem addArgs_rows (pidArgMap : ℕ → Option Text) (rows : List Row) : addArgs pidArgMap (rows.map Row.entry) =
    some (rows.filterMap (fun r => (pidArgMap r.pid).map r.latency)) := by
  have hpids : ∀ rows : List Row, (rows.map Row.entry).mapM
      (fun e => (int (pidText e.task)).map (fun pid => (e,pid))) =
      some (rows.map (fun r => (r.entry,(r.pid : ℤ)))) := by
    intro rows
    induction rows with
    | nil => rfl
    | cons r rows ih =>
      have hint : int (pidText r.entry.task) = some (r.pid : ℤ) := r.int_pidText
      rw [List.map_cons,List.mapM_cons,ih,hint]
      rfl
  rw [addArgs,hpids,Option.map_some,List.filterMap_map]
  rfl

/-- Of a report, the rows of the PIDs that were logged are read, in their order, with their
arguments. -/
theorem parseLatencyData_report (report : Report pattern Row Row.line) (pidArgMap : ℕ → Option Text) :
    parseLatencyData report.text pidArgMap =
      some (report.rows.filterMap (fun r => (pidArgMap r.pid).map r.latency)) := by
  have hdata : ((strip report.text).splitOn '\n').filter isDataLine =
      (report.lines.filter (fun l => isDataLine (l.text Row.line))).map (ReportLine.text Row.line) := by
    rw [report.splitOn_strip Row.notMem_end_line,List.filter_map]
    rfl
  have hrows : (report.lines.filter (fun l => isDataLine (l.text Row.line))).filterMap ReportLine.row? = report.rows := by
    rw [Report.rows,List.filterMap_filter]
    apply List.filterMap_congr
    intro l _
    cases l with
    | row r => exact if_pos r.isDataLine_line
    | other => exact ite_self none
  rw [parseLatencyData,hdata,readRows_report Row.read_line,hrows,List.filterMap_eq_map',Option.bind_some,addArgs_rows]

/-- `main`, up to the file that is written. -/
def main (latenciesFile pidsFile : Text) : Option (List Latency) :=
  (getPidArgMap pidsFile).bind (parseLatencyData latenciesFile)

end ParsePerfLatency
end ServerlessSched.Analyze
