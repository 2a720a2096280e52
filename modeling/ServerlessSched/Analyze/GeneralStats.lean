import ServerlessSched.Analyze.Trace
import ServerlessSched.Loadgen.PerfRunner

/-! # General statistics

`graph_general_stats.py` reads the file that the perf runner assembles. It looks for the
workload size in the second line, and for the times of a CPU in the form they have when the
CPU has run something.
-/
namespace ServerlessSched.Analyze
open PythonText Regex Loadgen

structure CpuIdle where
  idleTimeMs : ℚ
  idlePercent : ℚ
deriving DecidableEq

/-- A key that was not set has no value. -/
structure GeneralStats where
  totalRuntime : Option ℚ
  totalWorkloadSize : Option ℤ
  totalContextSwitches : Option ℕ
  cpuIdleData : List (ℕ × CpuIdle)
  avgIdleTimeMs : Option ℚ
  totalIdleTimeMs : Option ℚ
  avgIdlePercent : Option ℚ
  numCpus : Option ℕ
deriving DecidableEq

/-- `(\d+\.\d+)\s+s`, which is searched for with `$` after it. -/
def runtimePattern : Regex := seq (group decimal) (seq (plus isSpace) (lit 's'))

/-- `CPU\s+(\d+)\s+idle\s+for\s+(\d+\.\d+)\s+msec\s+\(\s*(\d+\.\d+)%\)` -/
def idlePattern : Regex :=
  lits "CPU".toList <| seq (plus isSpace) <| seq (group (plus Char.isDigit)) <| seq (plus isSpace) <|
    lits "idle".toList <| seq (plus isSpace) <| lits "for".toList <| seq (plus isSpace) <|
    seq (group decimal) <| seq (plus isSpace) <| lits "msec".toList <| seq (plus isSpace) <| seq (lit '(') <|
    seq (star isSpace) <| seq (group decimal) <| seq (lit '%') (lit ')')

/-- `Total number of context switches:\s+(\d+)` -/
def switchesPattern : Regex :=
  lits "Total number of context switches:".toList (seq (plus isSpace) (group (plus Char.isDigit)))

/-- `data[key] = value` -/
def setItem (key : ℕ) (value : CpuIdle) : List (ℕ × CpuIdle) → List (ℕ × CpuIdle)
  | [] => [(key,value)]
  | item :: data => if item.1 = key then (key,value) :: data else item :: setItem key value data

structure Scan where
  inIdleSection : Bool
  cpuIdleData : List (ℕ × CpuIdle)
  totalContextSwitches : Option ℕ

/-- CPU 0 is skipped. -/
def scanCpu (line : Text) (data : List (ℕ × CpuIdle)) : List (ℕ × CpuIdle) :=
  match search idlePattern.ways line with
  | some [cpuNum,idleTimeMs,idlePercent] =>
    if intOfDigits cpuNum ≠ 0 then
      setItem (intOfDigits cpuNum) ⟨floatOfDecimal idleTimeMs,floatOfDecimal idlePercent⟩ data
    else data
  | _ => data

def scanSwitches (line : Text) (totalContextSwitches : Option ℕ) : Option ℕ :=
  if contains "Total number of context switches:".toList line then
    match search switchesPattern.ways line with
    | some [switches] => some (intOfDigits switches)
    | _ => totalContextSwitches
  else totalContextSwitches

/-- The body of the loop over the lines. -/
def scanLine (s : Scan) (line : Text) : Scan :=
  if contains "Idle stats:".toList line then { s with inIdleSection := true }
  else if s.inIdleSection && contains "CPU".toList line then
    { s with
      cpuIdleData := scanCpu line s.cpuIdleData
      totalContextSwitches := scanSwitches line s.totalContextSwitches }
  else if s.inIdleSection && strip line = [] then { s with inIdleSection := false }
  else { s with totalContextSwitches := scanSwitches line s.totalContextSwitches }

def totalRuntime (lines : List Text) : Option ℚ :=
  match search runtimePattern.waysToEnd (lines.headD []) with
  | some [runtime] => some (floatOfDecimal runtime)
  | _ => none

/-- A size that is no number ends the script. -/
def totalWorkloadSize (lines : List Text) : Option (Option ℤ) :=
  match lines with
  | _ :: line :: _ =>
    if startsWith "total_workload_size:".toList line then (int (strip ((line.splitOn ':').getD 1 []))).map some
    else some none
  | _ => some none

/-- What is computed only of data that is there. -/
def aggregate {α : Type} (data : List (ℕ × CpuIdle)) (f : List CpuIdle → α) : Option α :=
  if data = [] then none else some (f (data.map Prod.snd))

def mean (xs : List ℚ) : ℚ := xs.sum / xs.length

def parseGeneralStats (content : Text) : Option GeneralStats :=
  let lines := (strip content).splitOn '\n'
  let s := lines.foldl scanLine ⟨false,[],none⟩
  (totalWorkloadSize lines).map (fun size =>
    { totalRuntime := totalRuntime lines
      totalWorkloadSize := size
      totalContextSwitches := s.totalContextSwitches
      cpuIdleData := s.cpuIdleData
      avgIdleTimeMs := aggregate s.cpuIdleData (fun data => mean (data.map CpuIdle.idleTimeMs))
      totalIdleTimeMs := aggregate s.cpuIdleData (fun data => (data.map CpuIdle.idleTimeMs).sum)
      avgIdlePercent := aggregate s.cpuIdleData (fun data => mean (data.map CpuIdle.idlePercent))
      numCpus := aggregate s.cpuIdleData List.length })

/-- `load_data`, of a file that can be read. -/
def loadData (file : Text) : Text := universalNewlines file

/-! ## What the patterns take from the lines -/

theorem contains_of_notMem {c : Char} {sub s : Text} (hc : c ∈ sub) (h : c ∉ s) : contains sub s = false := by
  apply decide_eq_false
  intro hsub
  exact h (hsub.subset hc)

section Blanks
variable {rest : Text}

theorem blank_solid (n : ℕ) : ∀ c ∈ List.replicate n ' ', isSpace c = true := by
  intro c hc
  rw [List.eq_of_mem_replicate hc]
  rfl

theorem head_blanks (n : ℕ) (hstop : ∀ d ∈ rest.head?, isSpace d = false) :
    ((plus isSpace).ways (' ' :: (List.replicate n ' ' ++ rest))).head? = some ([],rest) :=
  head_plus (List.cons_ne_nil _ _) (blank_solid (n + 1)) hstop

/-- A blank or several, and a word. -/
theorem head_word {w : Text} {r : Regex} {m : List Text × Text} (n : ℕ) (hw : IsWord w)
    (h : (r.ways rest).head? = some m) :
    ((seq (plus isSpace) (lits w r)).ways (' ' :: (List.replicate n ' ' ++ (w ++ rest)))).head? = some m :=
  head_seq (head_blanks n (stops_append hw.nonempty hw.solid rest)) (head_lits w h)

theorem not_isSpace_str (n : ℕ) (rest : Text) : ∀ d ∈ (str n ++ rest).head?, isSpace d = false :=
  stops_append (str_ne_nil n) (isWord_str n).solid rest

theorem not_isSpace_fixedPoint (digits n : ℕ) (rest : Text) :
    ∀ d ∈ (fixedPoint digits n ++ rest).head?, isSpace d = false := by
  rw [fixedPoint,List.append_assoc]
  exact not_isSpace_str _ _

end Blanks

/-! ## The times of a CPU -/

def percentPattern : Regex := seq (star isSpace) (seq (group decimal) (seq (lit '%') (lit ')')))

def idleTimePattern : Regex :=
  seq (plus isSpace) <| seq (group decimal) <| seq (plus isSpace) <| lits "msec".toList <|
    seq (plus isSpace) <| seq (lit '(') percentPattern

def idleForPattern : Regex :=
  seq (plus isSpace) <| lits "idle".toList <| seq (plus isSpace) <| lits "for".toList idleTimePattern

theorem idlePattern_eq : idlePattern =
    lits "CPU".toList (seq (plus isSpace) (seq (group (plus Char.isDigit)) idleForPattern)) := rfl

theorem head_percent (width n : ℕ) :
    (percentPattern.ways (padLeft width (fixedPoint 2 n) ++ ['%',')'])).head? = some ([fixedPoint 2 n],[]) := by
  have hsign : ∀ d ∈ ['%',')'].head?, d.isDigit = false := stops_cons rfl _
  rw [padLeft,List.append_assoc]
  exact head_seq (head_star (blank_solid _) (not_isSpace_fixedPoint 2 n _))
    (head_seq (head_fixedPoint hsign) (head_seq_lit '%' (head_char rfl [])))

theorem head_idleTime (width usecs : ℕ) {rest : Text} {captures : List Text}
    (h : (percentPattern.ways rest).head? = some (captures,[])) :
    (idleTimePattern.ways (' ' :: (padLeft width (fixedPoint 3 usecs) ++
      ' ' :: ' ' :: ("msec".toList ++ ' ' :: ' ' :: '(' :: rest)))).head? =
      some (fixedPoint 3 usecs :: captures,[]) := by
  have hparen : ∀ d ∈ ('(' :: rest).head?, isSpace d = false := stops_cons rfl _
  have hmsec : IsWord "msec".toList := by decide
  have hunit := head_word 1 hmsec (head_seq (head_blanks 1 hparen) (head_seq_lit '(' h))
  have hblank : ∀ d ∈ (' ' :: ' ' :: ("msec".toList ++ ' ' :: ' ' :: '(' :: rest)).head?, d.isDigit = false :=
    stops_cons rfl _
  rw [padLeft,List.append_assoc]
  exact head_seq (head_blanks _ (not_isSpace_fixedPoint 3 usecs _)) (head_seq (head_fixedPoint hblank) hunit)

theorem head_idleFor {rest : Text} {captures : List Text} (h : (idleTimePattern.ways rest).head? = some (captures,[])) :
    (idleForPattern.ways (' ' :: ("idle".toList ++ ' ' :: ("for".toList ++ rest)))).head? = some (captures,[]) := by
  have hidle : IsWord "idle".toList := by decide
  have hfor : IsWord "for".toList := by decide
  exact head_word 0 hidle (head_word 0 hfor h)

theorem head_idlePattern (width cpu : ℕ) {rest : Text} {captures : List Text}
    (h : (idleForPattern.ways (' ' :: rest)).head? = some (captures,[])) :
    (idlePattern.ways ("CPU".toList ++ ' ' :: (padLeft width (str cpu) ++ ' ' :: rest))).head? =
      some (str cpu :: captures,[]) := by
  have hblank : ∀ d ∈ (' ' :: rest).head?, d.isDigit = false := stops_cons rfl _
  rw [idlePattern_eq,padLeft,List.append_assoc]
  exact head_lits _ (head_seq (head_blanks _ (not_isSpace_str cpu _))
    (head_seq (head_group (head_digits (isDigits_str cpu) hblank)) h))

theorem search_idle (cpu : ℕ) (idle : IdleTime) : search idlePattern.ways (cpuLine cpu (some idle)) =
    some [str cpu,fixedPoint 3 idle.usecs,fixedPoint 2 idle.hundredths] := by
  have hmatch := head_idlePattern 2 cpu (head_idleFor (head_idleTime 10 idle.usecs (head_percent 6 idle.hundredths)))
  have hline : cpuLine cpu (some idle) = ' ' :: ' ' :: ' ' :: ' ' :: ("CPU".toList ++ ' ' :: (padLeft 2 (str cpu) ++
      ' ' :: ("idle".toList ++ ' ' :: ("for".toList ++ ' ' :: (padLeft 10 (fixedPoint 3 idle.usecs) ++
      ' ' :: ' ' :: ("msec".toList ++ ' ' :: ' ' :: '(' :: (padLeft 6 (fixedPoint 2 idle.hundredths) ++
      ['%',')']))))))) := by
    unfold cpuLine schedTime
    simp
  have hblank : ∀ s : Text, idlePattern.ways (' ' :: s) = [] :=
    fun s => ways_seq_char_of_ne (stops_cons rfl s) _
  rw [hline,search_cons (hblank _),search_cons (hblank _),search_cons (hblank _),search_cons (hblank _)]
  exact search_of_head hmatch

theorem search_idle_none (cpu : ℕ) : search idlePattern.ways (cpuLine cpu none) = none := by
  -- without times there is no `for`
  have hneeds : idlePattern.Needs 'f' :=
    needs_lits (.inr (.inr (.inr (.inr (needs_lits (.inr (.inr (needs_lits (.inl (by decide))))))))))
  apply search_of_needs hneeds
  unfold cpuLine
  simp only [List.mem_append,not_or]
  exact ⟨⟨by decide,notMem_padLeft (by decide) (notMem_str rfl cpu) 2⟩,by decide⟩

/-! ## The lines one by one -/

theorem scanSwitches_of_notMem {line : Text} {c : Char} (hc : c ∈ "Total number of context switches:".toList)
    (h : c ∉ line) (switches : Option ℕ) : scanSwitches line switches = switches := by
  rw [scanSwitches,contains_of_notMem hc h]
  rfl

theorem scanLine_outside {s : Scan} {line : Text} (hsection : s.inIdleSection = false) (hidle : 'I' ∉ line) :
    scanLine s line = { s with totalContextSwitches := scanSwitches line s.totalContextSwitches } := by
  rw [scanLine,contains_of_notMem (by decide) hidle,hsection]
  simp

/-- Outside the idle times, a line that does not name the switches is passed over. -/
theorem scanLine_other {s : Scan} {line : Text} {c : Char} (hsection : s.inIdleSection = false) (hidle : 'I' ∉ line)
    (hc : c ∈ "Total number of context switches:".toList) (h : c ∉ line) : scanLine s line = s := by
  rw [scanLine_outside hsection hidle,scanSwitches_of_notMem hc h]

theorem scanSwitches_switchesLine (t : Totals) (switches : Option ℕ) :
    scanSwitches t.switchesLine switches = some t.contextSwitches := by
  have hline : t.switchesLine =
      "Total number of context switches:".toList ++ ' ' :: (List.replicate 0 ' ' ++ (str t.contextSwitches ++ [])) := by
    unfold Totals.switchesLine
    simp
  have hcontains : contains "Total number of context switches:".toList t.switchesLine = true :=
    decide_eq_true (hline ▸ (List.prefix_append _ _).isInfix)
  have hdigits : ∀ d ∈ ([] : Text).head?, d.isDigit = false := fun d hd => by cases hd
  have hnumber := head_group (head_digits (isDigits_str t.contextSwitches) hdigits)
  have hsearch : search switchesPattern.ways t.switchesLine = some [str t.contextSwitches] := by
    rw [hline]
    exact search_of_head (head_lits _ (head_seq (head_blanks 0 (not_isSpace_str t.contextSwitches [])) hnumber))
  unfold scanSwitches
  rw [if_pos hcontains,hsearch]
  exact congrArg some (intOfDigits_str t.contextSwitches)

/-- What is read of a CPU that has times. -/
def idleEntry (idle : IdleTime) : CpuIdle := ⟨idle.usecs / 10 ^ 3,idle.hundredths / 10 ^ 2⟩

theorem scanCpu_idle {cpu : ℕ} (hcpu : cpu ≠ 0) (idle : IdleTime) (data : List (ℕ × CpuIdle)) :
    scanCpu (cpuLine cpu (some idle)) data = setItem cpu (idleEntry idle) data := by
  have hentry : (⟨floatOfDecimal (fixedPoint 3 idle.usecs),floatOfDecimal (fixedPoint 2 idle.hundredths)⟩ : CpuIdle) =
      idleEntry idle := by
    rw [floatOfDecimal_fixedPoint (by decide),floatOfDecimal_fixedPoint (by decide)]
    rfl
  simp [scanCpu,search_idle,hcpu,hentry]

theorem scanCpu_zero (idle : IdleTime) (data : List (ℕ × CpuIdle)) : scanCpu (cpuLine 0 (some idle)) data = data := by
  simp [scanCpu,search_idle]

theorem scanCpu_none (cpu : ℕ) (data : List (ℕ × CpuIdle)) : scanCpu (cpuLine cpu none) data = data := by
  simp [scanCpu,search_idle_none]

theorem setItem_of_new {key : ℕ} {data : List (ℕ × CpuIdle)} (h : ∀ item ∈ data, item.1 ≠ key) (value : CpuIdle) :
    setItem key value data = data ++ [(key,value)] := by
  induction data with
  | nil => rfl
  | cons item data ih =>
    obtain ⟨hitem,hdata⟩ := List.forall_mem_cons.mp h
    rw [setItem,if_neg hitem,ih hdata,List.cons_append]

/-- What is read of the CPUs from `cpu` on. -/
def idleEntries (cpu : ℕ) : List (Option IdleTime) → List (ℕ × CpuIdle)
  | [] => []
  | none :: cpus => idleEntries (cpu + 1) cpus
  | some idle :: cpus =>
    if cpu = 0 then idleEntries (cpu + 1) cpus else (cpu,idleEntry idle) :: idleEntries (cpu + 1) cpus

theorem scanLine_cpu {s : Scan} (hsection : s.inIdleSection = true) (cpu : ℕ) (idle : Option IdleTime) :
    scanLine s (cpuLine cpu idle) = { s with cpuIdleData := scanCpu (cpuLine cpu idle) s.cpuIdleData } := by
  have hidle : 'I' ∉ cpuLine cpu idle := notMem_cpuLine rfl (by decide) cpu idle
  have htotal : 'T' ∉ cpuLine cpu idle := notMem_cpuLine rfl (by decide) cpu idle
  have hcpu : contains "CPU".toList (cpuLine cpu idle) = true := by
    have hfront : "CPU".toList <:+: "    CPU ".toList := by decide
    apply decide_eq_true
    unfold cpuLine
    exact hfront.trans ((List.prefix_append _ _).trans (List.prefix_append _ _)).isInfix
  rw [scanLine,contains_of_notMem (by decide) hidle,hsection,hcpu,
    scanSwitches_of_notMem (by decide) htotal]
  simp

theorem scan_cpuLines {s : Scan} {cpu : ℕ} (hsection : s.inIdleSection = true)
    (hkeys : ∀ item ∈ s.cpuIdleData, item.1 < cpu) (cpus : List (Option IdleTime)) :
    (cpuLines cpu cpus).foldl scanLine s = { s with cpuIdleData := s.cpuIdleData ++ idleEntries cpu cpus } := by
  induction cpus generalizing s cpu with
  | nil => simp [cpuLines,idleEntries]
  | cons idle cpus ih =>
    have hlater : ∀ item ∈ s.cpuIdleData, item.1 < cpu + 1 := fun item hitem => (hkeys item hitem).trans (by omega)
    rw [cpuLines,List.foldl_cons,scanLine_cpu hsection]
    cases idle with
    | none =>
      rw [scanCpu_none,idleEntries]
      exact ih hsection hlater
    | some idle =>
      by_cases hcpu : cpu = 0
      · subst hcpu
        rw [scanCpu_zero,idleEntries,if_pos rfl]
        exact ih hsection hlater
      · have hnew : ∀ item ∈ s.cpuIdleData, item.1 ≠ cpu := fun item hitem => (hkeys item hitem).ne
        have hkeys' : ∀ item ∈ s.cpuIdleData ++ [(cpu,idleEntry idle)], item.1 < cpu + 1 :=
          List.forall_mem_append.mpr ⟨hlater,List.forall_mem_singleton.mpr (Nat.lt_succ_self cpu)⟩
        have hrest := ih (s := { s with cpuIdleData := s.cpuIdleData ++ [(cpu,idleEntry idle)] }) hsection hkeys'
        rw [scanCpu_idle hcpu,setItem_of_new hnew,idleEntries,if_neg hcpu,hrest]
        simp

/-! ## The file -/

section File
variable (r : PerfRun)

/-- The runtime is looked for after the colon. -/
theorem search_runtime (front : Text) (n : ℕ) :
    search runtimePattern.waysToEnd (front ++ ':' :: ' ' :: (fixedPoint 2 n ++ [' ','s'])) = some [fixedPoint 2 n] := by
  -- a match that began at the colon or before it would have to go past it
  have havoids : runtimePattern.Avoids ':' := ⟨⟨⟨rfl,rfl⟩,rfl,rfl,rfl⟩,⟨rfl,rfl⟩,rfl⟩
  have hcolon : ∀ u v : Text, front ++ [':'] = u ++ v → v ≠ [] → runtimePattern.waysToEnd (v ++
      ' ' :: (fixedPoint 2 n ++ [' ','s'])) = [] := by
    intro u v huv hv
    obtain ⟨v',c,rfl⟩ := (List.eq_nil_or_concat' v).resolve_left hv
    have hc : c = ':' := by
      rw [← List.append_assoc] at huv
      exact (List.append_inj_right' huv rfl |> List.singleton_inj.mp).symm
    rw [hc,List.append_assoc]
    exact havoids.waysToEnd_eq_nil (by decide) v' _
  have hblank : runtimePattern.ways (' ' :: (fixedPoint 2 n ++ [' ','s'])) = [] := by
    have hdigits : (plus Char.isDigit).ways (' ' :: (fixedPoint 2 n ++ [' ','s'])) = [] :=
      ways_seq_char_of_ne (stops_cons rfl _) _
    simp only [runtimePattern,decimal,ways,hdigits,List.flatMap_nil,List.map_nil]
  have hunit : ∀ d ∈ [' ','s'].head?, d.isDigit = false := stops_cons rfl _
  have hs : ((seq (plus isSpace) (lit 's')).ways [' ','s']).head? = some ([],[]) := by decide
  have hfront : front ++ ':' :: ' ' :: (fixedPoint 2 n ++ [' ','s']) =
      (front ++ [':']) ++ ' ' :: (fixedPoint 2 n ++ [' ','s']) := by simp
  rw [hfront,search_skip hcolon,search_cons (waysToEnd_eq_nil hblank)]
  exact search_of_head (head_waysToEnd (head_seq (head_fixedPoint hunit) hs))

/-- The lines that the script goes through. -/
theorem lines_genStats : (strip (loadData r.genStats)).splitOn '\n' =
    (r.outputfile.dropWhile isSpace ++ ':' :: ' ' :: (fixedPoint 2 (hundredths r.totalTime) ++ [' ','s'])) ::
      (r.idleBlock ++ [] :: (r.totals.lines ++ [[],sizeLine r.workloadSize])) := by
  have hlines : ∀ l ∈ r.statsLines, '\n' ∉ l := fun l hl => (r.statsLines_inline l hl).notMem_end
  have hruntime : r.runtimeLine =
      r.outputfile ++ ':' :: ' ' :: (fixedPoint 2 (hundredths r.totalTime) ++ [' ','s']) := by
    simp [PerfRun.runtimeLine]
  have hstats : r.statsLines = (r.outputfile ++ ':' :: ' ' :: (fixedPoint 2 (hundredths r.totalTime) ++ [' ','s'])) ::
      ((r.idleBlock ++ [] :: (r.totals.lines ++ [[]])) ++ [sizeLine r.workloadSize]) := by
    rw [PerfRun.statsLines,hruntime]
    simp
  have hsize : str r.workloadSize <:+ sizeLine r.workloadSize := List.suffix_append _ _
  have hsplit := splitOn_strip_ends (hstats ▸ hlines) rfl (isWord_str r.workloadSize) hsize
  rw [loadData,r.genStats_eq,universalNewlines_ends r.statsLines_inline,hstats,hsplit]
  simp

theorem scanLine_before {s : Scan} (hsection : s.inIdleSection = false) (line : Text) :
    (scanLine s line).cpuIdleData = s.cpuIdleData := by
  unfold scanLine
  rw [hsection]
  split <;> rfl

theorem scanLine_header (s : Scan) : scanLine s "Idle stats:".toList = { s with inIdleSection := true } := by
  have hheader : contains "Idle stats:".toList "Idle stats:".toList = true := decide_eq_true List.infix_rfl
  unfold scanLine
  rw [if_pos hheader]

theorem scanLine_blank {s : Scan} (hsection : s.inIdleSection = true) :
    scanLine s [] = { s with inIdleSection := false } := by
  have hother : ∀ sub : Text, sub ≠ [] → contains sub [] = false := by
    intro sub hsub
    exact decide_eq_false (fun hinfix => hsub (List.infix_nil.mp hinfix))
  rw [scanLine,hother _ (by decide),hother _ (by decide),hsection]
  rfl

theorem scan_idleBlock {s : Scan} (hdata : s.cpuIdleData = []) :
    r.idleBlock.foldl scanLine s = { s with inIdleSection := true, cpuIdleData := idleEntries 0 r.cpus } := by
  have hkeys : ∀ item ∈ s.cpuIdleData, item.1 < 0 := by
    rw [hdata]
    intro item hitem
    cases hitem
  have hcpus := scan_cpuLines (s := { s with inIdleSection := true }) rfl hkeys r.cpus
  rw [PerfRun.idleBlock,List.foldl_cons,scanLine_header,hcpus,hdata]
  rfl

theorem scan_totals {s : Scan} (hsection : s.inIdleSection = false) :
    r.totals.lines.foldl scanLine s = { s with totalContextSwitches := some r.totals.contextSwitches } := by
  obtain ⟨htasks,hrun,hscheduling⟩ := notMem_totals (c := 'I') rfl (by decide) r.totals
  obtain ⟨htasks',hrun',hscheduling'⟩ := notMem_totals (c := 'w') rfl (by decide) r.totals
  have hw : 'w' ∈ "Total number of context switches:".toList := by decide
  have hidle : 'I' ∉ r.totals.switchesLine := notMem_switchesLine rfl (by decide) r.totals
  have hfound : scanLine s r.totals.switchesLine = { s with totalContextSwitches := some r.totals.contextSwitches } := by
    rw [scanLine_outside hsection hidle,scanSwitches_switchesLine]
  have hsection' : ({ s with totalContextSwitches := some r.totals.contextSwitches } : Scan).inIdleSection = false :=
    hsection
  rw [Totals.lines,List.foldl_cons,scanLine_other hsection htasks hw htasks',List.foldl_cons,hfound,List.foldl_cons,
    scanLine_other hsection' hrun hw hrun',List.foldl_cons,scanLine_other hsection' hscheduling hw hscheduling']
  rfl

theorem scan_genStats (first : Text) :
    (first :: (r.idleBlock ++ [] :: (r.totals.lines ++ [[],sizeLine r.workloadSize]))).foldl scanLine ⟨false,[],none⟩ =
      ⟨false,idleEntries 0 r.cpus,some r.totals.contextSwitches⟩ := by
  have hw : 'w' ∈ "Total number of context switches:".toList := by decide
  have hT : 'T' ∈ "Total number of context switches:".toList := by decide
  have hsize : 'I' ∉ sizeLine r.workloadSize := notMem_sizeLine rfl (by decide) _
  have hsize' : 'T' ∉ sizeLine r.workloadSize := notMem_sizeLine rfl (by decide) _
  rw [List.foldl_cons,List.foldl_append,scan_idleBlock r (scanLine_before rfl first),List.foldl_cons,
    scanLine_blank rfl,List.foldl_append,scan_totals r rfl,List.foldl_cons,
    scanLine_other rfl List.not_mem_nil hw List.not_mem_nil,List.foldl_cons,scanLine_other rfl hsize hT hsize']
  rfl

/-- What the script finds in the file of a run. -/
def generalStats : Option GeneralStats := parseGeneralStats (loadData r.genStats)

theorem generalStats_eq : generalStats r = some
    { totalRuntime := some (hundredths r.totalTime / 10 ^ 2)
      totalWorkloadSize := none
      totalContextSwitches := some r.totals.contextSwitches
      cpuIdleData := idleEntries 0 r.cpus
      avgIdleTimeMs := aggregate (idleEntries 0 r.cpus) (fun data => mean (data.map CpuIdle.idleTimeMs))
      totalIdleTimeMs := aggregate (idleEntries 0 r.cpus) (fun data => (data.map CpuIdle.idleTimeMs).sum)
      avgIdlePercent := aggregate (idleEntries 0 r.cpus) (fun data => mean (data.map CpuIdle.idlePercent))
      numCpus := aggregate (idleEntries 0 r.cpus) List.length } := by
  have hsize : startsWith "total_workload_size:".toList "Idle stats:".toList = false := by decide
  unfold generalStats parseGeneralStats
  dsimp only
  rw [lines_genStats,scan_genStats,totalRuntime,List.headD_cons,search_runtime,PerfRun.idleBlock,List.cons_append,
    totalWorkloadSize,hsize]
  simp only [floatOfDecimal_fixedPoint (Nat.succ_pos 1)]
  rfl

end File

/-! ## What is recovered -/

theorem getD_aggregate {α : Type} (data : List (ℕ × CpuIdle)) {f : List CpuIdle → α} (zero : α) (h : f [] = zero) :
    (aggregate data f).getD zero = f (data.map Prod.snd) := by
  unfold aggregate
  split
  case isTrue hempty => simp [hempty,h]
  case isFalse => rfl

theorem idleEntries_zero (cpus : List (Option IdleTime)) : idleEntries 0 cpus = idleEntries 1 cpus.tail := by
  cases cpus with
  | nil => rfl
  | cons idle cpus => cases idle <;> rfl

theorem length_idleEntries {cpu : ℕ} (hcpu : cpu ≠ 0) (cpus : List (Option IdleTime)) :
    (idleEntries cpu cpus).length = cpus.countP Option.isSome := by
  induction cpus generalizing cpu with
  | nil => rfl
  | cons idle cpus ih =>
    have hrest := ih (Nat.succ_ne_zero cpu)
    cases idle with
    | none => simpa [idleEntries] using hrest
    | some idle => simpa [idleEntries,hcpu] using hrest

theorem keys_idleEntries {cpu : ℕ} (hcpu : cpu ≠ 0) {cpus : List (Option IdleTime)} (h : none ∉ cpus) :
    (idleEntries cpu cpus).map Prod.fst = List.range' cpu cpus.length := by
  induction cpus generalizing cpu with
  | nil => rfl
  | cons idle cpus ih =>
    have hrest := ih (Nat.succ_ne_zero cpu) (fun hnone => h (List.mem_cons_of_mem idle hnone))
    cases idle with
    | none => exact absurd List.mem_cons_self h
    | some idle => simpa [idleEntries,hcpu,List.range'_succ] using hrest

theorem idleEntries_subset (cpu : ℕ) (idle : Option IdleTime) (cpus : List (Option IdleTime)) :
    idleEntries (cpu + 1) cpus ⊆ idleEntries cpu (idle :: cpus) := by
  intro item hitem
  cases idle with
  | none => exact hitem
  | some idle =>
    rw [idleEntries]
    split
    · exact hitem
    · exact List.mem_cons_of_mem _ hitem

theorem mem_idleEntries {cpu i : ℕ} {cpus : List (Option IdleTime)} {idle : IdleTime} (hcpu : cpu + i ≠ 0)
    (h : cpus[i]? = some (some idle)) : (cpu + i,idleEntry idle) ∈ idleEntries cpu cpus := by
  induction cpus generalizing cpu i with
  | nil => cases h
  | cons first cpus ih =>
    cases i with
    | zero =>
      cases h
      rw [Nat.add_zero] at hcpu ⊢
      rw [idleEntries,if_neg hcpu]
      exact List.mem_cons_self
    | succ i =>
      have hrest : (cpu + 1 + i,idleEntry idle) ∈ idleEntries (cpu + 1) cpus := ih (by omega) h
      rw [Nat.add_right_comm] at hrest
      exact idleEntries_subset cpu first cpus hrest

/-- Every CPU other than 0 has its entry, and the numbers about all of them count each. A number
that is missing is plotted as 0. -/
structure IdleRecovered (cpus : List (Option IdleTime)) (stats : GeneralStats) : Prop where
  entries : stats.cpuIdleData.map Prod.fst = List.range' 1 (cpus.length - 1)
  times : ∀ cpu idle, cpu ≠ 0 → cpus[cpu]? = some (some idle) → (cpu,idleEntry idle) ∈ stats.cpuIdleData
  numCpus : stats.numCpus.getD 0 = cpus.length - 1
  totalIdleTimeMs : stats.totalIdleTimeMs.getD 0 = (stats.cpuIdleData.map (fun item => item.2.idleTimeMs)).sum

structure Recovered (r : PerfRun) (stats : GeneralStats) : Prop where
  totalRuntime : stats.totalRuntime = some ((hundredths r.totalTime : ℚ) / 10 ^ 2)
  totalWorkloadSize : stats.totalWorkloadSize = some (r.workloadSize : ℤ)
  totalContextSwitches : stats.totalContextSwitches = some r.totals.contextSwitches
  idle : IdleRecovered r.cpus stats

theorem idleRecovered_iff {r : PerfRun} {stats : GeneralStats} (h : generalStats r = some stats) :
    IdleRecovered r.cpus stats ↔ none ∉ r.cpus.tail := by
  rw [generalStats_eq] at h
  cases h
  have hlength : (idleEntries 0 r.cpus).length = r.cpus.tail.countP Option.isSome := by
    rw [idleEntries_zero]
    exact length_idleEntries one_ne_zero _
  constructor
  · intro hrecovered hnone
    have hkeys := congrArg List.length hrecovered.entries
    rw [List.length_map,hlength,List.length_range',← List.length_tail,List.countP_eq_length] at hkeys
    cases hkeys none hnone
  · intro htimes
    have hentries : (idleEntries 0 r.cpus).map Prod.fst = List.range' 1 (r.cpus.length - 1) := by
      rw [idleEntries_zero,← List.length_tail]
      exact keys_idleEntries one_ne_zero htimes
    have hkeys := congrArg List.length hentries
    rw [List.length_map,List.length_range'] at hkeys
    have hnum : (aggregate (idleEntries 0 r.cpus) List.length).getD 0 = (idleEntries 0 r.cpus).length := by
      rw [getD_aggregate _ 0 rfl,List.length_map]
    have htotal : (aggregate (idleEntries 0 r.cpus) (fun data => (data.map CpuIdle.idleTimeMs).sum)).getD 0 =
        ((idleEntries 0 r.cpus).map (fun item => item.2.idleTimeMs)).sum := by
      rw [getD_aggregate _ 0 rfl,List.map_map]
      rfl
    have htime : ∀ cpu idle, cpu ≠ 0 → r.cpus[cpu]? = some (some idle) →
        (cpu,idleEntry idle) ∈ idleEntries 0 r.cpus := by
      intro cpu idle hcpu hidle
      have hmem := mem_idleEntries (Nat.zero_add cpu ▸ hcpu) hidle
      rwa [Nat.zero_add] at hmem
    exact ⟨hentries,htime,hnum.trans hkeys,htotal⟩

/-- The size is looked for where it is not written. All else is found, as far as the CPUs other
than 0 have times. -/
theorem recovered_except_size (r : PerfRun) : ∃ stats, generalStats r = some stats ∧ ¬ Recovered r stats ∧
    stats.totalWorkloadSize = none ∧ stats.totalRuntime = some ((hundredths r.totalTime : ℚ) / 10 ^ 2) ∧
    stats.totalContextSwitches = some r.totals.contextSwitches ∧
    (IdleRecovered r.cpus stats ↔ none ∉ r.cpus.tail) := by
  have hstats := generalStats_eq r
  refine ⟨_,hstats,?_,rfl,rfl,rfl,idleRecovered_iff hstats⟩
  intro hrecovered
  cases hrecovered.totalWorkloadSize

/-- Neither the size nor the last CPU is found. -/
theorem cfsRun_not_recovered : ∃ stats, generalStats cfsRun = some stats ∧ ¬ Recovered cfsRun stats ∧
    stats.totalWorkloadSize = none ∧ stats.cpuIdleData.map Prod.fst = [1] ∧ stats.numCpus = some 1 := by
  refine ⟨_,generalStats_eq cfsRun,?_,rfl,rfl,rfl⟩
  intro hrecovered
  cases hrecovered.totalWorkloadSize

end ServerlessSched.Analyze
