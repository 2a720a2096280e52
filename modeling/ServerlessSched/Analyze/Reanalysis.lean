import ServerlessSched.Analyze.Misattribution
import ServerlessSched.Analyze.ParseFromWorkloadEvents

/-! # Does the second pass agree with the first?

The file of events is read back as it was written unless a task has a name that looks like a
header, and the times come out the same. They are never written.
-/
namespace ServerlessSched.Analyze
open PythonText

/-! ## What the first pass records -/

/-- The event is found again in its own line. -/
structure Reread (e : TraceEvent) : Prop where
  stripped : strip e.rawLine = e.rawLine
  parsed : parseEventFromLine e.rawLine = some e
  inline : Inline e.rawLine

theorem rawLine_of_parsed {line : Text} {e : TraceEvent} (h : parseEventFromLine line = some e) :
    e.rawLine = rstrip line := by
  unfold parseEventFromLine at h
  split at h
  case h_1 => cases h; rfl
  case h_2 => cases h

theorem reread_of_line {file l : Text} {e : TraceEvent} (hl : l ∈ lines file)
    (h : parseEventFromLine (strip l) = some e) : Reread e := by
  have hraw : e.rawLine = strip l := (rawLine_of_parsed h).trans (rstrip_strip l)
  refine ⟨?_,?_,?_⟩
  · rw [hraw,strip_strip]
  · rw [hraw,h]
  · rw [hraw]
    exact (inline_of_mem_lines hl).of_subset (strip_subset l)

/-- Every PID has events, and they can be read again. -/
structure Recorded (dict : EventDict ℕ) : Prop where
  keys_nodup : dict.keys.Nodup
  nonempty : ∀ entry ∈ dict, entry.2 ≠ []
  reread : ∀ entry ∈ dict, ∀ e ∈ entry.2, Reread e

theorem Recorded.append {dict : EventDict ℕ} (h : Recorded dict) (key : ℕ) {event : TraceEvent}
    (hevent : Reread event) : Recorded (dict.append key event) := by
  refine ⟨EventDict.keys_append_nodup h.keys_nodup,?_,?_⟩
  · intro entry hentry
    rcases EventDict.mem_append hentry with hentry | ⟨events,hevents,-⟩
    · exact h.nonempty entry hentry
    · simp [hevents]
  · intro entry hentry e he
    rcases EventDict.mem_append hentry with hentry | ⟨events,hevents,hold⟩
    · exact h.reread entry hentry e he
    · rw [hevents,List.mem_append,List.mem_singleton] at he
      rcases he with he | rfl
      · rcases hold with rfl | hold
        · cases he
        · exact h.reread _ hold e he
      · exact hevent

namespace ParseTrace

theorem scanPids_recorded {line : Text} (hline : ∀ e, parseEventFromLine line = some e → Reread e)
    {ps gone : List Text} {dict dict' : EventDict ℕ} (hdict : Recorded dict)
    (h : scanPids line ps dict = some (dict',gone)) :
    Recorded dict' := by
  induction ps generalizing dict with
  | nil =>
    cases h
    exact hdict
  | cons p ps ih =>
    rw [scanPids] at h
    split at h
    case isFalse => exact ih hdict h
    case isTrue =>
      split at h
      case h_1 => cases h
      case h_2 event hevent =>
        have hnext := hdict.append (intOfDigits p) (hline event hevent)
        split at h
        case isTrue => exact ih hdict h
        case isFalse =>
          split at h
          case isTrue =>
            cases h
            exact hnext
          case isFalse => exact ih hnext h

theorem scanLines_recorded {order : ℕ → List Text → List Text} {rest : List Text}
    (hrest : ∀ l ∈ rest, ∀ e, parseEventFromLine (strip l) = some e → Reread e) {i : ℕ} {ps : List Text}
    {dict dict' : EventDict ℕ} (hdict : Recorded dict) (h : scanLines order i rest ps dict = some dict') :
    Recorded dict' := by
  induction rest generalizing i ps dict with
  | nil =>
    cases h
    exact hdict
  | cons l rest ih =>
    rw [scanLines] at h
    split at h
    case h_1 => cases h
    case h_2 next gone hscan =>
      have hnext := scanPids_recorded (hrest l List.mem_cons_self) hdict hscan
      exact ih (fun k hk => hrest k (List.mem_cons_of_mem l hk)) hnext h

theorem recorded_of_parseFtrace {order : ℕ → List Text → List Text} {file : Text} {pids : List ℕ}
    {dict : EventDict ℕ} (h : parseFtrace order file pids = some dict) : Recorded dict := by
  have hnone : Recorded [] := ⟨List.nodup_nil,by simp,by simp⟩
  apply scanLines_recorded _ hnone h
  intro l hl e he
  exact reread_of_line (List.mem_of_mem_drop hl) he

end ParseTrace

/-! ## Reading it back -/

section Reading
open ParseTrace ParseFromWorkloadEvents

/-- The script takes the line of the event for that of a PID. -/
def header (e : TraceEvent) : Bool := startsWith "PID".toList e.rawLine

/-- The same dictionary, as the second script has it. -/
def withIntKeys (dict : EventDict ℕ) : EventDict ℤ := dict.map (fun entry => ((entry.1 : ℤ),entry.2))

theorem strip_pid (pid : ℕ) : strip ("PID: ".toList ++ str pid) = "PID: ".toList ++ str pid :=
  IsWord.strip_append (w := "PID:".toList) ⟨by decide,by simp [isSpace]⟩ (isWord_str pid) [' ']

theorem headerPid_pid (pid : ℕ) : headerPid ("PID: ".toList ++ str pid) = some (pid : ℤ) := by
  have hcolon : ':' ∉ ' ' :: str pid := by
    intro h
    rcases List.mem_cons.mp h with h | h
    · cases h
    · cases str_isDigit pid ':' h
  have hsplit : ("PID: ".toList ++ str pid).splitOn ':' = ["PID".toList,' ' :: str pid] := by
    have hfront : ':' ∉ "PID".toList := by decide
    have hcut := List.splitOn_append_cons_self_of_not_mem hfront (' ' :: str pid)
    rw [List.splitOn_eq_singleton hcolon] at hcut
    exact hcut
  rw [headerPid,hsplit]
  exact int_str pid

theorem scanLines_pid (pid : ℕ) (rest : List Text) (p : Option ℤ) (dict : EventDict ℤ) :
    ParseFromWorkloadEvents.scanLines (("PID: ".toList ++ str pid) :: rest) p dict =
      ParseFromWorkloadEvents.scanLines rest (some (pid : ℤ)) dict := by
  have hstart : startsWith "PID".toList ("PID: ".toList ++ str pid) = true := rfl
  have hline : scanLine ("PID: ".toList ++ str pid) p dict = some (some (pid : ℤ),dict) := by
    unfold scanLine
    rw [if_pos hstart,headerPid_pid,Option.map_some]
  rw [ParseFromWorkloadEvents.scanLines,strip_pid,hline]

variable {pid : ℤ} {dict : EventDict ℤ} {rest : List Text}

theorem scanLines_event {e : TraceEvent} (he : Reread e) (hheader : header e = false) :
    ParseFromWorkloadEvents.scanLines (('\t' :: e.rawLine) :: rest) (some pid) dict =
      ParseFromWorkloadEvents.scanLines rest (some pid) (dict.append pid e) := by
  have hstrip : strip ('\t' :: e.rawLine) = e.rawLine := (strip_cons rfl _).trans he.stripped
  have hstart : ¬startsWith "PID".toList e.rawLine = true := by
    rw [← header,hheader]
    decide
  rw [ParseFromWorkloadEvents.scanLines,hstrip,scanLine,if_neg hstart,he.parsed,Option.map_some]

theorem scanLines_events {events : List TraceEvent} (hevents : ∀ e ∈ events, Reread e)
    (hheader : ∀ e ∈ events, header e = false) :
    ParseFromWorkloadEvents.scanLines (events.map (fun event => '\t' :: event.rawLine) ++ rest) (some pid)
        dict =
      ParseFromWorkloadEvents.scanLines rest (some pid)
        (events.foldl (fun dict e => dict.append pid e) dict) := by
  induction events generalizing dict with
  | nil => rfl
  | cons e events ih =>
    obtain ⟨he,hevents⟩ := List.forall_mem_cons.mp hevents
    obtain ⟨hfirst,hheader⟩ := List.forall_mem_cons.mp hheader
    rw [List.map_cons,List.cons_append,scanLines_event he hfirst]
    exact ih hevents hheader

/-- The events of a new PID make its entry. -/
theorem foldl_append {events : List TraceEvent} (hpid : pid ∉ dict.keys) (hne : events ≠ []) :
    events.foldl (fun dict e => dict.append pid e) dict = dict ++ [(pid,events)] := by
  induction events using List.reverseRecOn with
  | nil => exact absurd rfl hne
  | append_singleton events e ih =>
    rw [List.foldl_append]
    by_cases hevents : events = []
    · subst hevents
      exact EventDict.append_of_notMem hpid
    · rw [ih hevents]
      exact EventDict.append_last hpid

theorem scanLines_eventLines {entries : EventDict ℕ} (hentries : Recorded entries)
    (hheader : ∀ entry ∈ entries, ∀ e ∈ entry.2, header e = false)
    (hnew : ∀ k ∈ entries.keys, (k : ℤ) ∉ dict.keys) (p : Option ℤ) :
    ParseFromWorkloadEvents.scanLines (entries.flatMap eventLines) p dict =
      some (dict ++ withIntKeys entries) := by
  induction entries generalizing p dict with
  | nil => exact congrArg some (List.append_nil dict).symm
  | cons entry entries ih =>
    obtain ⟨k,events⟩ := entry
    obtain ⟨hnodup,hnonempty,hreread⟩ := hentries
    obtain ⟨hk,hkeys⟩ := List.nodup_cons.mp hnodup
    obtain ⟨hne,hnonempty⟩ := List.forall_mem_cons.mp hnonempty
    obtain ⟨hevents,hreread⟩ := List.forall_mem_cons.mp hreread
    obtain ⟨hfirst,hheader⟩ := List.forall_mem_cons.mp hheader
    rw [List.flatMap_cons,eventLines,List.cons_append,scanLines_pid,scanLines_events hevents hfirst,
      foldl_append (hnew k List.mem_cons_self) hne,ih ⟨hkeys,hnonempty,hreread⟩ hheader]
    · rw [List.append_assoc]
      rfl
    · intro k' hk' hf
      rw [EventDict.keys,List.map_append,List.mem_append] at hf
      rcases hf with hf | hf
      · exact hnew k' (List.mem_cons_of_mem k hk') hf
      · exact hk (Int.natCast_inj.mp (List.mem_singleton.mp hf) ▸ hk')

/-- A line that is not a header adds an event. -/
theorem size_of_scanLine {line : Text} {p p' : Option ℤ} {dict' : EventDict ℤ}
    (h : scanLine line p dict = some (p',dict')) :
    dict'.size = dict.size + if startsWith "PID".toList line = true then 0 else 1 := by
  unfold scanLine at h
  split at h
  case isTrue hstart =>
    obtain ⟨pid,-,hpair⟩ := Option.map_eq_some_iff.mp h
    cases hpair
    rw [if_pos hstart,Nat.add_zero]
  case isFalse hstart =>
    split at h
    case h_1 => cases h
    case h_2 key =>
      obtain ⟨event,-,hpair⟩ := Option.map_eq_some_iff.mp h
      cases hpair
      rw [if_neg hstart,EventDict.size_append]

theorem size_of_scanLines {p : Option ℤ} {dict' : EventDict ℤ}
    (h : ParseFromWorkloadEvents.scanLines rest p dict = some dict') :
    dict'.size = dict.size + rest.countP (fun l => !startsWith "PID".toList (strip l)) := by
  induction rest generalizing p dict with
  | nil =>
    cases h
    rfl
  | cons l rest ih =>
    rw [ParseFromWorkloadEvents.scanLines] at h
    split at h
    case h_1 => cases h
    case h_2 p' next hscan =>
      rw [ih h,size_of_scanLine hscan,List.countP_cons]
      cases startsWith "PID".toList (strip l) with
      | false => simp only [Bool.false_eq_true,if_false,Bool.not_false,if_true]; omega
      | true => simp

theorem countP_eventLines {entries : EventDict ℕ} (hentries : ∀ entry ∈ entries, ∀ e ∈ entry.2, Reread e) :
    (entries.flatMap eventLines).countP (fun l => !startsWith "PID".toList (strip l)) =
      (entries.flatMap Prod.snd).countP (fun e => !header e) := by
  induction entries with
  | nil => rfl
  | cons entry entries ih =>
    have hfirst : (eventLines entry).countP (fun l => !startsWith "PID".toList (strip l)) =
        entry.2.countP (fun e => !header e) := by
      have hpid : startsWith "PID".toList ("PID: ".toList ++ str entry.1) = true := rfl
      rw [eventLines,List.countP_cons_of_neg (by rw [strip_pid,hpid]; decide),List.countP_map]
      apply List.countP_congr
      intro e he
      have hstrip : strip ('\t' :: e.rawLine) = e.rawLine :=
        (strip_cons rfl _).trans (hentries entry List.mem_cons_self e he).stripped
      simp [hstrip,header]
    rw [List.flatMap_cons,List.flatMap_cons,List.countP_append,List.countP_append,hfirst,
      ih (fun e he => hentries e (List.mem_cons_of_mem entry he))]

theorem lines_workloadEventsOut {entries : EventDict ℕ} (hentries : ∀ entry ∈ entries, ∀ e ∈ entry.2, Reread e) :
    lines (workloadEventsOut entries) = entries.flatMap eventLines := by
  apply lines_written
  intro l hl
  obtain ⟨entry,hentry,hl⟩ := List.mem_flatMap.mp hl
  rcases List.mem_cons.mp hl with rfl | hl
  · have hpid : Inline "PID: ".toList := by simp [Inline]
    exact hpid.append (isWord_str entry.1).inline
  · obtain ⟨e,he,rfl⟩ := List.mem_map.mp hl
    exact (hentries entry hentry e he).inline.cons (by decide)

/-- What the first pass wrote is read back, unless a line looks like a header. -/
theorem reread_iff {entries : EventDict ℕ} (hentries : Recorded entries) :
    ParseFromWorkloadEvents.parseFtrace (workloadEventsOut entries) = some (withIntKeys entries) ↔
      ∀ entry ∈ entries, ∀ e ∈ entry.2, header e = false := by
  rw [ParseFromWorkloadEvents.parseFtrace,lines_workloadEventsOut hentries.reread]
  constructor
  · -- Every line taken for a header is an event that is missing at the end.
    intro h
    have hsize := size_of_scanLines h
    rw [countP_eventLines hentries.reread] at hsize
    have hall : (entries.flatMap Prod.snd).countP (fun e => !header e) = (entries.flatMap Prod.snd).length := by
      have hsame : (withIntKeys entries).size = (entries.flatMap Prod.snd).length := by
        simp [EventDict.size,withIntKeys,List.flatMap_map]
      have hnil : EventDict.size ([] : EventDict ℤ) = 0 := rfl
      omega
    intro entry hentry e he
    have hnot := List.countP_eq_length.mp hall e (List.mem_flatMap.mpr ⟨entry,hentry,he⟩)
    simpa using hnot
  · intro h
    rw [scanLines_eventLines hentries h (fun _ _ => List.not_mem_nil)]
    rfl

end Reading

/-! ## The times -/

/-- The walk without the count of migrations, which the second script does not make. -/
def ParseTrace.Walk.erase (w : ParseTrace.Walk) : ParseFromWorkloadEvents.Walk :=
  ⟨w.startTime,w.firstScheduledTime,w.exitTime⟩

def WorkloadTimes.erase (t : WorkloadTimes) : ParseFromWorkloadEvents.WorkloadTimes :=
  ⟨t.startTime,t.startupLatency,t.exitTime⟩

theorem scanEvents_erase (pid : ℕ) (events : List TraceEvent) (w : ParseTrace.Walk) :
    ParseFromWorkloadEvents.scanEvents pid events w.erase = (ParseTrace.scanEvents pid events w).erase := by
  have hstr : strInt (pid : ℤ) = str pid := rfl
  induction events generalizing w with
  | nil => rfl
  | cons event events ih =>
    rw [ParseFromWorkloadEvents.scanEvents,ParseTrace.scanEvents,hstr]
    have hwalk : w.erase.startTime = w.startTime ∧ w.erase.firstScheduledTime = w.firstScheduledTime :=
      ⟨rfl,rfl⟩
    simp only [hwalk]
    split_ifs
    · exact ih { w with startTime := some event.timestamp }
    · exact ih { w with firstScheduledTime := some event.timestamp }
    · rfl
    · exact ih { w with migrations := w.migrations + 1 }
    · exact ih w

theorem times_erase {w : ParseTrace.Walk} {t : WorkloadTimes} (h : w.times = some t) :
    w.erase.times = some t.erase := by
  obtain ⟨startTime,firstScheduledTime,exitTime,migrations⟩ := w
  cases startTime with
  | none => cases h
  | some startTime =>
    cases firstScheduledTime with
    | none => cases h
    | some firstScheduledTime =>
      cases exitTime with
      | none => cases h
      | some exitTime =>
        simp only [ParseTrace.Walk.times] at h
        simp only [ParseTrace.Walk.erase,ParseFromWorkloadEvents.Walk.times]
        split at h
        case isTrue => cases h
        case isFalse hvalid =>
          cases h
          rw [if_neg hvalid]
          rfl

theorem getWorkloadTimes_erase {pidsWargs : List (ℕ × ℕ)} {entries : EventDict ℕ}
    {rows : List ((ℕ × ℕ) × WorkloadTimes)} (h : ParseTrace.getWorkloadTimes pidsWargs entries = some rows) :
    ParseFromWorkloadEvents.getWorkloadTimes (withIntKeys entries) =
      some (rows.map (fun row => ((row.1.2 : ℤ),row.2.erase))) := by
  induction entries generalizing rows with
  | nil =>
    cases h
    rfl
  | cons entry entries ih =>
    obtain ⟨pid,events⟩ := entry
    obtain ⟨row,tail,hrow,htail,rfl⟩ := ParseTrace.getWorkloadTimes_cons.mp h
    obtain ⟨hpid,htimes⟩ := ParseTrace.times_of_workloadTimes hrow
    have hcons : withIntKeys ((pid,events) :: entries) = ((pid : ℤ),events) :: withIntKeys entries := rfl
    have hstart : (⟨none,none,none⟩ : ParseFromWorkloadEvents.Walk) = ParseTrace.Walk.start.erase := rfl
    rw [hcons,ParseFromWorkloadEvents.getWorkloadTimes,hstart,scanEvents_erase,times_erase htimes,ih htail,
      List.map_cons,hpid]
    rfl

/-! ## The rows -/

namespace ParseFromWorkloadEvents

/-- A PID is no pair. -/
theorem workloadTimesOut_eq_none {workloadTimes : List (ℤ × WorkloadTimes)} (h : workloadTimes ≠ []) :
    workloadTimesOut workloadTimes = none := by
  obtain ⟨entry,rest,rfl⟩ := List.exists_cons_of_ne_nil h
  rfl

theorem getWorkloadTimes_ne_nil {entries : EventDict ℤ} {workloadTimes : List (ℤ × WorkloadTimes)}
    (hentries : entries ≠ []) (h : getWorkloadTimes entries = some workloadTimes) : workloadTimes ≠ [] := by
  obtain ⟨⟨pid,events⟩,rest,rfl⟩ := List.exists_cons_of_ne_nil hentries
  rw [getWorkloadTimes] at h
  split at h
  case h_1 => cases h
  case h_2 times htimes =>
    obtain ⟨rows,-,rfl⟩ := Option.map_eq_some_iff.mp h
    exact List.cons_ne_nil _ rows

/-- Whatever the file, the script writes no CSV file. -/
theorem main_eq_none (file : Text) : main file = none := by
  rw [main]
  split
  case h_1 => rfl
  case h_2 entries hentries =>
    cases hempty : entries.isEmpty with
    | true => rfl
    | false =>
      rw [if_neg (by decide)]
      cases htimes : getWorkloadTimes entries with
      | none => rfl
      | some workloadTimes =>
        exact workloadTimesOut_eq_none (getWorkloadTimes_ne_nil (by simpa using hempty) htimes)

end ParseFromWorkloadEvents

theorem timesRows_pair (workloadTimes : List ((ℕ × ℕ) × WorkloadTimes)) :
    ParseTrace.workloadTimesOut workloadTimes =
      some (workloadTimes.map (fun entry => ⟨entry.1.2,entry.1.1,entry.2⟩)) := by
  induction workloadTimes with
  | nil => rfl
  | cons entry workloadTimes ih =>
    unfold ParseTrace.workloadTimesOut at ih ⊢
    rw [List.map_cons,timesRows,ih]
    rfl

/-- What a trace that the first script takes goes through. -/
theorem ParseTrace.main_eq_some {order : ℕ → List Text → List Text} {file workloadEvents : Text}
    {pidsWargs : List (ℕ × ℕ)} {rows : List (Row WorkloadTimes)}
    (h : ParseTrace.main order file pidsWargs = some (workloadEvents,rows)) :
    ∃ entries workloadTimes, parseFtrace order file (pidsWargs.map Prod.snd).dedup = some entries ∧
      getWorkloadTimes pidsWargs entries = some workloadTimes ∧ workloadEvents = workloadEventsOut entries ∧
      rows = workloadTimes.map (fun entry => ⟨entry.1.2,entry.1.1,entry.2⟩) := by
  rw [ParseTrace.main] at h
  split at h
  case h_1 => cases h
  case h_2 entries hentries =>
    split at h
    case isTrue => cases h
    case isFalse =>
      split at h
      case h_1 => cases h
      case h_2 workloadTimes htimes =>
        rw [timesRows_pair,Option.map_some] at h
        cases h
        exact ⟨entries,workloadTimes,hentries,htimes,rfl,rfl⟩

/-- Without lines that look like headers, the second script has the times of the first before
it writes them. -/
theorem times_agree {order : ℕ → List Text → List Text} {file workloadEvents : Text} {pidsWargs : List (ℕ × ℕ)}
    {rows : List (Row WorkloadTimes)} (h : ParseTrace.main order file pidsWargs = some (workloadEvents,rows)) :
    ∃ entries, ParseTrace.parseFtrace order file (pidsWargs.map Prod.snd).dedup = some entries ∧
      ((∀ entry ∈ entries, ∀ e ∈ entry.2, header e = false) →
        (ParseFromWorkloadEvents.parseFtrace workloadEvents).bind ParseFromWorkloadEvents.getWorkloadTimes =
          some (rows.map (fun row => ((row.pid : ℤ),row.times.erase)))) := by
  obtain ⟨entries,workloadTimes,hentries,htimes,rfl,rfl⟩ := ParseTrace.main_eq_some h
  refine ⟨entries,hentries,fun hheader => ?_⟩
  rw [(reread_iff (ParseTrace.recorded_of_parseFtrace hentries)).mpr hheader,Option.bind_some,
    getWorkloadTimes_erase htimes,List.map_map]
  rfl

/-- The second script writes the rows of the first, but for the argument and the migrations. -/
def Reanalysed (workloadEvents : Text) (rows : List (Row WorkloadTimes)) : Prop :=
  ∃ rows', ParseFromWorkloadEvents.main workloadEvents = some rows' ∧
    (rows'.map (fun row => (row.pid,row.times))).Perm (rows.map (fun row => (row.pid,row.times.erase)))

/-- No trace that the first script takes is analysed again by the second, though it comes as far
as the times where no line looks like a header. -/
theorem never_reanalysed {order : ℕ → List Text → List Text} {file workloadEvents : Text}
    {pidsWargs : List (ℕ × ℕ)} {rows : List (Row WorkloadTimes)}
    (h : ParseTrace.main order file pidsWargs = some (workloadEvents,rows)) :
    ¬Reanalysed workloadEvents rows ∧
      ∃ entries, ParseTrace.parseFtrace order file (pidsWargs.map Prod.snd).dedup = some entries ∧
        ((∀ entry ∈ entries, ∀ e ∈ entry.2, header e = false) →
          (ParseFromWorkloadEvents.parseFtrace workloadEvents).bind ParseFromWorkloadEvents.getWorkloadTimes =
            some (rows.map (fun row => ((row.pid : ℤ),row.times.erase)))) := by
  refine ⟨?_,times_agree h⟩
  rintro ⟨rows',hrows',-⟩
  cases (ParseFromWorkloadEvents.main_eq_none workloadEvents).symm.trans hrows'

/-- The events of one job, as they are written. -/
def oneProcessEvents : Text := ParseTrace.workloadEventsOut [(12,oneProcess.map Line.event)]

theorem main_oneProcess : ParseTrace.main (fun _ s => s) (traceFile oneProcess) [(30,12)] =
    some (oneProcessEvents,[⟨12,30,⟨1,2,6,-1⟩⟩]) := by
  decide +kernel

theorem never_reanalysed_one : ¬Reanalysed oneProcessEvents [⟨12,30,⟨1,2,6,-1⟩⟩] :=
  (never_reanalysed main_oneProcess).1

/-- The second script has the times of the job when it gives up. -/
theorem reanalysis_raises :
    ParseTrace.main (fun _ s => s) (traceFile oneProcess) [(30,12)] =
      some (oneProcessEvents,[⟨12,30,⟨1,2,6,-1⟩⟩]) ∧
    (ParseFromWorkloadEvents.parseFtrace oneProcessEvents).bind ParseFromWorkloadEvents.getWorkloadTimes =
      some [(12,⟨1,2,6⟩)] ∧
    ParseFromWorkloadEvents.workloadTimesOut [(12,⟨1,2,6⟩)] = none ∧
    ParseFromWorkloadEvents.main oneProcessEvents = none ∧
    ¬Reanalysed oneProcessEvents [⟨12,30,⟨1,2,6,-1⟩⟩] := by
  have hmain : ParseFromWorkloadEvents.main oneProcessEvents = none := by decide +kernel
  refine ⟨main_oneProcess,by decide +kernel,rfl,hmain,?_⟩
  rintro ⟨rows',hrows',-⟩
  cases hmain.symm.trans hrows'

end ServerlessSched.Analyze
