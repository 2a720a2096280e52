import ServerlessSched.Analyze.Trace
import Mathlib.Data.Finset.Basic
import Mathlib.Data.List.Perm.Basic

/-! # The first pass over a trace

Events are collected for each PID of the workload by looking for its digits, then the times of
the PID are looked for in its events. A script that gives up is `none`.
-/
namespace ServerlessSched.Analyze
open PythonText

/-- A `defaultdict(list)` of events, in the order in which its keys came. -/
abbrev EventDict (K : Type) := List (K × List TraceEvent)

namespace EventDict
variable {K : Type} [DecidableEq K]

def append (key : K) (event : TraceEvent) : EventDict K → EventDict K
  | [] => [(key,[event])]
  | (k,events) :: rest =>
    if k = key then (k,events ++ [event]) :: rest else (k,events) :: append key event rest

def keys (dict : EventDict K) : List K := dict.map Prod.fst

/-- The events of a key, none if it has not come. -/
def get (dict : EventDict K) (key : K) : List TraceEvent :=
  match dict with
  | [] => []
  | (k,events) :: rest => if k = key then events else get rest key

variable {key k : K} {event : TraceEvent} {dict : EventDict K}

theorem get_append :
    (dict.append key event).get k = if k = key then dict.get key ++ [event] else dict.get k := by
  induction dict with
  | nil =>
    by_cases h : k = key
    · subst h
      simp [append,get]
    · simp [append,get,h,Ne.symm h]
  | cons entry rest ih =>
    obtain ⟨k',events⟩ := entry
    by_cases hk : k' = key
    · subst hk
      by_cases h : k = k'
      · subst h
        simp [append,get]
      · simp [append,get,h,Ne.symm h]
    · by_cases h : k = key
      · subst h
        rw [if_pos rfl] at ih
        simp [append,get,hk,ih]
      · rw [if_neg h] at ih
        simp [append,get,hk,ih,h]

theorem keys_append :
    (dict.append key event).keys = if key ∈ dict.keys then dict.keys else dict.keys ++ [key] := by
  induction dict with
  | nil => simp [append,keys]
  | cons entry rest ih =>
    obtain ⟨k',events⟩ := entry
    unfold keys at ih ⊢
    by_cases hk : k' = key
    · simp [append,hk]
    · by_cases h : key ∈ rest.map Prod.fst
      · simp [append,hk,ih,h]
      · simp [append,hk,ih,h,Ne.symm hk]

theorem keys_append_nodup (h : dict.keys.Nodup) : (dict.append key event).keys.Nodup := by
  rw [keys_append]
  split
  case isTrue => exact h
  case isFalse hkey =>
    apply List.nodup_append.mpr ⟨h,List.nodup_singleton key,_⟩
    intro k hk k' hk' hf
    rw [hf,List.mem_singleton.mp hk'] at hk
    exact hkey hk

/-- An entry is an old one, or ends with the event that was added. -/
theorem mem_append {entry : K × List TraceEvent} (h : entry ∈ dict.append key event) :
    entry ∈ dict ∨ ∃ events, entry.2 = events ++ [event] ∧ (events = [] ∨ (key,events) ∈ dict) := by
  induction dict with
  | nil =>
    rw [append,List.mem_singleton] at h
    exact Or.inr ⟨[],by rw [h]; rfl,Or.inl rfl⟩
  | cons old rest ih =>
    obtain ⟨k,events⟩ := old
    rw [append] at h
    split at h
    case isTrue hk =>
      subst hk
      rcases List.mem_cons.mp h with rfl | h
      · exact Or.inr ⟨events,rfl,Or.inr List.mem_cons_self⟩
      · exact Or.inl (List.mem_cons_of_mem _ h)
    case isFalse =>
      rcases List.mem_cons.mp h with rfl | h
      · exact Or.inl List.mem_cons_self
      · rcases ih h with h | ⟨events',hevents,hold⟩
        · exact Or.inl (List.mem_cons_of_mem _ h)
        · exact Or.inr ⟨events',hevents,hold.imp_right (List.mem_cons_of_mem _)⟩

theorem append_of_notMem (h : key ∉ dict.keys) : dict.append key event = dict ++ [(key,[event])] := by
  induction dict with
  | nil => rfl
  | cons entry rest ih =>
    obtain ⟨hne,hrest⟩ := List.ne_and_not_mem_of_not_mem_cons h
    rw [append,if_neg (Ne.symm hne),ih hrest,List.cons_append]

theorem append_last {events : List TraceEvent} (h : key ∉ dict.keys) :
    append key event (dict ++ [(key,events)]) = dict ++ [(key,events ++ [event])] := by
  induction dict with
  | nil => rw [List.nil_append,append,if_pos rfl,List.nil_append]
  | cons entry rest ih =>
    obtain ⟨hne,hrest⟩ := List.ne_and_not_mem_of_not_mem_cons h
    rw [List.cons_append,append,if_neg (Ne.symm hne),ih hrest,List.cons_append]

def size (dict : EventDict K) : ℕ := (dict.flatMap Prod.snd).length

theorem size_append : (dict.append key event).size = dict.size + 1 := by
  induction dict with
  | nil => rfl
  | cons entry rest ih =>
    unfold size at ih ⊢
    rw [append]
    split
    · simp only [List.flatMap_cons,List.length_append,List.length_singleton]
      omega
    · simp only [List.flatMap_cons,List.length_append,ih]
      omega

theorem get_of_notMem (h : key ∉ dict.keys) : dict.get key = [] := by
  induction dict with
  | nil => rfl
  | cons entry rest ih =>
    obtain ⟨hne,hrest⟩ := List.ne_and_not_mem_of_not_mem_cons h
    rw [get,if_neg (Ne.symm hne)]
    exact ih hrest

theorem get_of_mem (hkeys : dict.keys.Nodup) {events : List TraceEvent} (h : (key,events) ∈ dict) :
    dict.get key = events := by
  induction dict with
  | nil => cases h
  | cons entry rest ih =>
    obtain ⟨hentry,hrest⟩ := List.nodup_cons.mp hkeys
    rcases List.mem_cons.mp h with rfl | h
    · rw [get,if_pos rfl]
    · have hne : entry.1 ≠ key := fun hf => hentry (hf ▸ List.mem_map_of_mem h)
      rw [get,if_neg hne]
      exact ih hrest h

end EventDict

/-- A key of a dictionary of times. -/
inductive Key
  | number (n : ℤ)
  | pair (arg pid : ℕ)

/-- `(arg, pid) = key` raises for a number. -/
def Key.unpack : Key → Option (ℕ × ℕ)
  | number _ => none
  | pair arg pid => some (arg,pid)

/-- A row of the CSV file. -/
structure Row (T : Type) where
  pid : ℕ
  arg : ℕ
  times : T
deriving DecidableEq

/-- The loop over a dictionary of times, in both scripts. -/
def timesRows {T : Type} : List (Key × T) → Option (List (Row T))
  | [] => some []
  | (key,times) :: rest =>
    match key.unpack with
    | none => none
    | some (arg,pid) => (timesRows rest).map (fun rows => ⟨pid,arg,times⟩ :: rows)

structure WorkloadTimes where
  startTime : ℚ
  startupLatency : ℚ
  exitTime : ℚ
  migrations : ℤ
deriving DecidableEq

namespace ParseTrace

def ends (pidStr : Text) (event : TraceEvent) : Bool :=
  event.eventType = Tracepoint.schedProcessExit.name && contains ("pid=".toList ++ pidStr ++ [' ']) event.details

/-- The loop over the PIDs for one line, which is left at an exit; and the PIDs to remove. -/
def scanPids (line : Text) : List Text → EventDict ℕ → Option (EventDict ℕ × List Text)
  | [], dict => some (dict,[])
  | pidStr :: rest, dict =>
    if contains pidStr line then
      match parseEventFromLine line with
      | none => none
      | some event =>
        if !contains pidStr (str event.pid) && !contains pidStr event.details then scanPids line rest dict
        else if ends pidStr event then some (dict.append (intOfDigits pidStr) event,[pidStr])
        else scanPids line rest (dict.append (intOfDigits pidStr) event)
    else scanPids line rest dict

/-- The loop over the lines. The set `pidsStr` is iterated over as `order` has it for the line. -/
def scanLines (order : ℕ → List Text → List Text) : ℕ → List Text → List Text → EventDict ℕ →
    Option (EventDict ℕ)
  | _, [], _, dict => some dict
  | i, rawLine :: rest, pidsStr, dict =>
    match scanPids (strip rawLine) (order i pidsStr) dict with
    | none => none
    | some (dict,pidsToRemove) =>
      scanLines order (i + 1) rest (pidsStr.filter (fun pidStr => pidStr ∉ pidsToRemove)) dict

def parseFtrace (order : ℕ → List Text → List Text) (file : Text) (pids : List ℕ) : Option (EventDict ℕ) :=
  scanLines order 0 ((lines file).drop 1) (pids.map str) []

/-- What is known of a PID while its events are gone through. -/
structure Walk where
  startTime : Option ℚ
  firstScheduledTime : Option ℚ
  exitTime : Option ℚ
  migrations : ℤ
deriving DecidableEq

def Walk.start : Walk := ⟨none,none,none,-1⟩

/-- The loop over the events of a PID. -/
def scanEvents (pid : ℕ) : List TraceEvent → Walk → Walk
  | [], w => w
  | event :: rest, w =>
    if w.startTime = none ∧ event.eventType = Tracepoint.schedProcessFork.name ∧
        contains ("child_pid=".toList ++ str pid) event.details = true then
      scanEvents pid rest { w with startTime := some event.timestamp }
    else if w.startTime ≠ none ∧ w.firstScheduledTime = none ∧ event.eventType = Tracepoint.schedSwitch.name ∧
        contains ("next_pid=".toList ++ str pid) event.details = true then
      scanEvents pid rest { w with firstScheduledTime := some event.timestamp }
    else if w.firstScheduledTime ≠ none ∧ event.eventType = Tracepoint.schedProcessExit.name ∧
        contains ("pid=".toList ++ str pid) event.details = true then
      { w with exitTime := some event.timestamp }
    else if event.eventType = Tracepoint.schedMigrateTask.name ∧
        contains ("pid=".toList ++ str pid) event.details = true then
      scanEvents pid rest { w with migrations := w.migrations + 1 }
    else scanEvents pid rest w

/-- Subtracting a time that is missing raises. -/
def Walk.times (w : Walk) : Option WorkloadTimes :=
  match w.startTime, w.firstScheduledTime, w.exitTime with
  | some startTime, some firstScheduledTime, some exitTime =>
    let startupLatency := firstScheduledTime - startTime
    if startTime > exitTime ∨ startupLatency > exitTime - startTime then none
    else some ⟨startTime,startupLatency,exitTime,w.migrations⟩
  | _, _, _ => none

/-- The round for one PID; `pidsWargs` is the set of pairs as it is iterated over. -/
def workloadTimes (pidsWargs : List (ℕ × ℕ)) (pid : ℕ) (events : List TraceEvent) :
    Option ((ℕ × ℕ) × WorkloadTimes) :=
  match (scanEvents pid events .start).times with
  | none => none
  | some times => (pidsWargs.find? (fun p => p.2 = pid)).map (fun p => ((p.1,pid),times))

def getWorkloadTimes (pidsWargs : List (ℕ × ℕ)) : EventDict ℕ → Option (List ((ℕ × ℕ) × WorkloadTimes))
  | [] => some []
  | (pid,events) :: rest =>
    match workloadTimes pidsWargs pid events with
    | none => none
    | some row => (getWorkloadTimes pidsWargs rest).map (fun rows => row :: rows)

theorem times_of_workloadTimes {pidsWargs : List (ℕ × ℕ)} {pid : ℕ} {events : List TraceEvent}
    {row : (ℕ × ℕ) × WorkloadTimes} (h : workloadTimes pidsWargs pid events = some row) :
    row.1.2 = pid ∧ (scanEvents pid events .start).times = some row.2 := by
  unfold workloadTimes at h
  split at h
  case h_1 => cases h
  case h_2 times htimes =>
    obtain ⟨p,-,rfl⟩ := Option.map_eq_some_iff.mp h
    exact ⟨rfl,htimes⟩

theorem getWorkloadTimes_cons {pidsWargs : List (ℕ × ℕ)} {entry : ℕ × List TraceEvent} {rest : EventDict ℕ}
    {rows : List ((ℕ × ℕ) × WorkloadTimes)} : getWorkloadTimes pidsWargs (entry :: rest) = some rows ↔
      ∃ row rows', workloadTimes pidsWargs entry.1 entry.2 = some row ∧
        getWorkloadTimes pidsWargs rest = some rows' ∧ rows = row :: rows' := by
  rw [getWorkloadTimes]
  cases workloadTimes pidsWargs entry.1 entry.2 with
  | none => simp
  | some row => simp [eq_comm]

/-- Removing what is not in the set ends the script, and so does what is left of it. -/
def checkAllPids : List ℕ → Finset ℕ → Bool
  | [], pids => decide (pids = ∅)
  | pid :: rest, pids => decide (pid ∈ pids) && checkAllPids rest (pids.erase pid)

/-- The lines written for a PID. -/
def eventLines (entry : ℕ × List TraceEvent) : List Text :=
  ("PID: ".toList ++ str entry.1) :: entry.2.map (fun event => '\t' :: event.rawLine)

/-- The contents of `workload_events.out`. -/
def workloadEventsOut (workloadEvents : EventDict ℕ) : Text :=
  (workloadEvents.flatMap eventLines).flatMap (fun line => line ++ ['\n'])

def workloadTimesOut (workloadTimes : List ((ℕ × ℕ) × WorkloadTimes)) : Option (List (Row WorkloadTimes)) :=
  timesRows (workloadTimes.map (fun entry => (Key.pair entry.1.1 entry.1.2,entry.2)))

/-- The script once it has the set of pairs: what goes to `workload_events.out` and the rows of
the CSV file. -/
def main (order : ℕ → List Text → List Text) (file : Text) (pidsWargs : List (ℕ × ℕ)) :
    Option (Text × List (Row WorkloadTimes)) :=
  let pids := (pidsWargs.map Prod.snd).dedup
  match parseFtrace order file pids with
  | none => none
  | some workloadEvents =>
    if workloadEvents.isEmpty || !checkAllPids workloadEvents.keys pids.toFinset then none
    else
      match getWorkloadTimes pidsWargs workloadEvents with
      | none => none
      | some workloadTimes =>
        (workloadTimesOut workloadTimes).map (fun rows => (workloadEventsOut workloadEvents,rows))

end ParseTrace
end ServerlessSched.Analyze
