import ServerlessSched.Analyze.ParseTrace

/-! # The second pass, over the events of the first

The script reads back what the first one wrote to `workload_events.out` and goes through the
events of each PID in the same way, but for the migrations. Its times have the PID alone as key.
-/
namespace ServerlessSched.Analyze.ParseFromWorkloadEvents
open PythonText

/-- `int(line.split(":")[1])`. -/
def headerPid (line : Text) : Option ℤ := (line.splitOn ':')[1]?.bind int

/-- A round of the loop over the lines. Before the first header `pid` is not bound. -/
def scanLine (line : Text) (pid : Option ℤ) (dict : EventDict ℤ) : Option (Option ℤ × EventDict ℤ) :=
  if startsWith "PID".toList line then (headerPid line).map (fun pid => (some pid,dict))
  else
    match pid with
    | none => none
    | some key => (parseEventFromLine line).map (fun event => (pid,dict.append key event))

def scanLines : List Text → Option ℤ → EventDict ℤ → Option (EventDict ℤ)
  | [], _, dict => some dict
  | rawLine :: rest, pid, dict =>
    match scanLine (strip rawLine) pid dict with
    | none => none
    | some (pid,dict) => scanLines rest pid dict

def parseFtrace (file : Text) : Option (EventDict ℤ) := scanLines (lines file) none []

structure WorkloadTimes where
  startTime : ℚ
  startupLatency : ℚ
  exitTime : ℚ
deriving DecidableEq

structure Walk where
  startTime : Option ℚ
  firstScheduledTime : Option ℚ
  exitTime : Option ℚ

/-- The loop over the events of a PID. -/
def scanEvents (pid : ℤ) : List TraceEvent → Walk → Walk
  | [], w => w
  | event :: rest, w =>
    if w.startTime = none ∧ event.eventType = Tracepoint.schedProcessFork.name ∧
        contains ("child_pid=".toList ++ strInt pid) event.details = true then
      scanEvents pid rest { w with startTime := some event.timestamp }
    else if w.startTime ≠ none ∧ w.firstScheduledTime = none ∧ event.eventType = Tracepoint.schedSwitch.name ∧
        contains ("next_pid=".toList ++ strInt pid) event.details = true then
      scanEvents pid rest { w with firstScheduledTime := some event.timestamp }
    else if w.firstScheduledTime ≠ none ∧ event.eventType = Tracepoint.schedProcessExit.name ∧
        contains ("pid=".toList ++ strInt pid) event.details = true then
      { w with exitTime := some event.timestamp }
    else scanEvents pid rest w

def Walk.times (w : Walk) : Option WorkloadTimes :=
  match w.startTime, w.firstScheduledTime, w.exitTime with
  | some startTime, some firstScheduledTime, some exitTime =>
    let startupLatency := firstScheduledTime - startTime
    if startTime > exitTime ∨ startupLatency > exitTime - startTime then none
    else some ⟨startTime,startupLatency,exitTime⟩
  | _, _, _ => none

def getWorkloadTimes : EventDict ℤ → Option (List (ℤ × WorkloadTimes))
  | [] => some []
  | (pid,events) :: rest =>
    match (scanEvents pid events ⟨none,none,none⟩).times with
    | none => none
    | some times => (getWorkloadTimes rest).map (fun rows => (pid,times) :: rows)

def workloadTimesOut (workloadTimes : List (ℤ × WorkloadTimes)) : Option (List (Row WorkloadTimes)) :=
  timesRows (workloadTimes.map (fun entry => (Key.number entry.1,entry.2)))

/-- The rows of the CSV file, if the script comes so far. -/
def main (file : Text) : Option (List (Row WorkloadTimes)) :=
  match parseFtrace file with
  | none => none
  | some workloadEvents =>
    if workloadEvents.isEmpty then none else (getWorkloadTimes workloadEvents).bind workloadTimesOut

end ServerlessSched.Analyze.ParseFromWorkloadEvents
