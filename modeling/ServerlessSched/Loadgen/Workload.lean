import ServerlessSched.Library.Differences
import Mathlib.Algebra.Order.Floor.Defs
import Mathlib.Data.List.Sort
import Mathlib.Data.Rat.Defs
import Mathlib.Tactic.Ring

/-! # The workload file

The generator writes a schedule as inter-arrival times; the executor adds them up again.
Times are exact rationals and the lines of the file are pairs.
-/
namespace ServerlessSched.Loadgen

/-! ## The generator -/

structure Invocation where
  time : ℚ
  arg : String
deriving DecidableEq

def fibArgs : List ℕ := List.range' 24 23

def minutes : List ℕ := [0,1]

/-- The invocations of one argument in one minute, out of `count` in the trace. -/
def invocationsOf (downscale : ℚ) (minute arg count : ℕ) : List Invocation :=
  let invokeTimes : ℚ := count / downscale
  let interval : ℚ := 60 / invokeTimes
  (List.range invokeTimes.floor.toNat).map (fun n => ⟨minute * 60 + n * interval,toString arg⟩)

def occurTime (counts : ℕ → ℕ → ℕ) (downscale : ℚ) : List Invocation :=
  minutes.flatMap (fun minute =>
    fibArgs.flatMap (fun arg => invocationsOf downscale minute arg (counts arg minute)))

/-- The sort is stable. -/
def sortList (occurTime : List Invocation) : List Invocation :=
  occurTime.insertionSort (fun a b => a.time ≤ b.time)

structure WorkloadLine where
  iat : ℚ
  arg : String
deriving DecidableEq

/-- The lines written: the first time is added to all differences, and pairing them with the
arguments stops at the shorter list. Nothing can be unpacked from an empty schedule. -/
def outputList (schedule : List Invocation) : Option (List WorkloadLine) :=
  match schedule.map Invocation.time with
  | [] => none
  | first :: rest =>
    some (List.zipWith WorkloadLine.mk ((diffs (first :: rest)).map (fun d => first + d))
      (schedule.map Invocation.arg))

def genWorkload (counts : ℕ → ℕ → ℕ) (downscale : ℚ) : Option (List WorkloadLine) :=
  outputList (sortList (occurTime counts downscale))

/-! ## The executor -/

structure WorkloadItem where
  iat : ℚ
  arg : String
  index : ℕ

/-- The items of the file, the first line last. -/
def readWorkload (lines : List WorkloadLine) : List WorkloadItem :=
  (lines.mapIdx (fun i line => ⟨line.iat,line.arg,i⟩)).reverse

/-- What the dispatch loop puts on the task queue. -/
structure Request where
  arg : String
  index : ℕ
  requestTime : ℚ
deriving DecidableEq

/-- The dispatch loop with the items still to go and the running request time. -/
def dispatchLoop : ℕ → List WorkloadItem → ℚ → List Request
  | 0, _, _ => []
  | n + 1, workload, nextRequestTime =>
    match workload.getLast? with
    | none => []
    | some item => ⟨item.arg,item.index,nextRequestTime + item.iat⟩ ::
        dispatchLoop n workload.dropLast (nextRequestTime + item.iat)

/-- The requests of a run that starts at time zero. -/
def replay (lines : List WorkloadLine) : List Request :=
  dispatchLoop lines.length (readWorkload lines) 0

/-! ## What is replayed -/

/-- The requests are the schedule, shifted in time as a whole. -/
def RoundTrip (schedule : List Invocation) (requests : List Request) : Prop :=
  ∃ offset, requests.map (fun r => (r.requestTime,r.arg)) = schedule.map (fun i => (i.time + offset,i.arg))

theorem dispatchLoop_concat (n : ℕ) (workload : List WorkloadItem) (item : WorkloadItem) (t : ℚ) :
    dispatchLoop (n + 1) (workload ++ [item]) t =
      ⟨item.arg,item.index,t + item.iat⟩ :: dispatchLoop n workload (t + item.iat) := by
  simp [dispatchLoop]

/-- The file is replayed from its first line on. -/
theorem dispatchLoop_reverse (items : List WorkloadItem) (t : ℚ) :
    (dispatchLoop items.length items.reverse t).map Request.requestTime =
        runningSums t (items.map WorkloadItem.iat) ∧
      (dispatchLoop items.length items.reverse t).map Request.arg = items.map WorkloadItem.arg ∧
      (dispatchLoop items.length items.reverse t).map Request.index = items.map WorkloadItem.index := by
  induction items generalizing t with
  | nil => exact ⟨rfl,rfl,rfl⟩
  | cons item items ih =>
    obtain ⟨htimes,hargs,hindices⟩ := ih (t + item.iat)
    rw [List.length_cons,List.reverse_cons,dispatchLoop_concat]
    simp only [List.map_cons,htimes,hargs,hindices,runningSums,and_self]

theorem replay_spec (lines : List WorkloadLine) :
    (replay lines).map Request.requestTime = runningSums 0 (lines.map WorkloadLine.iat) ∧
      (replay lines).map Request.arg = lines.map WorkloadLine.arg ∧
      (replay lines).map Request.index = List.range lines.length := by
  have h := dispatchLoop_reverse (lines.mapIdx (fun i line => ⟨line.iat,line.arg,i⟩)) 0
  rw [List.length_mapIdx] at h
  refine ⟨h.1.trans (congrArg _ ?_),h.2.1.trans ?_,h.2.2.trans ?_⟩
  all_goals
    apply List.ext_getElem
    · simp
    · intro k _ _
      simp

theorem length_replay (lines : List WorkloadLine) : (replay lines).length = lines.length := by
  have h := congrArg List.length (replay_spec lines).2.1
  rwa [List.length_map,List.length_map] at h

theorem outputList_cons (first : Invocation) (rest : List Invocation) :
    ∃ lines, outputList (first :: rest) = some lines ∧ lines.length = rest.length ∧
      lines.map WorkloadLine.iat =
        (diffs (first.time :: rest.map Invocation.time)).map (fun d => first.time + d) ∧
      lines.map WorkloadLine.arg = ((first :: rest).map Invocation.arg).dropLast := by
  have hlength : ((diffs (first.time :: rest.map Invocation.time)).map (fun d => first.time + d)).length =
      rest.length := by rw [List.length_map,length_diffs_cons,List.length_map]
  refine ⟨_,rfl,?_,?_,?_⟩
  · simp [length_diffs_cons]
  all_goals
    apply List.ext_getElem
    · simp [length_diffs_cons]
    · intro k _ _
      simp

/-- What a run of the generated file does: the `k`-th request carries the argument of the
`k`-th invocation at the time of the next one, `k` times the first time later still, and the
last invocation is never made. -/
theorem replay_outputList {first : Invocation} {rest : List Invocation} {lines : List WorkloadLine}
    (h : outputList (first :: rest) = some lines) :
    (replay lines).map Request.requestTime = rest.mapIdx (fun k i => i.time + k * first.time) ∧
      (replay lines).map Request.arg = ((first :: rest).map Invocation.arg).dropLast := by
  obtain ⟨lines',hlines,-,hiats,hargs⟩ := outputList_cons first rest
  cases hlines.symm.trans h
  obtain ⟨htimes,hreplayed,-⟩ := replay_spec lines
  refine ⟨?_,hreplayed.trans hargs⟩
  have hrest : runningSums 0 (diffs (first.time :: rest.map Invocation.time)) =
      (rest.map Invocation.time).map (fun t => t + -first.time) := by
    have hsums := runningSums_add first.time (-first.time) (diffs (first.time :: rest.map Invocation.time))
    rwa [add_neg_cancel,runningSums_diffs] at hsums
  rw [htimes,hiats,runningSums_map_add,hrest]
  apply List.ext_getElem
  · simp
  · intro k _ _
    simp only [List.getElem_mapIdx,List.getElem_map,nsmul_eq_mul,Nat.cast_succ]
    ring

/-- The generated file never replays its schedule: it is one line short. -/
theorem workload_round_trip_never (counts : ℕ → ℕ → ℕ) (downscale : ℚ) {lines : List WorkloadLine}
    (h : genWorkload counts downscale = some lines) :
    ¬RoundTrip (sortList (occurTime counts downscale)) (replay lines) := by
  rintro ⟨offset,hround⟩
  have hlength := congrArg List.length hround
  rw [List.length_map,List.length_map,length_replay] at hlength
  unfold genWorkload at h
  cases hschedule : sortList (occurTime counts downscale) with
  | nil =>
    rw [hschedule] at h
    cases h
  | cons first rest =>
    obtain ⟨lines',hlines,hshort,-⟩ := outputList_cons first rest
    rw [hschedule] at h hlength
    cases hlines.symm.trans h
    rw [hshort,List.length_cons] at hlength
    omega

section TwoInvocations

/-- Two invocations of argument 24 in the first minute. -/
def twoInvocations : ℕ → ℕ → ℕ := fun arg minute => if arg = 24 ∧ minute = 0 then 2 else 0

theorem genWorkload_two : genWorkload twoInvocations 1 = some [⟨30,"24"⟩] := by decide +kernel

/-- The schedule is one invocation at 0 and one at 30; what is replayed is one at 30. -/
theorem workload_shortened : ∃ lines, genWorkload twoInvocations 1 = some lines ∧
    sortList (occurTime twoInvocations 1) = [⟨0,"24"⟩,⟨30,"24"⟩] ∧ replay lines = [⟨"24",0,30⟩] ∧
      ¬RoundTrip (sortList (occurTime twoInvocations 1)) (replay lines) := by
  have hschedule : sortList (occurTime twoInvocations 1) = [⟨0,"24"⟩,⟨30,"24"⟩] := by decide +kernel
  refine ⟨_,genWorkload_two,hschedule,by decide +kernel,?_⟩
  rintro ⟨offset,h⟩
  rw [hschedule] at h
  cases congrArg List.length h

theorem workload_round_trip_never_two :
    ¬RoundTrip (sortList (occurTime twoInvocations 1)) (replay [⟨30,"24"⟩]) :=
  workload_round_trip_never twoInvocations 1 genWorkload_two

end TwoInvocations

end ServerlessSched.Loadgen
