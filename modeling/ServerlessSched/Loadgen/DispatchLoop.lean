import ServerlessSched.Library.Runs
import ServerlessSched.Loadgen.Workload
import Mathlib.Algebra.Order.Archimedean.Basic
import Mathlib.Data.List.Forall2
import Mathlib.Tactic.Linarith
import Mathlib.Tactic.NormNum

/-! # The dispatch loop and the clock

The loop of `main` goes by the readings of a clock, and sleeps and busy waiting may last as
long as they like: each reading is a step. What it puts on the queue is what the loop without
a clock puts there.
-/
namespace ServerlessSched.Loadgen
open Runs

/-- The loop between two readings: `waiting` is the item of the busy wait, and `slept` lists
the arguments of `sleep`. -/
structure DispatchState where
  workload : List WorkloadItem
  nextRequestTime : ℚ
  dispatched : ℕ
  waiting : Option WorkloadItem
  slept : List ℚ
  queued : List Request

namespace DispatchState

def start (lines : List WorkloadLine) (startSimulation : ℚ) : DispatchState :=
  ⟨readWorkload lines,startSimulation,0,none,[],[]⟩

def pop (item : WorkloadItem) (s : DispatchState) : DispatchState :=
  { s with workload := s.workload.dropLast, nextRequestTime := s.nextRequestTime + item.iat }

def put (item : WorkloadItem) (s : DispatchState) : DispatchState :=
  { s with
    waiting := none
    queued := s.queued ++ [⟨item.arg,item.index,s.nextRequestTime⟩]
    dispatched := s.dispatched + 1 }

/-- The coarse sleep, and into the busy wait. -/
def wait (item : WorkloadItem) (now : ℚ) (s : DispatchState) : DispatchState :=
  let diff := s.nextRequestTime - now
  { s with
    waiting := some item
    slept := if diff > 0.002 then s.slept ++ [diff - 0.001] else s.slept }

/-- From one reading to the next. After the last item no reading is made; `pop` would raise on
an empty list. -/
def step (totalTasks : ℕ) (s : DispatchState) (now : ℚ) : Option DispatchState :=
  match s.waiting with
  | some item => some (if now < s.nextRequestTime then s else s.put item)
  | none =>
    if s.dispatched < totalTasks then
      match s.workload.getLast? with
      | none => none
      | some item =>
        some (if now < (s.pop item).nextRequestTime then (s.pop item).wait item now
          else (s.pop item).put item)
    else none

/-- The condition of the loop fails. -/
def Done (totalTasks : ℕ) (s : DispatchState) : Prop := s.waiting = none ∧ ¬s.dispatched < totalTasks

/-- The readings after which an item was put on the queue. -/
def stamp (s : DispatchState) (now : ℚ) (t : DispatchState) (g : List ℚ) : List ℚ :=
  if s.dispatched < t.dispatched then g ++ [now] else g

end DispatchState

/-- What a run that starts at `startSimulation` is to put on the queue. -/
def requests (lines : List WorkloadLine) (startSimulation : ℚ) : List Request :=
  lines.mapIdx (fun i line =>
    ⟨line.arg,i,startSimulation + ((lines.map WorkloadLine.iat).take (i + 1)).sum⟩)

theorem dispatchLoop_reverse_eq (items : List WorkloadItem) (t : ℚ) :
    dispatchLoop items.length items.reverse t = items.mapIdx (fun i item =>
      ⟨item.arg,item.index,t + ((items.map WorkloadItem.iat).take (i + 1)).sum⟩) := by
  induction items generalizing t with
  | nil => rfl
  | cons item items ih =>
    rw [List.length_cons,List.reverse_cons,dispatchLoop_concat,ih,List.mapIdx_cons]
    simp [add_assoc]

theorem dispatchLoop_eq_requests (lines : List WorkloadLine) (t : ℚ) :
    dispatchLoop lines.length (readWorkload lines) t = requests lines t := by
  have h := dispatchLoop_reverse_eq (lines.mapIdx (fun i line => ⟨line.iat,line.arg,i⟩)) t
  have hiats : (lines.mapIdx (fun i line => (⟨line.iat,line.arg,i⟩ : WorkloadItem))).map WorkloadItem.iat =
      lines.map WorkloadLine.iat := by
    apply List.ext_getElem
    · simp
    · intro k _ _
      simp
  rw [List.length_mapIdx,hiats,List.mapIdx_mapIdx] at h
  exact h

namespace DispatchState

/-- A step by what it does. -/
inductive Stepped (totalTasks : ℕ) (s : DispatchState) (now : ℚ) : DispatchState → Prop
  | waits {item : WorkloadItem} (hwaiting : s.waiting = some item) (hearly : now < s.nextRequestTime) :
      Stepped totalTasks s now s
  | released {item : WorkloadItem} (hwaiting : s.waiting = some item) (hdue : s.nextRequestTime ≤ now) :
      Stepped totalTasks s now (s.put item)
  | slept {item : WorkloadItem} {rest : List WorkloadItem} (hnone : s.waiting = none)
      (hmore : s.dispatched < totalTasks) (hlast : s.workload = rest ++ [item])
      (hearly : now < s.nextRequestTime + item.iat) : Stepped totalTasks s now ((s.pop item).wait item now)
  | overdue {item : WorkloadItem} {rest : List WorkloadItem} (hnone : s.waiting = none)
      (hmore : s.dispatched < totalTasks) (hlast : s.workload = rest ++ [item])
      (hdue : s.nextRequestTime + item.iat ≤ now) : Stepped totalTasks s now ((s.pop item).put item)

variable {totalTasks : ℕ} {s t : DispatchState} {now : ℚ}

theorem step_cases (h : step totalTasks s now = some t) : Stepped totalTasks s now t := by
  unfold step at h
  cases hwaiting : s.waiting with
  | some item =>
    simp only [hwaiting,Option.some.injEq] at h
    subst h
    split
    case isTrue hearly => exact .waits hwaiting hearly
    case isFalse hdue => exact .released hwaiting (not_lt.mp hdue)
  | none =>
    simp only [hwaiting] at h
    split at h
    case isFalse => cases h
    case isTrue hmore =>
      cases hlast : s.workload.getLast? with
      | none =>
        rw [hlast] at h
        cases h
      | some item =>
        obtain ⟨rest,hrest⟩ := List.getLast?_eq_some_iff.mp hlast
        simp only [hlast,Option.some.injEq] at h
        subst h
        split
        case isTrue hearly => exact .slept hwaiting hmore hrest hearly
        case isFalse hdue => exact .overdue hwaiting hmore hrest (not_lt.mp hdue)

/-- What is still to be put on the queue. -/
def remaining (totalTasks : ℕ) (s : DispatchState) : List Request :=
  match s.waiting with
  | none => dispatchLoop (totalTasks - s.dispatched) s.workload s.nextRequestTime
  | some item => ⟨item.arg,item.index,s.nextRequestTime⟩ ::
      dispatchLoop (totalTasks - s.dispatched - 1) s.workload s.nextRequestTime

/-- Nothing is lost or put twice, and nothing early. -/
structure OnTime (totalTasks : ℕ) (all : List Request) (s : DispatchState) (g : List ℚ) : Prop where
  requests : s.queued ++ s.remaining totalTasks = all
  left : s.workload.length + s.waiting.toList.length + s.dispatched = totalTasks
  late : List.Forall₂ (fun r now => r.requestTime ≤ now) s.queued g
  slept : ∀ d ∈ s.slept, 0 < d

theorem onTime_start (lines : List WorkloadLine) (startSimulation : ℚ) :
    OnTime lines.length (Loadgen.requests lines startSimulation) (start lines startSimulation) [] where
  requests := dispatchLoop_eq_requests lines startSimulation
  left := by simp [start,readWorkload]
  late := List.Forall₂.nil
  slept d hd := by cases hd

theorem remaining_pop {item : WorkloadItem} {rest : List WorkloadItem} (hnone : s.waiting = none)
    (hmore : s.dispatched < totalTasks) (hlast : s.workload = rest ++ [item]) : s.remaining totalTasks =
      ⟨item.arg,item.index,s.nextRequestTime + item.iat⟩ ::
        dispatchLoop (totalTasks - s.dispatched - 1) rest (s.nextRequestTime + item.iat) := by
  obtain ⟨n,hn⟩ : ∃ n, totalTasks - s.dispatched = n + 1 := ⟨totalTasks - s.dispatched - 1,by omega⟩
  rw [remaining,hnone]
  dsimp only
  rw [hn,hlast,dispatchLoop_concat]
  rfl

theorem remaining_put (totalTasks : ℕ) (item : WorkloadItem) (s : DispatchState) :
    (s.put item).remaining totalTasks =
      dispatchLoop (totalTasks - s.dispatched - 1) s.workload s.nextRequestTime := by
  rw [remaining]
  dsimp only [put]
  rw [Nat.sub_sub]

theorem OnTime.put {all : List Request} {g : List ℚ} {item : WorkloadItem} (hs : OnTime totalTasks all s g)
    (hwaiting : s.waiting = some item) (hdue : s.nextRequestTime ≤ now) :
    OnTime totalTasks all (s.put item) (g ++ [now]) where
  requests := by
    rw [remaining_put,← hs.requests,remaining,hwaiting]
    dsimp only [DispatchState.put]
    rw [List.append_assoc]
    rfl
  left := by
    have hleft := hs.left
    rw [hwaiting] at hleft
    dsimp only [DispatchState.put,Option.toList_some,Option.toList_none,List.length_cons,List.length_nil] at hleft ⊢
    omega
  late := List.rel_append hs.late (List.Forall₂.cons hdue List.Forall₂.nil)
  slept := hs.slept

theorem OnTime.wait {all : List Request} {g : List ℚ} {item : WorkloadItem} {rest : List WorkloadItem}
    (hs : OnTime totalTasks all s g) (hnone : s.waiting = none) (hmore : s.dispatched < totalTasks)
    (hlast : s.workload = rest ++ [item]) (now : ℚ) :
    OnTime totalTasks all ((s.pop item).wait item now) g where
  requests := by
    have hrest : s.workload.dropLast = rest := by rw [hlast,List.dropLast_concat]
    rw [← hs.requests,remaining_pop hnone hmore hlast,← hrest]
    rfl
  left := by
    have hleft := hs.left
    rw [hnone,hlast] at hleft
    dsimp only [DispatchState.wait,DispatchState.pop]
    rw [hlast,List.dropLast_concat]
    simp only [Option.toList_some,Option.toList_none,List.length_append,List.length_cons,List.length_nil] at hleft ⊢
    omega
  late := hs.late
  slept := by
    dsimp only [DispatchState.wait]
    split
    case isFalse => exact hs.slept
    case isTrue hlong =>
      refine List.forall_mem_append.mpr ⟨hs.slept,List.forall_mem_singleton.mpr ?_⟩
      norm_num at hlong ⊢
      linarith

/-- An item that is due already takes the way past the sleep and the busy wait. -/
theorem wait_of_due {item : WorkloadItem} (hdue : (s.pop item).nextRequestTime ≤ now) :
    ((s.pop item).wait item now).put item = (s.pop item).put item := by
  have hshort : ¬(s.pop item).nextRequestTime - now > 0.002 := by
    norm_num
    linarith
  unfold DispatchState.wait DispatchState.put
  dsimp only
  rw [if_neg hshort]

theorem onTime_step {all : List Request} {g : List ℚ} (hs : OnTime totalTasks all s g)
    (h : step totalTasks s now = some t) : OnTime totalTasks all t (stamp s now t g) := by
  have hput : ∀ item, stamp s now (s.put item) g = g ++ [now] := fun item => if_pos (Nat.lt_succ_self _)
  have hkept : ∀ item, stamp s now ((s.pop item).wait item now) g = g := fun item => if_neg (lt_irrefl _)
  cases step_cases h with
  | waits hwaiting hearly =>
    rw [stamp,if_neg (lt_irrefl _)]
    exact hs
  | released hwaiting hdue =>
    rw [hput]
    exact hs.put hwaiting hdue
  | slept hnone hmore hlast hearly =>
    rw [hkept]
    exact hs.wait hnone hmore hlast now
  | @overdue item _ hnone hmore hlast hdue =>
    have hputs : stamp s now ((s.pop item).put item) g = g ++ [now] := if_pos (Nat.lt_succ_self _)
    rw [hputs,← wait_of_due hdue]
    exact (hs.wait hnone hmore hlast now).put rfl hdue

theorem dispatched_lt {all : List Request} {g : List ℚ} (hs : OnTime totalTasks all s g)
    (hdone : ¬Done totalTasks s) : s.dispatched < totalTasks := by
  cases hwaiting : s.waiting with
  | none => exact not_not.mp fun h => hdone ⟨hwaiting,h⟩
  | some item =>
    have hleft := hs.left
    rw [hwaiting,Option.toList_some,List.length_singleton] at hleft
    omega

/-- The loop is never stuck: `pop` finds an item as long as the condition holds. -/
theorem exists_step {all : List Request} {g : List ℚ} (hs : OnTime totalTasks all s g)
    (hdone : ¬Done totalTasks s) (now : ℚ) : ∃ t, step totalTasks s now = some t := by
  unfold step
  cases hwaiting : s.waiting with
  | some item => exact ⟨_,rfl⟩
  | none =>
    have hmore := dispatched_lt hs hdone
    have hleft := hs.left
    rw [hwaiting,Option.toList_none,List.length_nil] at hleft
    dsimp only
    rw [if_pos hmore]
    cases hlast : s.workload.getLast? with
    | some item => exact ⟨_,rfl⟩
    | none =>
      rw [List.getLast?_eq_none_iff.mp hlast,List.length_nil] at hleft
      omega

theorem queued_of_done {all : List Request} {g : List ℚ} (hs : OnTime totalTasks all s g)
    (hdone : Done totalTasks s) : s.queued = all := by
  obtain ⟨hwaiting,hmore⟩ := hdone
  have hnone : s.remaining totalTasks = [] := by
    rw [remaining,hwaiting]
    dsimp only
    rw [Nat.sub_eq_zero_of_le (not_lt.mp hmore),dispatchLoop]
  have hall := hs.requests
  rwa [hnone,List.append_nil] at hall

theorem onTime_run {all : List Request} {g g' : List ℚ} {readings : List ℚ} (hs : OnTime totalTasks all s g)
    (hr : run (withGhost (step totalTasks) stamp) (s,g) readings = some (t,g')) : OnTime totalTasks all t g' :=
  run_invariant (P := fun p : DispatchState × List ℚ => OnTime totalTasks all p.1 p.2)
    (fun p now q hp hq => by
      obtain ⟨hstep,hghost⟩ := withGhost_eq_some.mp hq
      rw [hghost]
      exact onTime_step hp hstep) hs hr

theorem stamps_sublist {g g' : List ℚ} {readings : List ℚ}
    (hr : run (withGhost (step totalTasks) stamp) (s,g) readings = some (t,g')) :
    ∃ new, g' = g ++ new ∧ new.Sublist readings := by
  induction readings generalizing s g with
  | nil =>
    cases hr
    exact ⟨[],(List.append_nil _).symm,List.Sublist.refl _⟩
  | cons now readings ih =>
    obtain ⟨⟨u,g₁⟩,hu,hr⟩ := run_cons_eq_some.mp hr
    obtain ⟨-,hghost⟩ := withGhost_eq_some.mp hu
    obtain ⟨new,hnew,hsub⟩ := ih hr
    dsimp only at hghost
    rw [stamp] at hghost
    split at hghost
    case isTrue =>
      refine ⟨now :: new,?_,hsub.cons_cons now⟩
      rw [hnew,hghost,List.append_assoc]
      rfl
    case isFalse => exact ⟨new,by rw [hnew,hghost],hsub.cons now⟩

/-! ## The end of the loop -/

section Progress
variable {clock : ℕ → ℚ} {n : ℕ}

theorem step_of_due {item : WorkloadItem} (hwaiting : s.waiting = some item) (hdue : s.nextRequestTime ≤ now) :
    step totalTasks s now = some (s.put item) := by
  unfold step
  simp only [hwaiting]
  rw [if_neg (not_lt.mpr hdue)]

theorem step_of_early {item : WorkloadItem} (hwaiting : s.waiting = some item)
    (hearly : now < s.nextRequestTime) : step totalTasks s now = some s := by
  unfold step
  simp only [hwaiting]
  rw [if_pos hearly]

/-- The busy wait ends at the first reading that is not early. -/
theorem run_wait {item : WorkloadItem} (hwaiting : s.waiting = some item) {d : ℕ}
    (hreached : s.nextRequestTime ≤ clock (n + d)) :
    ∃ m, run (step totalTasks) s ((List.range' n m).map clock) = some (s.put item) := by
  induction d generalizing n with
  | zero => exact ⟨1,run_cons_of_step (step_of_due hwaiting hreached) []⟩
  | succ d ih =>
    by_cases hdue : s.nextRequestTime ≤ clock n
    · exact ⟨1,run_cons_of_step (step_of_due hwaiting hdue) []⟩
    · obtain ⟨m,hm⟩ := ih (n := n + 1) (by rwa [Nat.add_right_comm,Nat.add_assoc])
      refine ⟨m + 1,?_⟩
      rw [List.range'_succ,List.map_cons,run_cons_of_step (step_of_early hwaiting (not_le.mp hdue))]
      exact hm

/-- As long as the clock reaches all request times, the next item is put. -/
theorem exists_put {all : List Request} {g : List ℚ} (hclock : Monotone clock) (hs : OnTime totalTasks all s g)
    (hreached : ∀ r ∈ all, ∃ j, r.requestTime ≤ clock j) (hdone : ¬Done totalTasks s) (n : ℕ) :
    ∃ m t, run (step totalTasks) s ((List.range' n m).map clock) = some t ∧ s.dispatched < t.dispatched := by
  have hremaining : ∀ r ∈ s.remaining totalTasks, ∀ n, ∃ d, r.requestTime ≤ clock (n + d) := by
    intro r hr n
    obtain ⟨j,hj⟩ := hreached r (hs.requests ▸ List.mem_append_right _ hr)
    exact ⟨j,hj.trans (hclock (Nat.le_add_left j n))⟩
  obtain ⟨t,ht⟩ := exists_step hs hdone (clock n)
  have hrange : ∀ m, (List.range' n (m + 1)).map clock = clock n :: (List.range' (n + 1) m).map clock := fun m => by
    rw [List.range'_succ,List.map_cons]
  cases step_cases ht with
  | @waits item hwaiting _ =>
    obtain ⟨d,hd⟩ := hremaining ⟨item.arg,item.index,s.nextRequestTime⟩
      (by rw [remaining,hwaiting]; exact List.mem_cons_self) n
    obtain ⟨m,hm⟩ := run_wait hwaiting hd
    exact ⟨m,_,hm,Nat.lt_succ_self _⟩
  | released hwaiting _ => exact ⟨1,_,run_cons_of_step ht [],Nat.lt_succ_self _⟩
  | @slept item rest hnone hmore hlast _ =>
    obtain ⟨d,hd⟩ := hremaining ⟨item.arg,item.index,s.nextRequestTime + item.iat⟩
      (by rw [remaining_pop hnone hmore hlast]; exact List.mem_cons_self) (n + 1)
    obtain ⟨m,hm⟩ : ∃ m, run (step totalTasks) ((s.pop item).wait item (clock n))
        ((List.range' (n + 1) m).map clock) = some _ := run_wait rfl hd
    exact ⟨m + 1,_,by rw [hrange,run_cons_of_step ht]; exact hm,Nat.lt_succ_self _⟩
  | overdue hnone hmore hlast _ => exact ⟨1,_,run_cons_of_step ht [],Nat.lt_succ_self _⟩

theorem exists_done {all : List Request} {g : List ℚ} (hclock : Monotone clock) (hs : OnTime totalTasks all s g)
    (hreached : ∀ r ∈ all, ∃ j, r.requestTime ≤ clock j) (n : ℕ) :
    ∃ m t, run (step totalTasks) s ((List.range' n m).map clock) = some t ∧ Done totalTasks t := by
  obtain ⟨k,hk⟩ : ∃ k, totalTasks - s.dispatched ≤ k := ⟨_,le_rfl⟩
  induction k generalizing s g n with
  | zero =>
    by_cases hdone : Done totalTasks s
    · exact ⟨0,s,rfl,hdone⟩
    · have hlt := dispatched_lt hs hdone
      omega
  | succ k ih =>
    by_cases hdone : Done totalTasks s
    · exact ⟨0,s,rfl,hdone⟩
    · obtain ⟨m,t,hrun,hlt⟩ := exists_put hclock hs hreached hdone n
      obtain ⟨g',hg'⟩ : ∃ g', run (withGhost (step totalTasks) stamp) (s,g) _ = some (t,g') :=
        exists_ghost_run hrun g
      obtain ⟨m',u,hrun',hu⟩ := ih (onTime_run hs hg') (n + m) (by omega)
      refine ⟨m + m',u,?_,hu⟩
      rw [← List.range'_append_1,List.map_append,run_append_of_run hrun]
      exact hrun'

end Progress
end DispatchState

open DispatchState in
/-- Whatever the clock shows and however long a sleep lasts: what has been put on the queue is an
initial part of the requests, which the start time and the file determine, each put after a
reading of its own that is not before its request time; no sleep is asked for that is not
positive; and the loop goes on until everything has been put. It comes to an end exactly if
the clock reaches every request time. -/
theorem dispatched_on_time (lines : List WorkloadLine) {clock : ℕ → ℚ} (hclock : Monotone clock) :
    (∀ n s g, run (withGhost (step lines.length) stamp) (start lines (clock 0),[]) ((List.range' 1 n).map clock) =
        some (s,g) →
      s.queued <+: requests lines (clock 0) ∧ List.Forall₂ (fun r now => r.requestTime ≤ now) s.queued g ∧
      g.Sublist ((List.range' 1 n).map clock) ∧ (∀ d ∈ s.slept, 0 < d) ∧
      (Done lines.length s → s.queued = requests lines (clock 0)) ∧
      (¬Done lines.length s → ∀ now, ∃ t, step lines.length s now = some t)) ∧
    ((∃ n s, run (step lines.length) (start lines (clock 0)) ((List.range' 1 n).map clock) = some s ∧
        Done lines.length s) ↔ ∀ r ∈ requests lines (clock 0), ∃ n, r.requestTime ≤ clock n) := by
  have hstart := onTime_start lines (clock 0)
  refine ⟨fun n s g hr => ?_,fun hend => ?_,fun hreached => exists_done hclock hstart hreached 1⟩
  · have hs := onTime_run hstart hr
    obtain ⟨new,hnew,hsub⟩ := stamps_sublist hr
    rw [List.nil_append] at hnew
    exact ⟨⟨_,hs.requests⟩,hs.late,hnew ▸ hsub,hs.slept,queued_of_done hs,exists_step hs⟩
  · obtain ⟨n,s,hr,hdone⟩ := hend
    obtain ⟨g,hg⟩ : ∃ g, run (withGhost (step lines.length) stamp) (start lines (clock 0),[]) _ = some (s,g) :=
      exists_ghost_run hr []
    have hs := onTime_run hstart hg
    obtain ⟨new,hnew,hsub⟩ := stamps_sublist hg
    rw [List.nil_append] at hnew
    intro r hmem
    rw [← queued_of_done hs hdone] at hmem
    obtain ⟨now,hnow,hle⟩ := exists_entry hs.late hmem
    obtain ⟨k,-,hk⟩ := List.mem_map.mp (hsub.subset (hnew ▸ hnow))
    exact ⟨k,hk ▸ hle⟩

/-- Two jobs on a clock that gains a second with each reading. -/
theorem dispatched_on_time_two : ∃ n s, run (DispatchState.step 2) (DispatchState.start [⟨3,"24"⟩,⟨1/2,"30"⟩] 0)
    ((List.range' 1 n).map (fun k : ℕ => (k : ℚ))) = some s ∧ s.queued = [⟨"24",0,3⟩,⟨"30",1,7/2⟩] := by
  have hclock : Monotone (fun k : ℕ => (k : ℚ)) := Nat.mono_cast
  obtain ⟨hsafe,hends⟩ := dispatched_on_time [⟨3,"24"⟩,⟨1/2,"30"⟩] hclock
  obtain ⟨n,s,hr,hdone⟩ := hends.mpr (fun r _ => exists_nat_ge r.requestTime)
  obtain ⟨g,hg⟩ : ∃ g, run (withGhost (DispatchState.step 2) DispatchState.stamp) _ _ = some (s,g) :=
    exists_ghost_run hr []
  refine ⟨n,s,by simpa using hr,?_⟩
  obtain ⟨-,-,-,-,hqueued,-⟩ := hsafe n s g hg
  rw [hqueued hdone]
  decide +kernel

/-- The only job of a file, due at 5, when the clock has shown 0 for the second time. -/
def stillWaiting : DispatchState :=
  ((DispatchState.start [⟨5,"24"⟩] 0).pop ⟨5,"24",0⟩).wait ⟨5,"24",0⟩ 0

/-- On a clock that stands still the loop waits for ever. -/
theorem clock_stands_still : Monotone (fun _ : ℕ => (0 : ℚ)) ∧ ∀ n, ∃ s,
    run (DispatchState.step 1) (DispatchState.start [⟨5,"24"⟩] 0) ((List.range' 1 n).map (fun _ => 0)) = some s ∧
      s.queued = [] := by
  have hnext : 0 < stillWaiting.nextRequestTime := by decide +kernel
  have hfirst : DispatchState.step 1 (DispatchState.start [⟨5,"24"⟩] 0) 0 = some stillWaiting :=
    congrArg some (if_pos hnext)
  have hstay : DispatchState.step 1 stillWaiting 0 = some stillWaiting := DispatchState.step_of_early rfl hnext
  have hrest : ∀ n k, run (DispatchState.step 1) stillWaiting ((List.range' k n).map (fun _ => 0)) =
      some stillWaiting := by
    intro n
    induction n with
    | zero => exact fun _ => rfl
    | succ n ih => exact fun k => (run_cons_of_step hstay _).trans (ih (k + 1))
  refine ⟨monotone_const,fun n => ?_⟩
  cases n with
  | zero => exact ⟨_,rfl,rfl⟩
  | succ n => exact ⟨stillWaiting,(run_cons_of_step hfirst _).trans (hrest n 2),rfl⟩

end ServerlessSched.Loadgen
