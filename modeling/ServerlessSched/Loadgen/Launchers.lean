import ServerlessSched.Loadgen.Executor
import Mathlib.Algebra.Order.BigOperators.Group.Finset
import Mathlib.Data.List.ReduceOption

/-! # Do the launchers outlive the workload?

A launcher ends after three seconds without an item. The queue is served to the end exactly
when the last launcher does not end so while items are still to come.
-/
namespace ServerlessSched.Loadgen
open Runs

/-- Between `get` and `task_done`. -/
def Launcher.busy : Launcher → ℕ
  | .waiting | .gone => 0
  | .taken _ | .locked _ | .forked _ _ | .finishing | .leaving => 1

def Launcher.holdsLock : Launcher → Bool
  | .locked _ | .forked _ _ => true
  | .waiting | .taken _ | .finishing | .leaving | .gone => false

namespace Executor
variable {total : ℕ} {workload : List Request} {s t : Executor} {e : ExecutorEvent}

def todo (s : Executor) : List Request :=
  match s.main with
  | .dispatching todo => todo
  | _ => []

def sentinelsSent (s : Executor) : Bool :=
  match s.main with
  | .dispatching _ | .joining => false
  | _ => true

/-- The items that no launcher has taken yet. -/
def pendingItems (s : Executor) : List Request := s.queue.reduceOption ++ s.todo

/-- The bookkeeping of the queue and of the lock. -/
structure Accounts (workload : List Request) (s : Executor) : Prop where
  taken : s.taken ++ s.pendingItems = workload
  plain : s.sentinelsSent = false → none ∉ s.queue
  staying : s.sentinelsSent = false → ∀ i, s.launchers i ≠ .leaving
  joined : s.sentinelsSent = true → s.pendingItems = []
  unfinished : s.unfinished = s.queue.length + ∑ i, (s.launchers i).busy
  locked : ∀ i, s.lock = some i ↔ (s.launchers i).holdsLock = true

theorem accounts_start : Accounts workload (start workload) where
  taken := rfl
  plain _ := List.not_mem_nil
  staying _ _ := by simp [start]
  joined h := by cases h
  unfinished := rfl
  locked _ := by simp [start,Launcher.holdsLock]

/-- A launcher moves and leaves the queue as it is. -/
theorem Accounts.move {i : Fin numLaunchers} {l : Launcher} (hs : Accounts workload s)
    (hlaunchers : t.launchers = (s.setLauncher i l).launchers) (hmain : t.main = s.main)
    (hqueue : t.queue = s.queue) (htaken : t.taken = s.taken) (hstays : l ≠ .leaving)
    (hunfinished : t.unfinished + (s.launchers i).busy = s.unfinished + l.busy)
    (hlocked : ∀ j, t.lock = some j ↔ ((s.setLauncher i l).launchers j).holdsLock = true) :
    Accounts workload t := by
  have hpending : t.pendingItems = s.pendingItems := by rw [pendingItems,todo,hqueue,hmain]; rfl
  have hsent : t.sentinelsSent = s.sentinelsSent := by rw [sentinelsSent,hmain]; rfl
  have hbusy := sum_setLauncher Launcher.busy s i l
  refine ⟨?_,?_,?_,?_,?_,?_⟩
  · rw [htaken,hpending]; exact hs.taken
  · rw [hsent,hqueue]; exact hs.plain
  · intro hfalse j
    rw [hlaunchers]
    by_cases hj : j = i
    · rw [hj,setLauncher_self]; exact hstays
    · rw [setLauncher_ne s l hj]; exact hs.staying (hsent ▸ hfalse) j
  · rw [hsent,hpending]; exact hs.joined
  · rw [hqueue,hlaunchers]
    have := hs.unfinished
    omega
  · intro j
    rw [hlaunchers]
    exact hlocked j

/-- The lock stays as it is when a launcher moves that has nothing to do with it. -/
theorem Accounts.locked_same {i : Fin numLaunchers} {l : Launcher} (hs : Accounts workload s)
    (hi : (s.launchers i).holdsLock = false) (hl : l.holdsLock = false) (j : Fin numLaunchers) :
    s.lock = some j ↔ ((s.setLauncher i l).launchers j).holdsLock = true := by
  by_cases hj : j = i
  · rw [hs.locked,hj,setLauncher_self,hi,hl]
  · rw [hs.locked,setLauncher_ne s l hj]

theorem Accounts.locked_held {i : Fin numLaunchers} {l : Launcher} (hs : Accounts workload s)
    (hi : (s.launchers i).holdsLock = true) (hl : l.holdsLock = true) (j : Fin numLaunchers) :
    s.lock = some j ↔ ((s.setLauncher i l).launchers j).holdsLock = true := by
  by_cases hj : j = i
  · rw [hs.locked,hj,setLauncher_self,hi,hl]
  · rw [hs.locked,setLauncher_ne s l hj]

/-- The holder gives the lock back. -/
theorem Accounts.locked_release {i : Fin numLaunchers} {l : Launcher} (hs : Accounts workload s)
    (hi : (s.launchers i).holdsLock = true) (hl : l.holdsLock = false) (j : Fin numLaunchers) :
    (none : Option (Fin numLaunchers)) = some j ↔ ((s.setLauncher i l).launchers j).holdsLock = true := by
  refine iff_of_false (fun h => by cases h) ?_
  by_cases hj : j = i
  · rw [hj,setLauncher_self,hl]
    exact Bool.false_ne_true
  · rw [setLauncher_ne s l hj,← hs.locked,(hs.locked i).mpr hi]
    exact fun h => hj (Option.some.inj h).symm

/-- Past the sentinels, `main` only waits. -/
theorem Accounts.finish {main : MainPc} (hs : Accounts workload s) (hsent : s.sentinelsSent = true)
    (hmain : ({ s with main := main } : Executor).sentinelsSent = true)
    (htodo : ({ s with main := main } : Executor).todo = s.todo) :
    Accounts workload { s with main := main } := by
  have hpending : ({ s with main := main } : Executor).pendingItems = s.pendingItems := by
    rw [pendingItems,htodo]; rfl
  refine ⟨?_,fun hfalse => ?_,fun hfalse => ?_,fun _ => ?_,hs.unfinished,hs.locked⟩
  · rw [hpending]; exact hs.taken
  · rw [hmain] at hfalse; cases hfalse
  · rw [hmain] at hfalse; cases hfalse
  · rw [hpending]; exact hs.joined hsent

/-- Taking the lock when it is free. -/
theorem Accounts.locked_acquire {i : Fin numLaunchers} {l : Launcher} (hs : Accounts workload s)
    (hfree : s.lock = none) (hl : l.holdsLock = true) (j : Fin numLaunchers) :
    some i = some j ↔ ((s.setLauncher i l).launchers j).holdsLock = true := by
  by_cases hj : j = i
  · rw [hj,setLauncher_self,hl]
    exact iff_of_true rfl rfl
  · rw [setLauncher_ne s l hj,← hs.locked,hfree]
    exact iff_of_false (fun h => hj (Option.some.inj h).symm) (fun h => by cases h)

/-- A launcher is left with the item it takes from the head of the queue. -/
theorem Accounts.get {i : Fin numLaunchers} {l : Launcher} {head : Option Request}
    {queue : List (Option Request)} (hs : Accounts workload s) (hi : s.launchers i = .waiting)
    (hqueue : s.queue = head :: queue) (hbusy : l.busy = 1) (hfree : l.holdsLock = false)
    (hstays : s.sentinelsSent = false → l ≠ .leaving) :
    Accounts workload ({ s with queue := queue, taken := s.taken ++ head.toList }.setLauncher i l) := by
  have htaken := hs.taken
  have hsum := sum_setLauncher Launcher.busy s i l
  rw [hi,hbusy] at hsum
  rw [pendingItems,hqueue] at htaken
  refine ⟨?_,fun hsent => ?_,fun hsent j => ?_,fun hsent => ?_,?_,?_⟩
  · rw [← htaken]
    cases head with
    | none => simp [setLauncher,pendingItems,Executor.todo]
    | some item => simp [setLauncher,pendingItems,Executor.todo]
  · have hplain := hs.plain hsent
    rw [hqueue] at hplain
    exact fun hmem => hplain (List.mem_cons_of_mem head hmem)
  · by_cases hj : j = i
    · rw [hj,setLauncher_self]
      exact hstays hsent
    · rw [setLauncher_ne _ l hj]
      exact hs.staying hsent j
  · have hjoined := hs.joined hsent
    rw [pendingItems,hqueue] at hjoined
    have htodo : s.todo = [] := (List.append_eq_nil_iff.mp hjoined).2
    cases head with
    | none => exact hjoined
    | some item => simp at hjoined
  · have hunfinished := hs.unfinished
    rw [hqueue,List.length_cons] at hunfinished
    change s.unfinished = queue.length + ∑ j, ((s.setLauncher i l).launchers j).busy
    have : Launcher.busy .waiting = 0 := rfl
    omega
  · exact hs.locked_same (by rw [hi]; rfl) hfree

/-- A launcher whose item or sentinel is done is counted among the unfinished ones. -/
theorem Accounts.unfinished_pos {i : Fin numLaunchers} (hs : Accounts workload s)
    (hi : (s.launchers i).busy = 1) : s.unfinished = s.unfinished - 1 + 1 := by
  have hle : (s.launchers i).busy ≤ ∑ j, (s.launchers j).busy :=
    Finset.single_le_sum (f := fun j => (s.launchers j).busy) (fun _ _ => Nat.zero_le _) (Finset.mem_univ i)
  have := hs.unfinished
  omega

theorem Accounts.step (hs : Accounts workload s) (h : step total s e = some t) : Accounts workload t := by
  cases stepped h with
  | @put item todo hmain =>
    have htodo : s.todo = item :: todo := by rw [Executor.todo,hmain]
    have hsent : s.sentinelsSent = false := by rw [sentinelsSent,hmain]
    refine ⟨?_,fun _ => ?_,fun _ => hs.staying hsent,fun hsent' => (by cases hsent'),?_,hs.locked⟩
    · rw [← hs.taken,pendingItems,pendingItems,htodo]
      simp [Executor.todo,List.reduceOption_append]
    · have := hs.plain hsent
      simpa using this
    · have := hs.unfinished
      rw [List.length_append]
      dsimp only [List.length_singleton]
      omega
  | endDispatch hmain =>
    have hsent : s.sentinelsSent = false := by rw [sentinelsSent,hmain]
    refine ⟨?_,fun _ => hs.plain hsent,fun _ => hs.staying hsent,fun hsent' => (by cases hsent'),
      hs.unfinished,hs.locked⟩
    rw [← hs.taken,pendingItems,pendingItems,Executor.todo,Executor.todo,hmain]
  | joinQueue hmain hnone =>
    have hunfinished := hs.unfinished
    have hqueue : s.queue = [] := List.length_eq_zero_iff.mp (by omega)
    refine ⟨?_,fun hsent => (by cases hsent),fun hsent => (by cases hsent),fun _ => ?_,hs.unfinished,hs.locked⟩
    · rw [← hs.taken,pendingItems,pendingItems,Executor.todo,Executor.todo,hmain]
    · rw [pendingItems,Executor.todo]
      exact List.append_eq_nil_iff.mpr ⟨by rw [hqueue]; rfl,rfl⟩
  | putSentinel hmain hn =>
    have hsent : s.sentinelsSent = true := by rw [sentinelsSent,hmain]
    have hpending : s.queue.reduceOption = [] := (List.append_eq_nil_iff.mp (hs.joined hsent)).1
    refine ⟨?_,fun hsent' => (by cases hsent'),fun hsent' => (by cases hsent'),fun _ => ?_,?_,hs.locked⟩
    · rw [← hs.taken,pendingItems,pendingItems,Executor.todo,Executor.todo,hmain]
      simp [List.reduceOption_append]
    · rw [pendingItems,Executor.todo]
      simp [List.reduceOption_append,hpending]
    · have := hs.unfinished
      rw [List.length_append]
      dsimp only [List.length_singleton]
      omega
  | endSentinels hmain hn => exact hs.finish (by rw [sentinelsSent,hmain]) rfl (by simp only [Executor.todo,hmain])
  | joinLaunchers hmain hgone => exact hs.finish (by rw [sentinelsSent,hmain]) rfl (by simp only [Executor.todo,hmain])
  | joinReaper hmain hended => exact hs.finish (by rw [sentinelsSent,hmain]) rfl (by simp only [Executor.todo,hmain])
  | getItem hi hqueue => exact hs.get hi hqueue rfl rfl (fun _ hf => by cases hf)
  | getSentinel hi hqueue =>
    have hget := hs.get (l := .leaving) hi hqueue rfl rfl (fun hsent _ => hs.plain hsent
      (by rw [hqueue]; exact List.mem_cons_self))
    simpa using hget
  | timeout hi =>
    exact hs.move rfl rfl rfl rfl (fun hf => by cases hf) (by rw [hi.1]; rfl)
      (hs.locked_same (by rw [hi.1]; rfl) rfl)
  | acquire hi hlock =>
    exact hs.move rfl rfl rfl rfl (fun hf => by cases hf) (by rw [hi]; rfl) (hs.locked_acquire hlock rfl)
  | popen hi hpid =>
    exact hs.move rfl rfl rfl rfl (fun hf => by cases hf) (by rw [hi]; rfl)
      (hs.locked_held (by rw [hi]; rfl) rfl)
  | popenRaises hi =>
    exact hs.move rfl rfl rfl rfl (fun hf => by cases hf) (by rw [hi]; rfl)
      (hs.locked_release (by rw [hi]; rfl) rfl)
  | insert hi =>
    exact hs.move rfl rfl rfl rfl (fun hf => by cases hf) (by rw [hi]; rfl)
      (hs.locked_release (by rw [hi]; rfl) rfl)
  | itemDone hi =>
    refine hs.move rfl rfl rfl rfl (fun hf => by cases hf) ?_ (hs.locked_same (by rw [hi]; rfl) rfl)
    rw [hi]
    exact (hs.unfinished_pos (by rw [hi]; rfl)).symm
  | sentinelDone hi =>
    refine hs.move rfl rfl rfl rfl (fun hf => by cases hf) ?_ (hs.locked_same (by rw [hi]; rfl) rfl)
    rw [hi]
    exact (hs.unfinished_pos (by rw [hi]; rfl)).symm
  | _ => exact ⟨hs.taken,hs.plain,hs.staying,hs.joined,hs.unfinished,hs.locked⟩

/-! ## A launcher that has not ended can serve the queue -/

/-- Without a step of `main`, launcher `i` can get back to the queue. -/
def FreesUp (total : ℕ) (i : Fin numLaunchers) (s : Executor) : Prop :=
  ∃ es t, run (step total) s es = some t ∧ t.launchers i = .waiting ∧
    t.queue = s.queue ∧ t.taken = s.taken ∧ t.main = s.main

theorem FreesUp.of_step {i : Fin numLaunchers} (hu : FreesUp total i t) (h : step total s e = some t)
    (hqueue : t.queue = s.queue) (htaken : t.taken = s.taken) (hmain : t.main = s.main) : FreesUp total i s := by
  obtain ⟨es,u,hr,hwaiting,hqueue',htaken',hmain'⟩ := hu
  exact ⟨e :: es,u,(run_cons_of_step h es).trans hr,hwaiting,hqueue'.trans hqueue,htaken'.trans htaken,
    hmain'.trans hmain⟩

theorem freesUp_of_finishing {i : Fin numLaunchers} (hi : s.launchers i = .finishing) : FreesUp total i s := by
  have hwaiting : FreesUp total i ({ s with unfinished := s.unfinished - 1 }.setLauncher i .waiting) :=
    ⟨[],_,rfl,setLauncher_self _ i _,rfl,rfl,rfl⟩
  exact hwaiting.of_step (e := .taskDone i) (by simp [step,launcherStep,hi]) rfl rfl rfl

theorem freesUp_of_forked {i : Fin numLaunchers} {item : Request} {proc : Child}
    (hi : s.launchers i = .forked item proc) : FreesUp total i s := by
  have henabled : ∃ t, step total s (.insert i) = some t := by simp [step,launcherStep,hi]
  obtain ⟨t,ht⟩ := henabled
  cases stepped ht with
  | insert _ => exact (freesUp_of_finishing (setLauncher_self _ i _)).of_step ht rfl rfl rfl

theorem freesUp_of_locked {i : Fin numLaunchers} {item : Request} (hi : s.launchers i = .locked item) :
    FreesUp total i s := by
  obtain ⟨pid,hpid⟩ := Infinite.exists_notMem_finset ((s.running + s.zombies).map Child.pid).toFinset
  rw [Multiset.mem_toFinset] at hpid
  have henabled : ∃ t, step total s (.popen i pid) = some t := by
    simp only [step,launcherStep,hi,if_neg hpid]
    exact ⟨_,rfl⟩
  obtain ⟨t,ht⟩ := henabled
  cases stepped ht with
  | popen _ _ => exact (freesUp_of_forked (setLauncher_self _ i _)).of_step ht rfl rfl rfl

theorem freesUp_of_taken {i : Fin numLaunchers} {item : Request} (hi : s.launchers i = .taken item)
    (hlock : s.lock = none) : FreesUp total i s := by
  have henabled : ∃ t, step total s (.acquire i) = some t := by simp [step,launcherStep,hi,hlock]
  obtain ⟨t,ht⟩ := henabled
  cases stepped ht with
  | acquire _ _ => exact (freesUp_of_locked (setLauncher_self _ i _)).of_step ht rfl rfl rfl

/-- A launcher that is kept from the lock leaves it to the one that holds it. -/
theorem Accounts.freesUp {i : Fin numLaunchers} (hs : Accounts workload s) (hsent : s.sentinelsSent = false)
    (hlive : s.launchers i ≠ .gone) : ∃ j, FreesUp total j s := by
  have hholder : ∀ j, s.lock = some j → FreesUp total j s := by
    intro j hj
    have hholds := (hs.locked j).mp hj
    cases hlauncher : s.launchers j with
    | locked item => exact freesUp_of_locked hlauncher
    | forked item proc => exact freesUp_of_forked hlauncher
    | _ => rw [hlauncher] at hholds; cases hholds
  cases hi : s.launchers i with
  | waiting => exact ⟨i,[],s,rfl,hi,rfl,rfl,rfl⟩
  | taken item =>
    cases hlock : s.lock with
    | none => exact ⟨i,freesUp_of_taken hi hlock⟩
    | some j => exact ⟨j,hholder j hlock⟩
  | locked item => exact ⟨i,freesUp_of_locked hi⟩
  | forked item proc => exact ⟨i,freesUp_of_forked hi⟩
  | finishing => exact ⟨i,freesUp_of_finishing hi⟩
  | leaving => exact absurd hi (hs.staying hsent i)
  | gone => exact absurd hi hlive

theorem Accounts.of_run {es : List ExecutorEvent} (hs : Accounts workload s)
    (hr : run (Executor.step total) s es = some t) : Accounts workload t :=
  run_invariant (fun _ _ _ hu => hu.step) hs hr

/-- Before the sentinels, one live launcher is enough for everything in the queue. -/
theorem Accounts.serves_queue {i : Fin numLaunchers} {queue : List (Option Request)}
    (hs : Accounts workload s) (hsent : s.sentinelsSent = false) (hlive : s.launchers i ≠ .gone)
    (hqueue : s.queue = queue) : ∃ es t, run (Executor.step total) s es = some t ∧ t.queue = [] ∧
      t.taken = s.taken ++ queue.reduceOption := by
  induction queue generalizing s i with
  | nil => exact ⟨[],s,rfl,hqueue,(List.append_nil _).symm⟩
  | cons head queue ih =>
    cases head with
    | none => exact absurd (by rw [hqueue]; exact List.mem_cons_self) (hs.plain hsent)
    | some item =>
      obtain ⟨j,es,u,hes,hwaiting,huqueue,hutaken,humain⟩ := hs.freesUp hsent hlive
      rw [hqueue] at huqueue
      have henabled : ∃ v, Executor.step total u (.get j) = some v := by
        simp [Executor.step,launcherStep,hwaiting,huqueue]
      obtain ⟨v,hget⟩ := henabled
      have hv := (hs.of_run hes).step hget
      cases stepped hget with
      | getSentinel _ hsentinel => cases huqueue.symm.trans hsentinel
      | getItem _ hitem =>
        cases huqueue.symm.trans hitem
        have hsent' : u.sentinelsSent = false := by rw [sentinelsSent,humain]; exact hsent
        have hlive' : (({ u with queue := queue, taken := u.taken ++ [item] }.setLauncher j
            (.taken item)).launchers j) ≠ .gone := by simp
        obtain ⟨fs,t,hfs,htqueue,httaken⟩ := ih hv hsent' hlive' rfl
        refine ⟨es ++ .get j :: fs,t,?_,htqueue,httaken.trans ?_⟩
        · rw [run_append_of_run hes,run_cons_of_step hget]
          exact hfs
        · change u.taken ++ [item] ++ queue.reduceOption = _
          rw [hutaken,List.append_assoc]
          rfl

/-! ## The workload is served -/

/-- As long as items are left and the sentinels are not sent, some launcher is there to take
them; what was taken is the first part of the workload, and all of it once the queue was
joined; and until then whatever is queued can be taken. -/
structure Serves (total : ℕ) (workload : List Request) (s : Executor) : Prop where
  live : s.sentinelsSent = false → s.pendingItems ≠ [] → ∃ i, s.launchers i ≠ .gone
  once : s.taken ++ s.pendingItems = workload
  joined : s.sentinelsSent = true → s.taken = workload
  served : s.sentinelsSent = false → ∃ es t, run (step total) s es = some t ∧ t.queue = [] ∧
    t.taken = s.taken ++ s.queue.reduceOption

/-- The last launcher does not give up while items are left. -/
def LastStays (s : Executor) : ExecutorEvent → Prop
  | .timeout i => (∀ j, j ≠ i → s.launchers j = .gone) → s.pendingItems = []
  | _ => True

theorem Accounts.serves_iff (hs : Accounts workload s) : Serves total workload s ↔
    (s.sentinelsSent = false → s.pendingItems ≠ [] → ∃ i, s.launchers i ≠ .gone) := by
  refine ⟨fun h => h.live,fun hlive => ⟨hlive,hs.taken,fun hsent => ?_,fun hsent => ?_⟩⟩
  · have htaken := hs.taken
    rwa [hs.joined hsent,List.append_nil] at htaken
  · by_cases hpending : s.pendingItems = []
    · have hqueue : s.queue.reduceOption = [] := (List.append_eq_nil_iff.mp hpending).1
      have hempty : s.queue = [] := by
        apply List.eq_nil_iff_forall_not_mem.mpr
        rintro (_ | item) hmem
        · exact hs.plain hsent hmem
        · have := List.reduceOption_mem_iff.mpr hmem
          rw [hqueue] at this
          cases this
      exact ⟨[],s,rfl,hempty,by rw [hqueue,List.append_nil]⟩
    · obtain ⟨i,hi⟩ := hlive hsent hpending
      exact hs.serves_queue hsent hi rfl

/-- Only a time-out takes a launcher out of service before the sentinels are sent. -/
theorem Accounts.live_step (hs : Accounts workload s)
    (hlive : s.sentinelsSent = false → s.pendingItems ≠ [] → ∃ i, s.launchers i ≠ .gone)
    (h : Executor.step total s e = some t) :
    (t.sentinelsSent = false → t.pendingItems ≠ [] → ∃ i, t.launchers i ≠ .gone) ↔ LastStays s e := by
  have hset : ∀ {u : Executor} {i : Fin numLaunchers} {l : Launcher}, l ≠ .gone →
      ∃ j, (u.setLauncher i l).launchers j ≠ .gone := fun {u i l} hl => ⟨i,by rw [setLauncher_self]; exact hl⟩
  cases stepped h with
  | put hmain =>
    refine iff_of_true (fun _ _ => hlive (by rw [sentinelsSent,hmain]) ?_) trivial
    rw [pendingItems,Executor.todo,hmain]
    exact List.append_ne_nil_of_right_ne_nil _ (List.cons_ne_nil _ _)
  | endDispatch hmain =>
    refine iff_of_true (fun _ hpending => hlive (by rw [sentinelsSent,hmain]) ?_) trivial
    rw [pendingItems,Executor.todo,hmain]
    exact hpending
  | joinQueue _ _ => exact iff_of_true (fun hsent => by cases hsent) trivial
  | putSentinel _ _ => exact iff_of_true (fun hsent => by cases hsent) trivial
  | endSentinels _ _ => exact iff_of_true (fun hsent => by cases hsent) trivial
  | joinLaunchers _ _ => exact iff_of_true (fun hsent => by cases hsent) trivial
  | joinReaper _ _ => exact iff_of_true (fun hsent => by cases hsent) trivial
  | @timeout i hi =>
    constructor
    · intro hlives hothers
      cases hsent : s.sentinelsSent with
      | true => exact hs.joined hsent
      | false =>
        by_contra hpending
        obtain ⟨j,hj⟩ := hlives hsent hpending
        by_cases hji : j = i
        · exact hj (by rw [hji,setLauncher_self])
        · exact hj (by rw [setLauncher_ne s _ hji]; exact hothers j hji)
    · intro hstays _ hpending
      by_contra hnone
      refine hpending (hstays (fun j hj => ?_))
      by_contra hgone
      exact hnone ⟨j,by rw [setLauncher_ne s _ hj]; exact hgone⟩
  | sentinelDone hi =>
    refine iff_of_true (fun hsent => ?_) trivial
    exact absurd hi (hs.staying hsent _)
  | getItem _ _ => exact iff_of_true (fun _ _ => hset (fun hf => by cases hf)) trivial
  | getSentinel _ _ => exact iff_of_true (fun _ _ => hset (fun hf => by cases hf)) trivial
  | acquire _ _ => exact iff_of_true (fun _ _ => hset (fun hf => by cases hf)) trivial
  | popen _ _ => exact iff_of_true (fun _ _ => hset (fun hf => by cases hf)) trivial
  | popenRaises _ => exact iff_of_true (fun _ _ => hset (fun hf => by cases hf)) trivial
  | insert _ => exact iff_of_true (fun _ _ => hset (fun hf => by cases hf)) trivial
  | itemDone _ => exact iff_of_true (fun _ _ => hset (fun hf => by cases hf)) trivial
  | _ => exact iff_of_true hlive trivial

/-- The launchers serve the whole workload exactly in the runs in which the last of them never
times out while items are left. -/
theorem launchers_outlive_iff (workload : List Request) (es : List ExecutorEvent) :
    Always (step workload.length) (Serves workload.length workload) (start workload) es ↔
      Along (step workload.length) LastStays (start workload) es := by
  have hstart : Serves workload.length workload (start workload) :=
    accounts_start.serves_iff.mpr (fun _ _ => ⟨0,fun hf => by cases hf⟩)
  apply always_iff_along (W := Accounts workload) (fun _ _ _ hs => hs.step) ?_ accounts_start hstart
  intro s e t hs hserves h
  exact (hs.step h).serves_iff.trans (hs.live_step (hs.serves_iff.mp hserves) h)

/-- One item, five seconds into the run. -/
def lateItem : Request := ⟨"30",0,5⟩

def quietStart : List ExecutorEvent :=
  [.timeout 0,.timeout 1,.timeout 2,.timeout 3,.put,.endDispatch]

/-- The launchers have ended before the first item comes, and `main` waits for it for ever. -/
theorem launchers_ended_early : ∃ s, run (step 1) (start [lateItem]) quietStart = some s ∧
    s.main = .joining ∧ s.queue = [some lateItem] ∧ s.unfinished = 1 ∧ (∀ i, s.launchers i = .gone) ∧
      ¬Serves 1 [lateItem] s := by
  have hgone : ∀ s, run (step 1) (start [lateItem]) quietStart = some s → ∀ i, s.launchers i = .gone := by
    rintro s ⟨⟩
    decide
  refine ⟨_,rfl,rfl,rfl,rfl,hgone _ rfl,fun h => ?_⟩
  obtain ⟨i,hi⟩ := h.live rfl (List.cons_ne_nil _ _)
  exact hi (hgone _ rfl i)

end Executor
end ServerlessSched.Loadgen
