import ServerlessSched.Loadgen.Collection

/-! # Does the executor come to its end?

Every step but the polling of the reaper brings one of the threads nearer to its end, so that
there are no more than a fixed number of them for each item. And as long as `main` has not come
to its end, one of the threads can take such a step.
-/
namespace ServerlessSched.Loadgen
open Runs

/-! ## What is left to do -/

def Launcher.weight : Launcher → ℕ
  | .taken _ => 9
  | .locked _ => 8
  | .forked _ _ => 3
  | .finishing => 2
  | .waiting | .leaving => 1
  | .gone => 0

def MainPc.weight : MainPc → ℕ
  | .dispatching todo => 10 * todo.length + 13
  | .joining => 12
  | .sending n => 2 * (numLaunchers - n) + 3
  | .joiningLaunchers => 2
  | .joiningReaper => 1
  | .done => 0

def ReaperPc.weight : ReaperPc → ℕ
  | .reaped _ => 2
  | .popped _ => 1
  | .testing | .waiting | .ended => 0

/-- The child whose entry or output the reaper is about to read. -/
def ReaperPc.procs : ReaperPc → Multiset Child
  | .reaped proc => {proc}
  | .popped info => {info.proc}
  | .testing | .waiting | .ended => 0

/-- An item or a sentinel in the queue. -/
def entryWeight (entry : Option Request) : ℕ := if entry.isSome then 9 else 1

/-- The reaper looks at its count, or sleeps because there is no child. -/
def ExecutorEvent.polls : ExecutorEvent → Bool
  | .test | .noChild => true
  | _ => false

namespace Executor
variable {total : ℕ} {workload : List Request} {s t : Executor} {e : ExecutorEvent}

/-- The steps that are left at most, polling apart. -/
def rank (s : Executor) : ℕ :=
  s.main.weight + (s.queue.map entryWeight).sum + ∑ i, (s.launchers i).weight + 4 * s.running.card +
    3 * s.zombies.card + s.reaper.weight

theorem rank_start (workload : List Request) : (start workload).rank = 10 * workload.length + 17 := by
  simp [rank,start,MainPc.weight,Launcher.weight,ReaperPc.weight]
  rfl

theorem rank_setLauncher (s : Executor) (i : Fin numLaunchers) (l : Launcher) :
    (s.setLauncher i l).rank + (s.launchers i).weight = s.rank + l.weight := by
  have hsum := sum_setLauncher Launcher.weight s i l
  simp only [rank,setLauncher] at hsum ⊢
  omega

/-- A launcher goes on, and what else changes is `u`. -/
theorem rank_move {u : Executor} {i : Fin numLaunchers} {l l' : Launcher} (hi : s.launchers i = l)
    (hu : u.launchers = s.launchers) (h : u.rank + l'.weight < s.rank + l.weight) : (u.setLauncher i l').rank < s.rank := by
  have hmove := rank_setLauncher u i l'
  rw [hu,hi] at hmove
  omega

theorem rank_of_polls (he : e.polls = true) (h : step total s e = some t) : t.rank = s.rank := by
  cases stepped h with
  | test hreaper =>
    simp only [rank,hreaper]
    split <;> rfl
  | noChild hreaper _ =>
    simp only [rank,hreaper]
    rfl
  | _ => cases he

/-- Every other step is one less to come. -/
theorem rank_lt (he : e.polls = false) (h : step total s e = some t) : t.rank < s.rank := by
  cases stepped h with
  | put hmain =>
    simp only [rank,hmain,MainPc.weight,List.map_append,List.sum_append,List.length_cons,List.map_cons,List.map_nil,
      List.sum_cons,List.sum_nil,entryWeight,Option.isSome_some,if_true]
    omega
  | endDispatch hmain =>
    simp only [rank,hmain,MainPc.weight,List.length_nil]
    omega
  | joinQueue hmain _ =>
    have : numLaunchers = 4 := rfl
    simp only [rank,hmain,MainPc.weight]
    omega
  | putSentinel hmain hn =>
    simp only [rank,hmain,MainPc.weight,List.map_append,List.sum_append,List.map_cons,List.map_nil,List.sum_cons,
      List.sum_nil,entryWeight]
    simp only [Option.isSome_none,Bool.false_eq_true,if_false]
    omega
  | endSentinels hmain _ =>
    simp only [rank,hmain,MainPc.weight]
    omega
  | joinLaunchers hmain _ =>
    simp only [rank,hmain,MainPc.weight]
    omega
  | joinReaper hmain _ =>
    simp only [rank,hmain,MainPc.weight]
    omega
  | getItem hi hqueue =>
    refine rank_move hi rfl ?_
    simp only [rank,hqueue,Launcher.weight,List.map_cons,List.sum_cons,entryWeight,Option.isSome_some,if_true]
    omega
  | getSentinel hi hqueue =>
    refine rank_move hi rfl ?_
    simp only [rank,hqueue,Launcher.weight,List.map_cons,List.sum_cons,entryWeight]
    simp only [Option.isSome_none,Bool.false_eq_true,if_false]
    omega
  | timeout hi => exact rank_move hi.1 rfl (Nat.lt_succ_self _)
  | acquire hi _ => exact rank_move hi rfl (Nat.lt_succ_self _)
  | popen hi _ =>
    refine rank_move hi rfl ?_
    simp only [rank,Launcher.weight,Multiset.card_cons]
    omega
  | popenRaises hi =>
    refine rank_move hi rfl ?_
    simp only [rank,Launcher.weight]
    omega
  | insert hi => exact rank_move hi rfl (Nat.lt_succ_self _)
  | itemDone hi => exact rank_move hi rfl (Nat.lt_succ_self _)
  | sentinelDone hi => exact rank_move hi rfl (Nat.lt_succ_self _)
  | exit hproc =>
    have hcard := Multiset.card_erase_add_one hproc
    simp only [rank,Multiset.card_cons]
    omega
  | reclaim hproc =>
    have hcard := Multiset.card_erase_add_one hproc.1
    simp only [rank]
    omega
  | wait hreaper hproc =>
    have hcard := Multiset.card_erase_add_one hproc
    simp only [rank,hreaper,ReaperPc.weight]
    omega
  | pop hreaper _ _ =>
    simp only [rank,hreaper,ReaperPc.weight]
    omega
  | popUnknown hreaper _ _ =>
    simp only [rank,hreaper,ReaperPc.weight]
    omega
  | write hreaper _ =>
    simp only [rank,hreaper,ReaperPc.weight]
    omega
  | test _ => cases he
  | noChild _ _ => cases he

/-- However the threads are interleaved, polling is all that can go on for ever. -/
theorem countP_add_rank_le {es : List ExecutorEvent} (hr : run (step total) s es = some t) :
    es.countP (fun e => !e.polls) + t.rank ≤ s.rank := by
  have hpays : ∀ (s : Executor) (e : ExecutorEvent) (t : Executor), True → True → step total s e = some t →
      True ∧ t.rank + (if (!e.polls) then 1 else 0) ≤ s.rank + if false then 1 else 0 := by
    intro s e t _ _ h
    refine ⟨trivial,?_⟩
    cases he : e.polls with
    | true => simpa using (rank_of_polls he h).le
    | false => simpa using Nat.succ_le_of_lt (rank_lt he h)
  obtain ⟨-,hpaid⟩ := run_potential (m := rank) (p := fun e => !e.polls) (q := fun _ => false) hpays trivial
    (along_of_forall fun _ _ _ => trivial) hr
  rw [List.countP_false,Function.const_apply] at hpaid
  omega

/-! ## No thread waits for ever -/

/-- No launch fails, no PID is given to two children, and the last launcher stays while items are left. -/
def Undisturbed (s : Executor) (e : ExecutorEvent) : Prop := CleanLaunch s e ∧ LastStays s e

/-- What keeps the threads going in a run without mishaps. -/
structure Alive (workload : List Request) (s : Executor) : Prop where
  tracked : Tracked workload s
  live : s.sentinelsSent = false → s.pendingItems ≠ [] → ∃ i, s.launchers i ≠ .gone
  exited : ∀ proc ∈ s.zombies + s.reaper.procs, s.stdout proc ≠ none
  left : s.main = .joiningReaper ∨ s.main = .done → ∀ i, s.launchers i = .gone

theorem alive_start (workload : List Request) : Alive workload (start workload) where
  tracked := tracked_start
  live _ _ := ⟨0,fun hf => by cases hf⟩
  exited proc h := by simp [start,ReaperPc.procs] at h
  left h := by rcases h with h | h <;> cases h

theorem Alive.exited_step (hs : Alive workload s) (h : step total s e = some t) :
    ∀ proc ∈ t.zombies + t.reaper.procs, t.stdout proc ≠ none := by
  have hexited := hs.exited
  have hzombies : ∀ proc ∈ s.zombies, s.stdout proc ≠ none :=
    fun proc hproc => hexited proc (Multiset.mem_add.mpr (Or.inl hproc))
  cases stepped h with
  | @exit p output hproc =>
    intro proc hmem
    change Function.update s.stdout p (some output) proc ≠ none
    by_cases hp : proc = p
    · rw [hp,Function.update_self]
      exact Option.some_ne_none _
    · rw [Function.update_of_ne hp]
      refine hexited proc ?_
      rw [Multiset.cons_add,Multiset.mem_cons] at hmem
      exact hmem.resolve_left hp
  | @wait p hreaper hproc =>
    intro proc hmem
    rcases Multiset.mem_add.mp hmem with hmem | hmem
    · exact hzombies proc (Multiset.mem_of_mem_erase hmem)
    · rw [Multiset.mem_singleton.mp hmem]
      exact hzombies p hproc
  | reclaim _ =>
    intro proc hmem
    refine hexited proc (Multiset.mem_add.mpr ((Multiset.mem_add.mp hmem).imp_left ?_))
    exact Multiset.mem_of_mem_erase
  | @pop p info hreaper hlock hinfo =>
    intro proc hmem
    rcases Multiset.mem_add.mp hmem with hmem | hmem
    · exact hzombies proc hmem
    · have hp : p ∈ s.unprocessed := by
        rw [unprocessed,hreaper]
        exact Multiset.mem_add.mpr (Or.inr (Multiset.mem_singleton_self p))
      cases hinfo.symm.trans (hs.tracked.entry_of_unlocked hlock hp)
      refine hexited proc (Multiset.mem_add.mpr (Or.inr ?_))
      rw [hreaper]
      exact hmem
  | test hreaper =>
    intro proc hmem
    refine hzombies proc ?_
    split at hmem
    · simpa [ReaperPc.procs] using hmem
    · simpa [ReaperPc.procs] using hmem
  | noChild _ _ => exact fun proc hmem => hzombies proc (by simpa [ReaperPc.procs] using hmem)
  | popUnknown _ _ _ => exact fun proc hmem => hzombies proc (by simpa [ReaperPc.procs] using hmem)
  | write _ _ => exact fun proc hmem => hzombies proc (by simpa [ReaperPc.procs] using hmem)
  | _ => exact hexited

theorem Alive.left_step (hs : Alive workload s) (h : step total s e = some t) :
    t.main = .joiningReaper ∨ t.main = .done → ∀ i, t.launchers i = .gone := by
  have hstays : ∀ {i : Fin numLaunchers} {l : Launcher}, l ≠ .gone → s.launchers i = l →
      ¬(s.main = .joiningReaper ∨ s.main = .done) := by
    intro i l hl hi hmain
    exact hl (hi.symm.trans (hs.left hmain i))
  cases stepped h with
  | put _ => exact fun hmain => by rcases hmain with hmain | hmain <;> cases hmain
  | endDispatch _ => exact fun hmain => by rcases hmain with hmain | hmain <;> cases hmain
  | joinQueue _ _ => exact fun hmain => by rcases hmain with hmain | hmain <;> cases hmain
  | putSentinel _ _ => exact fun hmain => by rcases hmain with hmain | hmain <;> cases hmain
  | endSentinels _ _ => exact fun hmain => by rcases hmain with hmain | hmain <;> cases hmain
  | joinLaunchers _ hgone => exact fun _ => hgone
  | joinReaper hmain _ => exact fun _ => hs.left (Or.inl hmain)
  | getItem hi _ => exact fun hmain => absurd hmain (hstays (fun hf => by cases hf) hi)
  | getSentinel hi _ => exact fun hmain => absurd hmain (hstays (fun hf => by cases hf) hi)
  | timeout hi => exact fun hmain => absurd hmain (hstays (fun hf => by cases hf) hi.1)
  | acquire hi _ => exact fun hmain => absurd hmain (hstays (fun hf => by cases hf) hi)
  | popen hi _ => exact fun hmain => absurd hmain (hstays (fun hf => by cases hf) hi)
  | popenRaises hi => exact fun hmain => absurd hmain (hstays (fun hf => by cases hf) hi)
  | insert hi => exact fun hmain => absurd hmain (hstays (fun hf => by cases hf) hi)
  | itemDone hi => exact fun hmain => absurd hmain (hstays (fun hf => by cases hf) hi)
  | sentinelDone hi => exact fun hmain => absurd hmain (hstays (fun hf => by cases hf) hi)
  | _ => exact hs.left

theorem Alive.step (hindex : workload.map Request.index = List.range workload.length) (hs : Alive workload s)
    (he : Undisturbed s e) (h : step workload.length s e = some t) : Alive workload t where
  tracked := hs.tracked.step hindex he.1 h
  live := (hs.tracked.accounts.live_step hs.live h).mpr he.2
  exited := hs.exited_step h
  left := hs.left_step h

/-- Some thread or child can take a step that is no polling. -/
def Goes (total : ℕ) (s : Executor) : Prop :=
  ∃ e t, Executor.step total s e = some t ∧ Undisturbed s e ∧ e.polls = false

theorem goes_of_locked {i : Fin numLaunchers} {item : Request} (hi : s.launchers i = .locked item) : Goes total s := by
  obtain ⟨pid,hpid⟩ := Infinite.exists_notMem_finset
    ((s.running + s.zombies + ↑s.launched).map Child.pid).toFinset
  rw [Multiset.mem_toFinset,Multiset.map_add,Multiset.mem_add,not_or] at hpid
  have henabled : ∃ t, Executor.step total s (.popen i pid) = some t := by
    simp only [Executor.step,launcherStep,hi,if_neg hpid.1]
    exact ⟨_,rfl⟩
  obtain ⟨t,ht⟩ := henabled
  exact ⟨_,t,ht,⟨hpid.2,trivial⟩,rfl⟩

theorem goes_of_forked {i : Fin numLaunchers} {item : Request} {proc : Child}
    (hi : s.launchers i = .forked item proc) : Goes total s :=
  ⟨.insert i,_,by simp only [Executor.step,launcherStep,hi]; rfl,⟨trivial,trivial⟩,rfl⟩

/-- A launcher that is kept from the lock leaves it to the one that holds it. -/
theorem Accounts.goes_of_busy (hs : Accounts workload s) {i : Fin numLaunchers} (hbusy : (s.launchers i).busy = 1) :
    Goes total s := by
  cases hi : s.launchers i with
  | waiting =>
    rw [hi] at hbusy
    cases hbusy
  | gone =>
    rw [hi] at hbusy
    cases hbusy
  | locked item => exact goes_of_locked hi
  | forked item proc => exact goes_of_forked hi
  | finishing => exact ⟨.taskDone i,_,by simp only [Executor.step,launcherStep,hi]; rfl,⟨trivial,trivial⟩,rfl⟩
  | leaving => exact ⟨.taskDone i,_,by simp only [Executor.step,launcherStep,hi]; rfl,⟨trivial,trivial⟩,rfl⟩
  | taken item =>
    cases hlock : s.lock with
    | none => exact ⟨.acquire i,_,by simp only [Executor.step,launcherStep,hi,hlock]; rfl,⟨trivial,trivial⟩,rfl⟩
    | some j =>
      have hholds := (hs.locked j).mp hlock
      cases hj : s.launchers j with
      | locked item => exact goes_of_locked hj
      | forked item proc => exact goes_of_forked hj
      | _ => rw [hj] at hholds; cases hholds

/-- A launcher that waits takes what is in the queue. -/
theorem goes_of_get {i : Fin numLaunchers} {head : Option Request} {queue : List (Option Request)}
    (hi : s.launchers i = .waiting) (hqueue : s.queue = head :: queue) : Goes total s := by
  cases head with
  | some item => exact ⟨.get i,_,by simp only [Executor.step,launcherStep,hi,hqueue]; rfl,⟨trivial,trivial⟩,rfl⟩
  | none => exact ⟨.get i,_,by simp only [Executor.step,launcherStep,hi,hqueue]; rfl,⟨trivial,trivial⟩,rfl⟩

theorem Launcher.busy_or_waiting {l : Launcher} (h : l ≠ .gone) : l.busy = 1 ∨ l = .waiting := by
  cases l with
  | waiting => exact Or.inr rfl
  | gone => exact absurd rfl h
  | _ => exact Or.inl rfl

/-- While `main` waits for the queue, somebody works on it. -/
theorem Alive.goes_of_joining (hs : Alive workload s) (hmain : s.main = .joining) : Goes total s := by
  have hsent : s.sentinelsSent = false := by rw [sentinelsSent,hmain]
  by_cases hnone : s.unfinished = 0
  · exact ⟨.joinQueue,_,by simp only [Executor.step,mainStep,hmain,if_pos hnone]; rfl,⟨trivial,trivial⟩,rfl⟩
  by_cases hbusy : ∃ i, (s.launchers i).busy = 1
  · obtain ⟨i,hi⟩ := hbusy
    exact hs.tracked.accounts.goes_of_busy hi
  · have hidle : ∑ i, (s.launchers i).busy = 0 := by
      apply Finset.sum_eq_zero
      intro i _
      have hi : (s.launchers i).busy ≠ 1 := fun hf => hbusy ⟨i,hf⟩
      cases hl : s.launchers i with
      | waiting => rfl
      | gone => rfl
      | _ => rw [hl] at hi; exact absurd rfl hi
    have hunfinished := hs.tracked.accounts.unfinished
    rw [hidle,Nat.add_zero] at hunfinished
    obtain ⟨head,queue,hqueue⟩ := List.exists_cons_of_length_pos (by omega : 0 < s.queue.length)
    have hpending : s.pendingItems ≠ [] := by
      cases head with
      | none => exact absurd (hqueue ▸ List.mem_cons_self) (hs.tracked.accounts.plain hsent)
      | some item =>
        rw [pendingItems,hqueue]
        exact List.cons_ne_nil _ _
    obtain ⟨i,hi⟩ := hs.live hsent hpending
    exact goes_of_get ((Launcher.busy_or_waiting hi).resolve_left (fun hf => hbusy ⟨i,hf⟩)) hqueue

/-- A launcher that finds neither an item nor a sentinel gives up. -/
theorem Alive.goes_of_joiningLaunchers (hs : Alive workload s) (hmain : s.main = .joiningLaunchers) : Goes total s := by
  by_cases hgone : ∀ i, s.launchers i = .gone
  · exact ⟨.joinLaunchers,_,by simp only [Executor.step,mainStep,hmain,if_pos hgone]; rfl,⟨trivial,trivial⟩,rfl⟩
  obtain ⟨i,hi⟩ := not_forall.mp hgone
  rcases Launcher.busy_or_waiting hi with hbusy | hwaiting
  · exact hs.tracked.accounts.goes_of_busy hbusy
  · cases hqueue : s.queue with
    | cons head queue => exact goes_of_get hwaiting hqueue
    | nil =>
      have hpending : s.pendingItems = [] := hs.tracked.accounts.joined (by rw [sentinelsSent,hmain])
      exact ⟨.timeout i,_,by simp only [Executor.step,launcherStep,if_pos (And.intro hwaiting hqueue)]; rfl,
        ⟨trivial,fun _ => hpending⟩,rfl⟩

/-- With the launchers gone, what is not collected yet is with a child or with the reaper. -/
theorem Alive.goes_of_joiningReaper (hs : Alive workload s) (hmain : s.main = .joiningReaper)
    (htesting : s.reaper ≠ .testing) : Goes workload.length s := by
  have hgone := hs.left (Or.inl hmain)
  have hlock : s.lock = none := by
    by_contra hheld
    obtain ⟨i,hi⟩ := Option.ne_none_iff_exists'.mp hheld
    have hholds := (hs.tracked.accounts.locked i).mp hi
    rw [hgone i] at hholds
    cases hholds
  cases hreaper : s.reaper with
  | testing => exact absurd hreaper htesting
  | ended => exact ⟨.joinReaper,_,by simp only [Executor.step,mainStep,hmain,if_pos hreaper]; rfl,⟨trivial,trivial⟩,rfl⟩
  | reaped proc =>
    have hproc : proc ∈ s.unprocessed := by
      rw [unprocessed,hreaper]
      exact Multiset.mem_add.mpr (Or.inr (Multiset.mem_singleton_self proc))
    have hinfo := hs.tracked.entry_of_unlocked hlock hproc
    exact ⟨.pop,_,by simp only [Executor.step,reaperStep,hreaper,hlock,hinfo]; rfl,⟨trivial,trivial⟩,rfl⟩
  | popped info =>
    have hread : s.stdout info.proc ≠ none := by
      apply hs.exited
      rw [hreaper]
      exact Multiset.mem_add.mpr (Or.inr (Multiset.mem_singleton_self _))
    obtain ⟨output,houtput⟩ := Option.ne_none_iff_exists'.mp hread
    exact ⟨.write 0,_,by simp only [Executor.step,reaperStep,hreaper,houtput]; rfl,⟨trivial,trivial⟩,rfl⟩
  | waiting =>
    by_cases hzombies : s.zombies = 0
    · by_cases hrunning : s.running = 0
      · -- nothing is left, so that the count is full
        have hpending : s.pendingItems = [] := hs.tracked.accounts.joined (by rw [sentinelsSent,hmain])
        have hplaced := congrArg Multiset.card hs.tracked.placed
        have hheld : ∑ i, (s.launchers i).held = 0 := Finset.sum_eq_zero (fun i _ => by rw [hgone i]; rfl)
        rw [uncollected,hpending,hheld,hrunning,hzombies,hreaper] at hplaced
        have hlt := hs.tracked.waiting hreaper
        have hcount := hs.tracked.counted
        simp [ReaperPc.items] at hplaced
        omega
      · obtain ⟨proc,hproc⟩ := Multiset.exists_mem_of_ne_zero hrunning
        exact ⟨.exit proc "",_,by simp only [Executor.step,kernelStep,if_pos hproc]; rfl,⟨trivial,trivial⟩,rfl⟩
    · obtain ⟨proc,hproc⟩ := Multiset.exists_mem_of_ne_zero hzombies
      exact ⟨.wait proc,_,by simp only [Executor.step,reaperStep,hreaper,if_pos hproc]; rfl,⟨trivial,trivial⟩,rfl⟩

section Runs
variable (hindex : workload.map Request.index = List.range workload.length)
include hindex

/-- As long as `main` has not come to its end, some thread goes on, if need be after the reaper
has looked at its count. -/
theorem Alive.goes (hs : Alive workload s) (hmain : s.main ≠ .done) : Goes workload.length s ∨
    ∃ u, Executor.step workload.length s .test = some u ∧ Goes workload.length u := by
  cases hpc : s.main with
  | dispatching todo =>
    cases todo with
    | nil => exact Or.inl ⟨.endDispatch,_,by simp only [Executor.step,mainStep,hpc]; rfl,⟨trivial,trivial⟩,rfl⟩
    | cons item todo => exact Or.inl ⟨.put,_,by simp only [Executor.step,mainStep,hpc]; rfl,⟨trivial,trivial⟩,rfl⟩
  | joining => exact Or.inl (hs.goes_of_joining hpc)
  | sending n =>
    by_cases hn : n < numLaunchers
    · exact Or.inl ⟨.putSentinel,_,by simp only [Executor.step,mainStep,hpc,if_pos hn]; rfl,⟨trivial,trivial⟩,rfl⟩
    · exact Or.inl ⟨.putSentinel,_,by simp only [Executor.step,mainStep,hpc,if_neg hn]; rfl,⟨trivial,trivial⟩,rfl⟩
  | joiningLaunchers => exact Or.inl (hs.goes_of_joiningLaunchers hpc)
  | joiningReaper =>
    by_cases htesting : s.reaper = .testing
    · obtain ⟨u,hu⟩ : ∃ u, Executor.step workload.length s .test = some u := by
        simp only [Executor.step,reaperStep,htesting]
        exact ⟨_,rfl⟩
      have htest : Undisturbed s .test := ⟨trivial,trivial⟩
      have halive : Alive workload u := hs.step hindex htest hu
      refine Or.inr ⟨u,hu,?_⟩
      cases stepped hu with
      | test _ =>
        refine halive.goes_of_joiningReaper hpc ?_
        dsimp only
        split <;> exact fun hf => by cases hf
    · exact Or.inl (hs.goes_of_joiningReaper hpc htesting)
  | done => exact absurd hpc hmain

/-- From every state of a run without mishaps there is a way to the end. -/
theorem Alive.finishes (hs : Alive workload s) : ∃ es t, run (Executor.step workload.length) s es = some t ∧
    Along (Executor.step workload.length) Undisturbed s es ∧ t.main = .done := by
  induction hn : s.rank using Nat.strong_induction_on generalizing s with
  | h n ih =>
    by_cases hmain : s.main = .done
    · exact ⟨[],s,rfl,trivial,hmain⟩
    have hgo : ∀ u : Executor, Alive workload u → u.rank ≤ s.rank → Goes workload.length u →
        ∃ es t, run (Executor.step workload.length) u es = some t ∧
          Along (Executor.step workload.length) Undisturbed u es ∧ t.main = .done := by
      rintro u hu hle ⟨e,v,hv,he,hpolls⟩
      have hlt : v.rank < n := by
        have := rank_lt hpolls hv
        omega
      obtain ⟨es,t,hr,halong,hdone⟩ := ih v.rank hlt (hu.step hindex he hv) rfl
      refine ⟨e :: es,t,(run_cons_of_step hv es).trans hr,fun v' hv' => ?_,hdone⟩
      cases hv.symm.trans hv'
      exact ⟨he,halong⟩
    rcases hs.goes hindex hmain with hgoes | ⟨u,hu,hgoes⟩
    · exact hgo s hs le_rfl hgoes
    · have htest : Undisturbed s .test := ⟨trivial,trivial⟩
      have halive : Alive workload u := hs.step hindex htest hu
      obtain ⟨es,t,hr,halong,hdone⟩ := hgo u halive (rank_of_polls rfl hu).le hgoes
      refine ⟨.test :: es,t,(run_cons_of_step hu es).trans hr,fun u' hu' => ?_,hdone⟩
      cases hu.symm.trans hu'
      exact ⟨htest,halong⟩

end Runs

/-- There are only so many steps beside polling in any run. And in a run without mishaps one of
them can be taken until `main` is at its end, and leads there. -/
structure ComesToEnd (workload : List Request) (es : List ExecutorEvent) (s : Executor) : Prop where
  bounded : es.countP (fun e => !e.polls) ≤ 10 * workload.length + 17
  goes : Along (Executor.step workload.length) Undisturbed (start workload) es → s.main ≠ .done →
    Goes workload.length s ∨ ∃ u, Executor.step workload.length s .test = some u ∧ Goes workload.length u
  finishes : Along (Executor.step workload.length) Undisturbed (start workload) es →
    ∃ fs t, run (Executor.step workload.length) s fs = some t ∧
      Along (Executor.step workload.length) Undisturbed s fs ∧ t.main = .done

theorem alive_of_run {es : List ExecutorEvent} (hindex : workload.map Request.index = List.range workload.length)
    (hr : run (Executor.step workload.length) (start workload) es = some s)
    (hundisturbed : Along (Executor.step workload.length) Undisturbed (start workload) es) : Alive workload s := by
  have halways : Always (Executor.step workload.length) (Alive workload) (start workload) es :=
    always_of_along (fun _ _ _ hs he h => hs.step hindex he h) (alive_start workload) hundisturbed
  exact always_iff_visited.mp halways es s List.prefix_rfl hr

theorem executor_ends {es : List ExecutorEvent} (hindex : workload.map Request.index = List.range workload.length)
    (hr : run (Executor.step workload.length) (start workload) es = some s) : ComesToEnd workload es s := by
  have hcount := countP_add_rank_le hr
  rw [rank_start] at hcount
  exact ⟨by omega,fun hC => (alive_of_run hindex hr hC).goes hindex,
    fun hC => (alive_of_run hindex hr hC).finishes hindex⟩

/-- Two items, launched while two other launchers have given up. -/
def twoLaunched : List ExecutorEvent :=
  [.timeout 2,.timeout 3,.put,.put,.get 1,.get 0,.acquire 0,.popen 0 100,.insert 0,.acquire 1,.popen 1 101]

theorem executor_ends_two : ∃ s, run (step 2) (start [lateItem,nextItem]) twoLaunched = some s ∧
    Along (step 2) Undisturbed (start [lateItem,nextItem]) twoLaunched ∧
    ComesToEnd [lateItem,nextItem] twoLaunched s := by
  have hundisturbed : Along (step 2) Undisturbed (start [lateItem,nextItem]) twoLaunched := by
    refine .cons rfl ⟨trivial,fun h => absurd (h 0 (by decide)) (fun hf => by cases hf)⟩ ?_
    refine .cons rfl ⟨trivial,fun h => absurd (h 0 (by decide)) (fun hf => by cases hf)⟩ ?_
    refine .cons rfl ⟨trivial,trivial⟩ (.cons rfl ⟨trivial,trivial⟩ (.cons rfl ⟨trivial,trivial⟩ ?_))
    refine .cons rfl ⟨trivial,trivial⟩ (.cons rfl ⟨trivial,trivial⟩ (.cons rfl ⟨List.not_mem_nil,trivial⟩ ?_))
    refine .cons rfl ⟨trivial,trivial⟩ (.cons rfl ⟨trivial,trivial⟩ (.cons rfl ⟨?_,trivial⟩ trivial))
    exact List.not_mem_cons_of_ne_of_not_mem (by decide) List.not_mem_nil
  have hindex : [lateItem,nextItem].map Request.index = List.range [lateItem,nextItem].length := rfl
  exact ⟨_,rfl,hundisturbed,executor_ends hindex rfl⟩

end Executor
end ServerlessSched.Loadgen
