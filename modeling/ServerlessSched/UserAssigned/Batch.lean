import ServerlessSched.UserAssigned.DecisionStream
import Mathlib.Tactic.SplitIfs

/-! # A batch moves a prefix

`dispatch_batch` ends at the end of the batch, at the end of the list or at a map without
room. In each case it has moved a prefix of the list into the map, and a task whose decision
the map refuses is left as it was.
-/
namespace ServerlessSched.UserAssigned

namespace UserSide

/-- The first `m` listed tasks went into the map; nothing else has happened to the map, the
list, the flags, the slices and the counters, up to those of failed pushes and of what the
BPF component is shown. -/
structure Transferred (m : ℕ) (s t : UserSide) : Prop where
  items : t.link.dispatched.items = s.link.dispatched.items ++ (decisions s.daemon).take m
  list : t.daemon.dispatchHead = s.daemon.dispatchHead.drop m
  queued : ∀ pid, (t.daemon.tasks pid).isQueued = true ↔
    (s.daemon.tasks pid).isQueued = true ∧ pid ∉ s.daemon.dispatchHead.take m
  slices : ∀ pid, (t.daemon.tasks pid).slice = (s.daemon.tasks pid).slice
  nrDispatches : t.daemon.nrDispatches = s.daemon.nrDispatches + UInt64.ofNat m
  nrCurrEnqueued : t.daemon.nrCurrEnqueued = s.daemon.nrCurrEnqueued - UInt64.ofNat m
  counters : t.daemon.nrKernelToUserEnqueues = s.daemon.nrKernelToUserEnqueues ∧
    t.daemon.failedToGetCmdline = s.daemon.failedToGetCmdline ∧
    t.daemon.nrTasksAssignedSlice = s.daemon.nrTasksAssignedSlice ∧ t.daemon.exitReq = s.daemon.exitReq
  link : t.link.enqueued = s.link.enqueued ∧ t.link.nrUserspaceQueued = s.link.nrUserspaceQueued ∧
    t.link.userschedNeeded = s.link.userschedNeeded ∧ t.link.wakeRingbuf = s.link.wakeRingbuf

/-- What the map can still take. -/
def capacity (s : UserSide) : ℕ := maxEnqueuedTasks - s.link.dispatched.items.length

/-- How many tasks a batch moves. -/
def moved (rounds : ℕ) (s : UserSide) : ℕ := min (min rounds s.daemon.dispatchHead.length) s.capacity

variable {m : ℕ} {s t u : UserSide}

theorem transferred_zero (hdaemon : t.daemon.dispatchHead = s.daemon.dispatchHead ∧
      t.daemon.tasks = s.daemon.tasks ∧ t.daemon.nrDispatches = s.daemon.nrDispatches ∧
      t.daemon.nrCurrEnqueued = s.daemon.nrCurrEnqueued)
    (hcounters : t.daemon.nrKernelToUserEnqueues = s.daemon.nrKernelToUserEnqueues ∧
      t.daemon.failedToGetCmdline = s.daemon.failedToGetCmdline ∧
      t.daemon.nrTasksAssignedSlice = s.daemon.nrTasksAssignedSlice ∧ t.daemon.exitReq = s.daemon.exitReq)
    (hlink : t.link = s.link) : Transferred 0 s t := by
  obtain ⟨hlist,htasks,hdispatches,hcount⟩ := hdaemon
  exact ⟨by simp [hlink],by simp [hlist],by simp [htasks],by simp [htasks],by simp [hdispatches],
    by simp [hcount],hcounters,by simp [hlink]⟩

/-- A round that goes on has moved the first task. -/
theorem transferred_dispatchRound (h : s.dispatchRound true = (t,true)) :
    ∃ pid rest, s.daemon.dispatchHead = pid :: rest ∧ s.link.dispatched.HasRoom ∧ Transferred 1 s t := by
  rcases dispatchRound_cases true s with ⟨-,hr⟩ | ⟨pid,rest,hhead,⟨-,hr⟩ | ⟨-,q,hq,hr⟩⟩
  · rw [hr] at h; cases h
  · rw [hr] at h; cases h
  · rw [hr] at h
    cases h
    obtain ⟨hroom,hitems⟩ := BoundedQueue.push_eq_some.mp hq
    refine ⟨pid,rest,hhead,hroom,⟨?_,?_,fun n => ?_,fun n => ?_,rfl,rfl,⟨rfl,rfl,rfl,rfl⟩,⟨rfl,rfl,rfl,rfl⟩⟩⟩
    · simp [hitems,decisions,hhead]
    · simp [hhead]
    all_goals
      by_cases hn : n = pid
      · subst hn
        simp [hhead]
      · simp [hhead,hn]

theorem Transferred.trans {m' : ℕ} (h : Transferred m s t) (h' : Transferred m' t u) :
    Transferred (m + m') s u where
  items := by
    have hdec : decisions t.daemon = (decisions s.daemon).drop m := by
      simp [decisions,h.list,h.slices,List.map_drop]
    rw [h'.items,h.items,hdec,List.append_assoc,← List.take_add]
  list := by rw [h'.list,h.list,List.drop_drop]
  queued pid := by
    rw [h'.queued,h.queued,h.list,List.take_add,List.mem_append,not_or,and_assoc]
  slices pid := (h'.slices pid).trans (h.slices pid)
  nrDispatches := by rw [h'.nrDispatches,h.nrDispatches,UInt64.ofNat_add,UInt64.add_assoc]
  nrCurrEnqueued := by
    rw [h'.nrCurrEnqueued,h.nrCurrEnqueued,UInt64.ofNat_add]
    grind
  counters := by
    obtain ⟨henq,hcmd,hslice,hexit⟩ := h.counters
    obtain ⟨henq',hcmd',hslice',hexit'⟩ := h'.counters
    exact ⟨henq'.trans henq,hcmd'.trans hcmd,hslice'.trans hslice,hexit'.trans hexit⟩
  link := by
    obtain ⟨henq,hqueued,hneeded,hwake⟩ := h.link
    obtain ⟨henq',hqueued',hneeded',hwake'⟩ := h'.link
    exact ⟨henq'.trans henq,hqueued'.trans hqueued,hneeded'.trans hneeded,hwake'.trans hwake⟩

theorem moved_succ {pid : ℕ} {rest : List ℕ} (rounds : ℕ) (hhead : s.daemon.dispatchHead = pid :: rest)
    (hroom : s.link.dispatched.HasRoom) (h : Transferred 1 s t) : moved (rounds + 1) s = 1 + moved rounds t ∧
      (moved (rounds + 1) s < min (rounds + 1) s.daemon.dispatchHead.length ↔
        moved rounds t < min rounds t.daemon.dispatchHead.length) := by
  have hlist := congrArg List.length h.list
  have hitems := congrArg List.length h.items
  have hlen := congrArg List.length hhead
  simp only [decisions,List.length_append,List.length_take,List.length_map,List.length_drop,
    List.length_cons] at hlist hitems hlen
  unfold BoundedQueue.HasRoom at hroom
  unfold moved capacity
  omega

/-- The loop, by induction on the rounds left: a round moves the head of the list, or the loop
ends with nothing moved. -/
theorem dispatchRounds_transferred (rounds : ℕ) (s : UserSide) :
    Transferred (moved rounds s) s (dispatchRounds (fun _ => true) rounds s) ∧
      (dispatchRounds (fun _ => true) rounds s).daemon.nrDispatchesFailed = s.daemon.nrDispatchesFailed +
        if moved rounds s < min rounds s.daemon.dispatchHead.length then 1 else 0 := by
  induction rounds generalizing s with
  | zero =>
    have hzero : moved 0 s = 0 := by simp [moved]
    rw [hzero]
    exact ⟨transferred_zero ⟨rfl,rfl,rfl,rfl⟩ ⟨rfl,rfl,rfl,rfl⟩ rfl,by simp [dispatchRounds]⟩
  | succ rounds ih =>
    unfold dispatchRounds
    split
    case h_1 t ht =>
      obtain ⟨pid,rest,hhead,hroom,hmove⟩ := transferred_dispatchRound ht
      obtain ⟨hmoved,hfailed⟩ := moved_succ rounds hhead hroom hmove
      obtain ⟨htail,hcount⟩ := ih t
      have hround : t.daemon.nrDispatchesFailed = s.daemon.nrDispatchesFailed := by
        rcases dispatchRound_cases true s with ⟨-,hr⟩ | ⟨_,_,-,⟨-,hr⟩ | ⟨-,q,-,hr⟩⟩
        all_goals
          rw [hr] at ht
          cases ht
        rfl
      constructor
      · rw [hmoved]
        exact hmove.trans htail
      · rw [hcount,hround]
        simp only [hfailed]
    case h_2 t ht =>
      rcases dispatchRound_cases true s with ⟨hnil,hr⟩ | ⟨pid,rest,hhead,⟨hfull,hr⟩ | ⟨-,q,-,hr⟩⟩
      all_goals
        rw [hr] at ht
        cases ht
      · have hzero : moved (rounds + 1) s = 0 := by simp [moved,hnil]
        rw [hzero]
        exact ⟨transferred_zero ⟨rfl,rfl,rfl,rfl⟩ ⟨rfl,rfl,rfl,rfl⟩ rfl,by simp [hnil]⟩
      · have hroom : ¬s.link.dispatched.HasRoom := hfull.resolve_left (by simp)
        have hzero : moved (rounds + 1) s = 0 := by
          unfold BoundedQueue.HasRoom at hroom
          unfold moved capacity
          omega
        rw [hzero]
        exact ⟨transferred_zero ⟨rfl,rfl,rfl,rfl⟩ ⟨rfl,rfl,rfl,rfl⟩ rfl,by simp [hhead]⟩

/-- What is left of the list starts with the task whose push failed, untouched. -/
theorem Transferred.left_alone {pid : ℕ} (h : Transferred m s t) (hs : s.daemon.Consistent)
    (hpid : s.daemon.dispatchHead[m]? = some pid) : t.daemon.dispatchHead.head? = some pid ∧
      t.daemon.tasks pid = s.daemon.tasks pid ∧ (t.daemon.tasks pid).isQueued = true := by
  have hhead : t.daemon.dispatchHead.head? = some pid := by
    rw [h.list,List.head?_drop]
    exact hpid
  have hmem : pid ∈ s.daemon.dispatchHead := List.mem_of_getElem? hpid
  have hrest : pid ∉ s.daemon.dispatchHead.take m := by
    intro htaken
    have hdrop : pid ∈ s.daemon.dispatchHead.drop m := by
      rw [h.list] at hhead
      exact List.mem_of_mem_head? hhead
    have hnodup := hs.nodup
    rw [← List.take_append_drop m s.daemon.dispatchHead] at hnodup
    exact List.disjoint_of_nodup_append hnodup htaken hdrop
  have hflag := (hs.queued_iff pid).mpr hmem
  have hqueued : (t.daemon.tasks pid).isQueued = true := (h.queued pid).mpr ⟨hflag,hrest⟩
  refine ⟨hhead,?_,hqueued⟩
  have hslice := h.slices pid
  cases htask : t.daemon.tasks pid
  cases htask' : s.daemon.tasks pid
  simp_all

/-- `dispatch_batch` moves the longest prefix that the batch, the list and the map allow, and
counts a failure when it was the map that ended it. -/
theorem dispatchBatch_transferred (batchSize : UInt32) (s : UserSide) :
    Transferred (moved batchSize.toNat s) s (s.dispatchBatch batchSize fun _ => true) ∧
      ((s.dispatchBatch batchSize fun _ => true).daemon.nrDispatchesFailed = s.daemon.nrDispatchesFailed +
        if moved batchSize.toNat s < min batchSize.toNat s.daemon.dispatchHead.length then 1 else 0) ∧
      (s.dispatchBatch batchSize fun _ => true).link.nrUserspaceScheduled =
        (s.dispatchBatch batchSize fun _ => true).daemon.nrCurrEnqueued ∧
      (moved batchSize.toNat s < min batchSize.toNat s.daemon.dispatchHead.length → s.daemon.Consistent →
        ∃ pid, s.daemon.dispatchHead[moved batchSize.toNat s]? = some pid ∧
          (s.dispatchBatch batchSize fun _ => true).daemon.dispatchHead.head? = some pid ∧
          (s.dispatchBatch batchSize fun _ => true).daemon.tasks pid = s.daemon.tasks pid ∧
          ((s.dispatchBatch batchSize fun _ => true).daemon.tasks pid).isQueued = true) := by
  obtain ⟨hloop,hfailed⟩ := dispatchRounds_transferred batchSize.toNat s
  have hbatch : Transferred (moved batchSize.toNat s) s (s.dispatchBatch batchSize fun _ => true) :=
    ⟨hloop.items,hloop.list,hloop.queued,hloop.slices,hloop.nrDispatches,hloop.nrCurrEnqueued,
      hloop.counters,hloop.link⟩
  refine ⟨hbatch,hfailed,rfl,fun hlt hs => ?_⟩
  obtain ⟨pid,hpid⟩ : ∃ pid, s.daemon.dispatchHead[moved batchSize.toNat s]? = some pid := by
    rw [← Option.isSome_iff_exists,isSome_getElem?]
    omega
  exact ⟨pid,hpid,hbatch.left_alone hs hpid⟩

end UserSide
end ServerlessSched.UserAssigned
