import ServerlessSched.UserAssigned.Board
import ServerlessSched.UserAssigned.DecisionStream

/-! # The component and the daemon together

The kernel's events interleave with the rounds of the daemon's two loops. The daemon
reads the command line of the process that holds a record's PID at the time of the read.
-/
namespace ServerlessSched.UserAssigned
open Runs

structure Machine where
  sched : KernelSide
  daemon : Daemon

/-- The daemon's PID and the length of its task array. -/
structure Config where
  userschedPid : ℕ
  pidMax : ℕ

/-- A round of a daemon loop takes place between two events of the kernel. `readable` and
`ok` are the answers of `/proc` and of the map update. -/
inductive MachineEvent
  | kernel (e : KernelEvent)
  | drain (readable : Bool)
  | dispatch (ok : Bool)
  | endBatch

namespace Machine

def start (k : Kern TaskCtx) : Machine := ⟨KernelSide.start k,.start⟩

def link (s : Machine) : Link := s.sched.bss.link

def kern (s : Machine) : Kern TaskCtx := s.sched.kern

def userSide (s : Machine) : UserSide := ⟨s.link,s.daemon⟩

def setUserSide (s : Machine) (u : UserSide) : Machine := ⟨s.sched.setLink u.link,u.daemon⟩

/-- `/proc/<pid>/cmdline`: the argument area of the process that holds the PID. -/
def procCmdline (s : Machine) (pid : ℕ) : Option (List UInt8) :=
  (s.kern.pids.holder pid).bind (fun p => (s.kern.task p).mm.argArea)

def cmdlineRead (s : Machine) (readable : Bool) : Option (List UInt8) :=
  if readable then s.link.enqueued.items.head?.bind s.procCmdline else none

def step (cfg : Config) (s : Machine) : MachineEvent → Option Machine
  | .kernel e => ((serverlessOps cfg.userschedPid).step s.sched e).map (fun t => { s with sched := t })
  | .drain readable =>
    some (s.setUserSide (s.userSide.drainRound cfg.pidMax (s.cmdlineRead readable)).1)
  | .dispatch ok => some (s.setUserSide (s.userSide.dispatchRound ok).1)
  | .endBatch => some (s.setUserSide s.userSide.endBatch)

def board (s : Machine) : Board := s.sched.board

/-- The PIDs of the records and decisions under way, from the kernel's push to its pop. -/
def pendingPids (s : Machine) : List ℕ :=
  s.link.enqueued.items ++ s.daemon.dispatchHead ++ s.link.dispatched.items.map DispatchedTask.pid

variable {cfg : Config} {s t : Machine}

theorem mem_pendingPids {n : ℕ} : n ∈ s.pendingPids ↔
    n ∈ s.link.enqueued.items ∨ n ∈ s.daemon.dispatchHead ∨
      ∃ u ∈ s.link.dispatched.items, u.pid = n := by
  simp [pendingPids]

/-! ## Steps -/

theorem step_kernel {e : KernelEvent} (h : step cfg s (.kernel e) = some t) :
    (serverlessOps cfg.userschedPid).step s.sched e = some t.sched ∧ t.daemon = s.daemon := by
  obtain ⟨u,hu,rfl⟩ := Option.map_eq_some_iff.mp h
  exact ⟨hu,rfl⟩

theorem step_user {e : MachineEvent} (he : ∀ k, e ≠ .kernel k) (h : step cfg s e = some t) :
    t.kern = s.kern := by
  cases e with
  | kernel k => exact absurd rfl (he k)
  | drain readable => cases h; rfl
  | dispatch ok => cases h; rfl
  | endBatch => cases h; rfl

theorem step_drain_cases {readable : Bool} (h : step cfg s (.drain readable) = some t) :
    (s.link.enqueued.items = [] ∧ t.board = s.board ∧ t.daemon = s.daemon) ∨
    ∃ pid rest, s.link.enqueued.items = pid :: rest.items ∧
      t.board = { s.board with enqueued := rest } ∧
      ((cfg.pidMax ≤ pid ∧ t.daemon = { s.daemon with exitReq := true }) ∨
      (pid < cfg.pidMax ∧ (s.daemon.tasks pid).isQueued = true ∧ t.daemon = s.daemon) ∨
      (s.daemon.Accepts cfg.pidMax pid ∧ t.daemon.dispatchHead = s.daemon.dispatchHead ++ [pid] ∧
        t.daemon.tasks = Function.update s.daemon.tasks pid
          ⟨requestedSlice (s.cmdlineRead readable),true⟩ ∧
        t.daemon.exitReq = s.daemon.exitReq)) := by
  cases h
  rcases UserSide.drainRound_cases cfg.pidMax (s.cmdlineRead readable) s.userSide with
    ⟨hempty,hr⟩ | ⟨pid,rest,hhead,⟨hbig,hr⟩ | ⟨hpid,hq,hr⟩ | ⟨hacc,d,hr,hlist,htasks,-,hexit⟩⟩
  · exact Or.inl ⟨hempty,by rw [hr]; rfl,by rw [hr]; rfl⟩
  all_goals refine Or.inr ⟨pid,rest,hhead,by rw [hr]; rfl,?_⟩
  · exact Or.inl ⟨hbig,by rw [hr]; rfl⟩
  · exact Or.inr (Or.inl ⟨hpid,hq,by rw [hr]; rfl⟩)
  · rw [hr]
    exact Or.inr (Or.inr ⟨hacc,hlist,htasks,hexit⟩)

theorem step_dispatch_cases {ok : Bool} (h : step cfg s (.dispatch ok) = some t) :
    ((s.daemon.dispatchHead = [] ∨ ok = false ∨ ¬s.link.dispatched.HasRoom) ∧ t.board = s.board ∧
      t.daemon.tasks = s.daemon.tasks ∧ t.daemon.dispatchHead = s.daemon.dispatchHead ∧
      t.daemon.exitReq = s.daemon.exitReq) ∨
    ∃ pid rest q, s.daemon.dispatchHead = pid :: rest ∧
      q.items = s.link.dispatched.items ++ [⟨pid,(s.daemon.tasks pid).slice⟩] ∧
      t.board = { s.board with dispatched := q } ∧ t.daemon.dispatchHead = rest ∧
      t.daemon.tasks =
        Function.update s.daemon.tasks pid { s.daemon.tasks pid with isQueued := false } ∧
      t.daemon.exitReq = s.daemon.exitReq := by
  cases h
  rcases UserSide.dispatchRound_cases ok s.userSide with
    ⟨hnil,hr⟩ | ⟨pid,rest,hhead,⟨hfails,hr⟩ | ⟨-,q,hq,hr⟩⟩
  · rw [hr]
    exact Or.inl ⟨Or.inl hnil,rfl,rfl,rfl,rfl⟩
  · rw [hr]
    exact Or.inl ⟨Or.inr hfails,rfl,rfl,rfl,rfl⟩
  · rw [hr]
    exact Or.inr ⟨pid,rest,q,hhead,(BoundedQueue.push_eq_some.mp hq).2,rfl,rfl,rfl,rfl⟩

theorem step_endBatch (h : step cfg s .endBatch = some t) : t.board = s.board ∧ t.daemon = s.daemon := by
  cases h
  exact ⟨rfl,rfl⟩

end Machine

/-! ## What every run maintains -/

namespace Machine
variable {cfg : Config} {s t : Machine}

/-- The board is sound and the daemon's flags and list agree. -/
structure WellFormed (s : Machine) : Prop where
  board : s.board.Sound
  daemon : s.daemon.Consistent

theorem wellFormed_start (k : Kern TaskCtx) : (start k).WellFormed :=
  ⟨⟨fun _ => rfl,fun _ h => by cases h⟩,Daemon.consistent_start⟩

theorem WellFormed.step {e : MachineEvent} (hs : s.WellFormed) (h : step cfg s e = some t) :
    t.WellFormed := by
  cases e with
  | kernel e =>
    obtain ⟨hk,hd⟩ := step_kernel h
    obtain ⟨hadmits,hboard⟩ := KernelSide.board_step hk
    refine ⟨?_,by rw [hd]; exact hs.daemon⟩
    rw [Machine.board,hboard]
    exact hs.board.step hadmits
  | drain readable =>
    cases h
    exact ⟨⟨hs.board.status_isSome,hs.board.live⟩,UserSide.drainRound_consistent hs.daemon⟩
  | dispatch ok =>
    cases h
    exact ⟨⟨hs.board.status_isSome,hs.board.live⟩,UserSide.dispatchRound_consistent hs.daemon⟩
  | endBatch =>
    cases h
    exact ⟨hs.board,hs.daemon⟩

theorem pendingPids_congr (hd : t.daemon = s.daemon) (henq : t.board.enqueued = s.board.enqueued)
    (hdisp : t.board.dispatched = s.board.dispatched) : t.pendingPids = s.pendingPids := by
  have h : ∀ u : Machine, u.pendingPids = u.board.enqueued.items ++ u.daemon.dispatchHead ++
      u.board.dispatched.items.map DispatchedTask.pid := fun _ => rfl
  rw [h,h,hd,henq,hdisp]

/-! ## Waiting for a decision -/

/-- An enabled task other than the daemon that the board shows without a decision. -/
def Waiting (cfg : Config) (s : Machine) (p : Proc) : Prop :=
  s.board.enabled p = true ∧ p.pid ≠ cfg.userschedPid ∧ s.board.status p = some none

theorem status_eq_waiting {p : Proc} : s.board.status p = some none ↔
    ∃ tctx, (s.kern.task p).ctx = some tctx ∧ tctx.hasSlice = false := by
  have hverdict : ∀ tctx : TaskCtx, tctx.verdict = none ↔ tctx.hasSlice = false := by
    intro tctx
    simp [TaskCtx.verdict]
  exact Option.map_eq_some_iff.trans (exists_congr fun tctx => and_congr_right fun _ => hverdict tctx)

/-! ## Runs from a fresh kernel -/

def demoConfig : Config := ⟨1,32768⟩

theorem step_of_issues {e : KernelEvent} (h : s.kern.Issues e) :
    ∃ t, step cfg s (.kernel e) = some t ∧ t.daemon = s.daemon ∧
      t.board = s.board.step cfg.userschedPid e := by
  have hk : (serverlessOps cfg.userschedPid).step s.sched e =
      some ((serverlessOps cfg.userschedPid).perform (s.sched.onKern Kern.clearCalls) e) :=
    SchedExtOps.step_eq_some.mpr ⟨h,rfl⟩
  refine ⟨⟨(serverlessOps cfg.userschedPid).perform (s.sched.onKern Kern.clearCalls) e,s.daemon⟩,
    ?_,rfl,(KernelSide.board_step hk).2⟩
  rw [step,hk]
  rfl

/-- A process of the given PID starts and its task is enabled. -/
def arrival (p : Proc) (mm : Mm) : List MachineEvent :=
  [.kernel (.spawn p 1 mm),.kernel (.enable p true)]

theorem arrival_run {p : Proc} (hfree : s.kern.pids.holder p.pid = none)
    (hpid : p.pid ≠ cfg.userschedPid) (mm : Mm) :
    ∃ t, run (step cfg) s (arrival p mm) = some t ∧ t.daemon = s.daemon ∧
      t.board.pids = s.board.pids.add p ∧
      t.board.enabled = Function.update s.board.enabled p true ∧
      t.board.status = Function.update s.board.status p (some none) ∧
      t.board.enqueued = (s.board.enqueued.push p.pid).getD s.board.enqueued ∧
      t.board.dispatched = s.board.dispatched := by
  obtain ⟨r,hr,hrd,hrb⟩ : ∃ r, step cfg s (.kernel (.spawn p 1 mm)) = some r ∧ r.daemon = s.daemon ∧
      r.board = { s.board.leave p with pids := s.board.pids.add p } := step_of_issues hfree
  have hlive : r.board.pids.Live p := by rw [hrb]; exact Function.update_self _ _ _
  have hnew : r.board.enabled p = false := by rw [hrb]; exact Function.update_self _ _ _
  obtain ⟨t,ht,htd,htb⟩ : ∃ t, step cfg r (.kernel (.enable p true)) = some t ∧ t.daemon = r.daemon ∧
      t.board = r.board.step cfg.userschedPid (.enable p true) := step_of_issues ⟨hlive,hnew⟩
  have hjoin : t.board = r.board.join cfg.userschedPid p := htb.trans (if_pos (Or.inr rfl))
  have hrun : run (step cfg) s (arrival p mm) = some t := by
    rw [arrival,run_cons_of_step hr,run_cons_of_step ht,run_nil]
  refine ⟨t,hrun,htd.trans hrd,?_⟩
  rw [hjoin,hrb]
  refine ⟨rfl,?_,?_,if_neg hpid,rfl⟩
  · exact Function.update_idem _ _ _
  · dsimp only [Board.join,Board.leave]
    rw [Function.update_self,Function.update_idem]
    rfl

def worker (i : ℕ) : Proc := ⟨i + 2,0⟩

/-- `n` processes arrive one after the other while the daemon does nothing. -/
def burst (n : ℕ) : List MachineEvent :=
  (List.range n).flatMap (fun i => arrival (worker i) ⟨0,0,fun _ => none⟩)

structure AfterBurst (n : ℕ) (s : Machine) : Prop where
  daemon : s.daemon = .start
  holder : ∀ i < n, s.board.pids.holder (i + 2) = some (worker i)
  free : ∀ m, n + 2 ≤ m → s.board.pids.holder m = none
  enqueued : s.board.enqueued.items = (List.range n).map (fun i => i + 2)
  dispatched : s.board.dispatched.items = []

theorem burst_run {n : ℕ} (hn : n ≤ maxEnqueuedTasks) :
    ∃ s, run (step demoConfig) (start Kern.fresh) (burst n) = some s ∧ AfterBurst n s := by
  induction n with
  | zero =>
    refine ⟨_,rfl,rfl,fun i hi => absurd hi (Nat.not_lt_zero i),fun m hm => ?_,rfl,rfl⟩
    have hne : m ≠ 1 := by omega
    exact Function.update_of_ne hne _ _
  | succ n ih =>
    obtain ⟨s,hs,hafter⟩ := ih (Nat.le_of_succ_le hn)
    have hfree : s.kern.pids.holder (worker n).pid = none := hafter.free (n + 2) le_rfl
    have hpid : (worker n).pid ≠ demoConfig.userschedPid := Nat.succ_succ_ne_one n
    obtain ⟨t,ht,hd,hpids,-,-,henq,hdisp⟩ := arrival_run hfree hpid ⟨0,0,fun _ => none⟩
    have hroom : s.board.enqueued.HasRoom := by
      rw [BoundedQueue.HasRoom,hafter.enqueued,List.length_map,List.length_range]
      exact hn
    have hrange : burst (n + 1) = burst n ++ arrival (worker n) ⟨0,0,fun _ => none⟩ := by
      rw [burst,List.range_succ,List.flatMap_append,List.flatMap_singleton]
      rfl
    refine ⟨t,by rw [hrange,run_append_of_run hs,ht],hd.trans hafter.daemon,?_,?_,?_,?_⟩
    · intro i hi
      rw [hpids]
      by_cases hin : i = n
      · subst hin
        exact Function.update_self _ _ _
      · have hne : i + 2 ≠ (worker n).pid := fun h => hin (Nat.add_right_cancel h)
        exact (Function.update_of_ne hne _ _).trans (hafter.holder i (by omega))
    · intro m hm
      rw [hpids]
      have hne : m ≠ n + 2 := by omega
      exact (Function.update_of_ne hne _ _).trans (hafter.free m (by omega))
    · rw [henq]
      cases hpush : s.board.enqueued.push (worker n).pid with
      | none => exact absurd hroom (BoundedQueue.push_eq_none.mp hpush)
      | some q =>
        rw [Option.getD_some,(BoundedQueue.push_eq_some.mp hpush).2,hafter.enqueued,List.range_succ,
          List.map_append]
        rfl
    · rw [hdisp]
      exact hafter.dispatched

end Machine
end ServerlessSched.UserAssigned
