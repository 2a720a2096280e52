import ServerlessSched.UserAssigned.Machine

/-! # Records in the daemon's hands

`drain_enqueued_map` takes a record out of the first map, and reads the command line and lists
the task afterwards. Here the kernel goes on in between, and the record that the daemon holds
meanwhile is under way as much as one in a map or in the list.
-/
namespace ServerlessSched.UserAssigned
open Runs

/-- `hand` is the PID of the record that has been popped and not been handled yet. -/
structure Transfer extends Machine where
  hand : Option ℕ

/-- Each event of the daemon is one access to what the kernel can change or see: the two maps
and `/proc`. The list is the daemon's own, so that a task is listed, and is taken off the list,
along with the access that goes with it. -/
inductive TransferEvent
  | kernel (e : KernelEvent)
  | pop
  | insert (readable : Bool)
  | drained
  | dispatch (ok : Bool)
  | endBatch

namespace Transfer

def start (k : Kern TaskCtx) : Transfer := ⟨Machine.start k,none⟩

def cmdlineOf (s : Transfer) (pid : ℕ) (readable : Bool) : Option (List UInt8) :=
  if readable then s.procCmdline pid else none

/-- What the daemon makes of its side with empty hands: it is one thread, and takes no other
record and does not go to work on its list before the record in its hands is handled. -/
def goOn (s : Transfer) (u : UserSide) : Option Transfer :=
  match s.hand with
  | none => some ⟨s.setUserSide u,none⟩
  | some _ => none

def step (cfg : Config) (s : Transfer) : TransferEvent → Option Transfer
  | .kernel e => (Machine.step cfg s.toMachine (.kernel e)).map (fun m => ⟨m,s.hand⟩)
  | .pop =>
    match s.userSide.popRecord with
    | some (pid,u) => (s.goOn u).map (fun t => { t with hand := some pid })
    | none => none
  | .drained =>
    match s.userSide.popRecord with
    | some _ => none
    | none => s.goOn s.userSide.drainCompleted
  | .insert readable =>
    s.hand.map (fun pid => ⟨s.setUserSide
      (s.userSide.enqueueRecord cfg.pidMax pid (s.cmdlineOf pid readable)).1,none⟩)
  | .dispatch ok => s.goOn (s.userSide.dispatchRound ok).1
  | .endBatch => s.goOn s.userSide.endBatch

/-- The records on their way to the daemon's list, the oldest first. -/
def arriving (s : Transfer) : List ℕ := s.hand.toList ++ s.link.enqueued.items

/-- The PIDs under way, from the kernel's push of a record to its pop of the decision. -/
def pendingPids (s : Transfer) : List ℕ :=
  s.arriving ++ s.daemon.dispatchHead ++ s.link.dispatched.items.map DispatchedTask.pid

variable {cfg : Config} {s t : Transfer}

theorem mem_pendingPids {n : ℕ} : n ∈ s.pendingPids ↔
    n ∈ s.arriving ∨ n ∈ s.daemon.dispatchHead ∨ ∃ u ∈ s.link.dispatched.items, u.pid = n := by
  simp [pendingPids]

theorem arriving_congr (hhand : t.hand = s.hand) (henq : t.board.enqueued = s.board.enqueued) :
    t.arriving = s.arriving := by
  have henq : t.link.enqueued = s.link.enqueued := henq
  rw [arriving,arriving,hhand,henq]

theorem arriving_push {pid : ℕ} (hhand : t.hand = s.hand)
    (henq : t.board.enqueued.items = s.board.enqueued.items ++ [pid]) : t.arriving = s.arriving ++ [pid] := by
  have henq : t.link.enqueued.items = s.link.enqueued.items ++ [pid] := henq
  rw [arriving,arriving,hhand,henq,List.append_assoc]

theorem pendingPids_congr (hd : t.daemon = s.daemon) (harr : t.arriving = s.arriving)
    (hdisp : t.board.dispatched = s.board.dispatched) : t.pendingPids = s.pendingPids := by
  have hdisp : t.link.dispatched = s.link.dispatched := hdisp
  rw [pendingPids,pendingPids,harr,hd,hdisp]

/-! ## Steps -/

theorem step_kernel {e : KernelEvent} (h : step cfg s (.kernel e) = some t) :
    Machine.step cfg s.toMachine (.kernel e) = some t.toMachine ∧ t.hand = s.hand := by
  obtain ⟨m,hm,rfl⟩ := Option.map_eq_some_iff.mp h
  exact ⟨hm,rfl⟩

theorem step_ops {e : KernelEvent} (h : step cfg s (.kernel e) = some t) :
    (serverlessOps cfg.userschedPid).step s.sched e = some t.sched ∧ t.daemon = s.daemon ∧ t.hand = s.hand := by
  obtain ⟨hm,hhand⟩ := step_kernel h
  obtain ⟨hk,hd⟩ := Machine.step_kernel hm
  exact ⟨hk,hd,hhand⟩

theorem goOn_eq_some {u : UserSide} (h : s.goOn u = some t) : s.hand = none ∧ t = ⟨s.setUserSide u,none⟩ := by
  unfold goOn at h
  split at h
  case h_1 hhand => exact ⟨hhand,(Option.some.inj h).symm⟩
  case h_2 => cases h

theorem step_pop (h : step cfg s .pop = some t) : ∃ pid rest, s.link.enqueued.items = pid :: rest.items ∧
    t.board = { s.board with enqueued := rest } ∧ t.daemon = s.daemon ∧ t.arriving = s.arriving := by
  unfold step at h
  dsimp only at h
  split at h
  case h_2 => cases h
  case h_1 pid u hpop =>
    obtain ⟨r,hr,rfl⟩ := Option.map_eq_some_iff.mp h
    obtain ⟨hhand,rfl⟩ := goOn_eq_some hr
    obtain ⟨rest,hitems,rfl⟩ := UserSide.popRecord_eq_some hpop
    refine ⟨pid,rest,hitems,rfl,rfl,?_⟩
    rw [arriving,arriving,hhand]
    exact hitems.symm

/-- A record that is handled leaves the head of those that arrive. -/
theorem step_insert {readable : Bool} (h : step cfg s (.insert readable) = some t) :
    ∃ pid rest, s.arriving = pid :: rest ∧ t.arriving = rest ∧ t.board = s.board ∧
      ((cfg.pidMax ≤ pid ∧ t.daemon = { s.daemon with exitReq := true }) ∨
      (pid < cfg.pidMax ∧ (s.daemon.tasks pid).isQueued = true ∧ t.daemon = s.daemon) ∨
      (s.daemon.Accepts cfg.pidMax pid ∧ t.daemon.dispatchHead = s.daemon.dispatchHead ++ [pid] ∧
        t.daemon.tasks = Function.update s.daemon.tasks pid
          ⟨requestedSlice (s.cmdlineOf pid readable),true⟩ ∧
        t.daemon.exitReq = s.daemon.exitReq)) := by
  obtain ⟨pid,hhand,rfl⟩ := Option.map_eq_some_iff.mp h
  have harrives : s.arriving = pid :: s.link.enqueued.items := by
    rw [arriving,hhand]
    rfl
  refine ⟨pid,s.link.enqueued.items,harrives,?_⟩
  rcases UserSide.enqueueRecord_cases cfg.pidMax pid (s.cmdlineOf pid readable) s.userSide with
    ⟨hbig,hr⟩ | ⟨hpid,hq,hr⟩ | ⟨hacc,d,hr,hlist,htasks,-,hexit⟩
  all_goals
    rw [hr]
    refine ⟨rfl,rfl,?_⟩
  · exact Or.inl ⟨hbig,rfl⟩
  · exact Or.inr (Or.inl ⟨hpid,hq,rfl⟩)
  · exact Or.inr (Or.inr ⟨hacc,hlist,htasks,hexit⟩)

theorem step_drained (h : step cfg s .drained = some t) : s.arriving = [] ∧ t.arriving = [] ∧
    t.board = s.board ∧ t.daemon = s.daemon := by
  unfold step at h
  dsimp only at h
  split at h
  case h_1 => cases h
  case h_2 hpop =>
    obtain ⟨hhand,rfl⟩ := goOn_eq_some h
    have hempty : s.link.enqueued.items = [] := BoundedQueue.pop_eq_none.mp (Option.map_eq_none_iff.mp hpop)
    refine ⟨?_,hempty,rfl,rfl⟩
    rw [arriving,hhand,hempty]
    rfl

theorem step_dispatch {ok : Bool} (h : step cfg s (.dispatch ok) = some t) :
    Machine.step cfg s.toMachine (.dispatch ok) = some t.toMachine ∧ t.hand = s.hand := by
  obtain ⟨hhand,rfl⟩ := goOn_eq_some h
  exact ⟨rfl,hhand.symm⟩

theorem step_endBatch (h : step cfg s .endBatch = some t) : t.arriving = s.arriving ∧
    t.board = s.board ∧ t.daemon = s.daemon := by
  obtain ⟨hhand,rfl⟩ := goOn_eq_some h
  rw [arriving,arriving,hhand]
  exact ⟨rfl,rfl,rfl⟩

theorem step_user {e : TransferEvent} (he : ∀ k, e ≠ .kernel k) (h : step cfg s e = some t) :
    t.kern = s.kern := by
  cases e with
  | kernel k => exact absurd rfl (he k)
  | pop =>
    unfold step at h
    dsimp only at h
    split at h
    case h_2 => cases h
    case h_1 =>
      obtain ⟨r,hr,rfl⟩ := Option.map_eq_some_iff.mp h
      obtain ⟨-,rfl⟩ := goOn_eq_some hr
      rfl
  | drained =>
    unfold step at h
    dsimp only at h
    split at h
    case h_1 => cases h
    case h_2 =>
      obtain ⟨-,rfl⟩ := goOn_eq_some h
      rfl
  | insert readable =>
    obtain ⟨pid,-,rfl⟩ := Option.map_eq_some_iff.mp h
    rfl
  | dispatch ok | endBatch =>
    obtain ⟨-,rfl⟩ := goOn_eq_some h
    rfl

theorem sound_of_kern (hs : s.board.Sound) (hkern : t.kern = s.kern) : t.board.Sound := by
  constructor
  · change ∀ p, ((t.kern.task p).ctx.map TaskCtx.verdict).isSome = (t.kern.task p).enabled
    rw [hkern]
    exact hs.status_isSome
  · change ∀ p, (t.kern.task p).enabled = true → t.kern.pids.Live p
    rw [hkern]
    exact hs.live

theorem wellFormed_of_kern (hs : s.WellFormed) (hkern : t.kern = s.kern) (hd : t.daemon.Consistent) :
    t.WellFormed := ⟨sound_of_kern hs.board hkern,hd⟩

theorem wellFormed_step {e : TransferEvent} (hs : s.WellFormed) (h : step cfg s e = some t) :
    t.WellFormed := by
  cases e with
  | kernel e => exact hs.step (step_kernel h).1
  | dispatch ok => exact hs.step (step_dispatch h).1
  | pop =>
    obtain ⟨pid,rest,-,-,hd,-⟩ := step_pop h
    exact wellFormed_of_kern hs (step_user (fun k hk => by cases hk) h) (by rw [hd]; exact hs.daemon)
  | insert readable =>
    refine wellFormed_of_kern hs (step_user (fun k hk => by cases hk) h) ?_
    obtain ⟨pid,rest,-,-,-,⟨-,hd⟩ | ⟨-,-,hd⟩ | ⟨hacc,hlist,htasks,-⟩⟩ := step_insert h
    · rw [hd]
      exact ⟨hs.daemon.queued_iff,hs.daemon.nodup⟩
    · rw [hd]
      exact hs.daemon
    · exact hs.daemon.append hacc.2 hlist htasks
  | drained =>
    obtain ⟨-,-,-,hd⟩ := step_drained h
    exact wellFormed_of_kern hs (step_user (fun k hk => by cases hk) h) (by rw [hd]; exact hs.daemon)
  | endBatch =>
    obtain ⟨-,-,hd⟩ := step_endBatch h
    exact wellFormed_of_kern hs (step_user (fun k hk => by cases hk) h) (by rw [hd]; exact hs.daemon)

/-! ## A round of the daemon's loop in two steps -/

/-- With empty hands a round of `drain_enqueued_map` is a pop and an insertion, or the look
into the empty map. -/
theorem drain_in_two {m n : Machine} {readable : Bool} (h : Machine.step cfg m (.drain readable) = some n) :
    step cfg ⟨m,none⟩ .drained = some ⟨n,none⟩ ∨
      run (step cfg) ⟨m,none⟩ [.pop,.insert readable] = some ⟨n,none⟩ := by
  cases h
  rw [UserSide.drainRound_eq]
  cases hpop : m.userSide.popRecord with
  | none =>
    refine Or.inl ?_
    unfold step
    dsimp only
    rw [hpop]
    rfl
  | some record =>
    obtain ⟨pid,u⟩ := record
    have hstep : step cfg ⟨m,none⟩ .pop = some ⟨m.setUserSide u,some pid⟩ := by
      unfold step
      dsimp only
      rw [hpop]
      rfl
    obtain ⟨rest,hitems,rfl⟩ := UserSide.popRecord_eq_some hpop
    have hfile : m.cmdlineRead readable = if readable then m.procCmdline pid else none := by
      have hitems : m.link.enqueued.items = pid :: rest.items := hitems
      rw [Machine.cmdlineRead,hitems]
      rfl
    refine Or.inr ?_
    rw [run_cons_of_step hstep,hfile]
    rfl

/-- The ways in which the daemon's parts make up an event that is one round of its loops. -/
def parts : MachineEvent → List (List TransferEvent)
  | .kernel e => [[.kernel e]]
  | .drain readable => [[.drained],[.pop,.insert readable]]
  | .dispatch ok => [[.dispatch ok]]
  | .endBatch => [[.endBatch]]

theorem step_in_parts {m n : Machine} {e : MachineEvent} (h : Machine.step cfg m e = some n) :
    ∃ part ∈ parts e, run (step cfg) ⟨m,none⟩ part = some ⟨n,none⟩ := by
  cases e with
  | kernel e =>
    refine ⟨_,List.mem_singleton_self _,?_⟩
    rw [run_cons,step,h]
    rfl
  | drain readable =>
    rcases drain_in_two h with hstep | hrun
    · exact ⟨_,List.mem_cons_self,by rw [run_cons_of_step hstep,run_nil]⟩
    · exact ⟨_,List.mem_cons_of_mem _ (List.mem_singleton_self _),hrun⟩
  | dispatch ok | endBatch =>
    cases h
    exact ⟨_,List.mem_singleton_self _,rfl⟩

/-- Every run of whole rounds is a run of their parts. -/
theorem run_in_parts {m n : Machine} {es : List MachineEvent} (h : run (Machine.step cfg) m es = some n) :
    ∃ fs, List.Forall₂ (fun e part => part ∈ parts e) es fs ∧
      run (step cfg) ⟨m,none⟩ fs.flatten = some ⟨n,none⟩ := by
  induction es generalizing m with
  | nil =>
    cases h
    exact ⟨[],.nil,rfl⟩
  | cons e es ih =>
    obtain ⟨o,ho,hrest⟩ := run_cons_eq_some.mp h
    obtain ⟨part,hpart,hfirst⟩ := step_in_parts ho
    obtain ⟨fs,hfs,hrun⟩ := ih hrest
    refine ⟨part :: fs,.cons hpart hfs,?_⟩
    rw [List.flatten_cons,run_append_of_run hfirst,hrun]

/-- A process of the given PID starts and its task is enabled. -/
def arrival (p : Proc) (mm : Mm) : List TransferEvent :=
  [.kernel (.spawn p 1 mm),.kernel (.enable p true)]

end Transfer
end ServerlessSched.UserAssigned
