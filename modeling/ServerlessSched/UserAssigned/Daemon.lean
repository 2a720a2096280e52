import ServerlessSched.Library.BoundedQueue
import ServerlessSched.Policy.Cmdline
import Mathlib.Logic.Function.Basic

/-! # The userspace daemon

The maps and variables the daemon shares with the BPF component, its own task array and
dispatch list, and its functions. Loops are given by their bodies, which report whether
the loop goes on, and as a whole with a bound on the number of rounds.
-/
namespace ServerlessSched.UserAssigned

/-- `MAX_ENQUEUED_TASKS`. -/
def maxEnqueuedTasks : ℕ := 4096

structure DispatchedTask where
  pid : ℕ
  slice : UInt64
deriving DecidableEq, Repr

/-- What both programs access. A record of `enqueued` is a PID; the wake ring buffer only
counts its unread messages, which carry no data. -/
structure Link where
  enqueued : BoundedQueue maxEnqueuedTasks ℕ
  dispatched : BoundedQueue maxEnqueuedTasks DispatchedTask
  nrUserspaceQueued : UInt64
  nrUserspaceScheduled : UInt64
  userschedNeeded : Bool
  wakeRingbuf : ℕ

namespace Link

def start : Link := ⟨.empty,.empty,0,0,false,0⟩

def setUserschedNeeded (l : Link) : Link := { l with userschedNeeded := true }

/-- The flag before, and the link with the flag cleared. -/
def testAndClearUserschedNeeded (l : Link) : Bool × Link :=
  (l.userschedNeeded,{ l with userschedNeeded := false })

def submitWakeMsg (l : Link) : Link := { l with wakeRingbuf := l.wakeRingbuf + 1 }

end Link

/-- `struct enqueued_task` without the list link. -/
structure EnqueuedTask where
  slice : UInt64
  isQueued : Bool

/-- The daemon's variables. The dispatch list holds array indices, which are PIDs. -/
structure Daemon where
  tasks : ℕ → EnqueuedTask
  dispatchHead : List ℕ
  nrKernelToUserEnqueues : UInt64
  nrDispatches : UInt64
  nrDispatchesFailed : UInt64
  failedToGetCmdline : UInt64
  nrCurrEnqueued : UInt64
  nrTasksAssignedSlice : UInt64
  exitReq : Bool

def enoent : ℤ := 2

namespace Daemon

/-- After `init_tasks`: a zeroed array, an empty list. -/
def start : Daemon := ⟨fun _ => ⟨0,false⟩,[],0,0,0,0,0,0,false⟩

def getEnqueuedTask (pidMax : ℕ) (d : Daemon) (pid : ℕ) : Option EnqueuedTask :=
  if pid ≥ pidMax then none else some (d.tasks pid)

/-- The label `enqueue` of `local_enqueue_task`: store the slice, insert at the head of an
empty list and at the tail of any other. -/
def insertLocal (d : Daemon) (pid : ℕ) (slice : UInt64) : Daemon :=
  { d with
    tasks := Function.update d.tasks pid { d.tasks pid with slice := slice }
    dispatchHead := if d.dispatchHead = [] then pid :: d.dispatchHead else d.dispatchHead ++ [pid] }

/-- `file` is what `/proc/<pid>/cmdline` holds when it is read, `none` when it cannot be. -/
def localEnqueueTask (pidMax : ℕ) (d : Daemon) (pid : ℕ) (file : Option (List UInt8)) :
    Except ℤ Daemon :=
  match d.getEnqueuedTask pidMax pid with
  | none => .error enoent
  | some curr =>
    if curr.isQueued then .ok d
    else
      let d := { d with
        tasks := Function.update d.tasks pid { curr with isQueued := true }
        nrKernelToUserEnqueues := d.nrKernelToUserEnqueues + 1
        nrCurrEnqueued := d.nrCurrEnqueued + 1 }
      match readCmdline file 512 with
      | none => .ok ({ d with failedToGetCmdline := d.failedToGetCmdline + 1 }.insertLocal pid 0)
      | some taskArg =>
        if parseFibArgFromCmdline taskArg < 0 then .ok (d.insertLocal pid 0)
        else .ok ({ d with nrTasksAssignedSlice := d.nrTasksAssignedSlice + 1 }.insertLocal pid
          (getSliceForFibArg (parseFibArgFromCmdline taskArg)))

end Daemon

structure UserSide where
  link : Link
  daemon : Daemon

namespace UserSide

def start : UserSide := ⟨.start,.start⟩

/-- One round of `drain_enqueued_map`, and whether the loop goes on. -/
def drainRound (pidMax : ℕ) (file : Option (List UInt8)) (s : UserSide) : UserSide × Bool :=
  match s.link.enqueued.pop with
  | none =>
    (⟨{ s.link with
        nrUserspaceQueued := 0
        nrUserspaceScheduled := s.daemon.nrCurrEnqueued },s.daemon⟩,false)
  | some (pid,rest) =>
    match s.daemon.localEnqueueTask pidMax pid file with
    | .error _ => (⟨{ s.link with enqueued := rest },{ s.daemon with exitReq := true }⟩,false)
    | .ok d => (⟨{ s.link with enqueued := rest },d⟩,true)

/-- The map lookup at the head of the loop of `drain_enqueued_map`: the record, if there is one. -/
def popRecord (s : UserSide) : Option (ℕ × UserSide) :=
  s.link.enqueued.pop.map (fun head => (head.1,{ s with link := { s.link with enqueued := head.2 } }))

/-- What `drain_enqueued_map` does when it finds no record. -/
def drainCompleted (s : UserSide) : UserSide :=
  ⟨{ s.link with
      nrUserspaceQueued := 0
      nrUserspaceScheduled := s.daemon.nrCurrEnqueued },s.daemon⟩

/-- What `drain_enqueued_map` does with a record, and whether the loop goes on. -/
def enqueueRecord (pidMax pid : ℕ) (file : Option (List UInt8)) (s : UserSide) : UserSide × Bool :=
  match s.daemon.localEnqueueTask pidMax pid file with
  | .error _ => ({ s with daemon := { s.daemon with exitReq := true } },false)
  | .ok d => ({ s with daemon := d },true)

/-- `dispatch_task`; `ok` is the answer of the update when the map has room. -/
def dispatchTask (dTask : DispatchedTask) (ok : Bool) (s : UserSide) : UserSide × Bool :=
  match if ok then s.link.dispatched.push dTask else none with
  | none =>
    (⟨s.link,{ s.daemon with nrDispatchesFailed := s.daemon.nrDispatchesFailed + 1 }⟩,false)
  | some q =>
    (⟨{ s.link with dispatched := q },{ s.daemon with nrDispatches := s.daemon.nrDispatches + 1 }⟩,true)

/-- One round of `dispatch_batch`, and whether the loop goes on. -/
def dispatchRound (ok : Bool) (s : UserSide) : UserSide × Bool :=
  match s.daemon.dispatchHead with
  | [] => (s,false)
  | pid :: rest =>
    match s.dispatchTask ⟨pid,(s.daemon.tasks pid).slice⟩ ok with
    | (t,false) => (t,false)
    | (t,true) =>
      (⟨t.link,{ t.daemon with
        dispatchHead := rest
        tasks := Function.update t.daemon.tasks pid { t.daemon.tasks pid with isQueued := false }
        nrCurrEnqueued := t.daemon.nrCurrEnqueued - 1 }⟩,true)

/-- The end of `dispatch_batch`. -/
def endBatch (s : UserSide) : UserSide :=
  ⟨{ s.link with nrUserspaceScheduled := s.daemon.nrCurrEnqueued },s.daemon⟩

/-- `drain_enqueued_map` over at most `rounds` records, `files` being what `/proc` answers. -/
def drainEnqueuedMap (pidMax : ℕ) (files : ℕ → Option (List UInt8)) : ℕ → UserSide → UserSide
  | 0, s => s
  | rounds + 1, s =>
    match s.drainRound pidMax (files rounds) with
    | (t,true) => drainEnqueuedMap pidMax files rounds t
    | (t,false) => t

/-- The loop of `dispatch_batch`, `answers` being those of the map updates. -/
def dispatchRounds (answers : ℕ → Bool) : ℕ → UserSide → UserSide
  | 0, s => s
  | rounds + 1, s =>
    match s.dispatchRound (answers rounds) with
    | (t,true) => dispatchRounds answers rounds t
    | (t,false) => t

def dispatchBatch (batchSize : UInt32) (answers : ℕ → Bool) (s : UserSide) : UserSide :=
  (dispatchRounds answers batchSize.toNat s).endBatch

def decisions (d : Daemon) : List DispatchedTask :=
  d.dispatchHead.map (fun pid => ⟨pid,(d.tasks pid).slice⟩)

end UserSide

namespace Daemon
variable {pidMax : ℕ} {d d' : Daemon} {pid : ℕ} {file : Option (List UInt8)}

def Accepts (pidMax : ℕ) (d : Daemon) (pid : ℕ) : Prop := pid < pidMax ∧ (d.tasks pid).isQueued = false

instance (pidMax : ℕ) (d : Daemon) (pid : ℕ) : Decidable (d.Accepts pidMax pid) := instDecidableAnd

@[simp] theorem insertLocal_dispatchHead (slice : UInt64) :
    (d.insertLocal pid slice).dispatchHead = d.dispatchHead ++ [pid] := by
  unfold insertLocal
  dsimp only
  split
  case isTrue h => rw [h]; rfl
  case isFalse => rfl

theorem Accepts.localEnqueueTask_ok (h : d.Accepts pidMax pid) (file : Option (List UInt8)) :
    ∃ d', d.localEnqueueTask pidMax pid file = .ok d' ∧
      d'.dispatchHead = d.dispatchHead ++ [pid] ∧
      d'.tasks = Function.update d.tasks pid ⟨requestedSlice file,true⟩ ∧
      d'.nrCurrEnqueued = d.nrCurrEnqueued + 1 ∧ d'.exitReq = d.exitReq := by
  have hget : d.getEnqueuedTask pidMax pid = some (d.tasks pid) :=
    if_neg (Nat.not_le.mpr h.1)
  unfold localEnqueueTask requestedSlice
  rw [hget]
  dsimp only
  rw [if_neg (by rw [h.2]; decide)]
  cases readCmdline file 512 with
  | none => exact ⟨_,rfl,insertLocal_dispatchHead 0,by simp [insertLocal],rfl,rfl⟩
  | some taskArg =>
    dsimp only
    split
    case isTrue hneg => exact ⟨_,rfl,insertLocal_dispatchHead 0,by simp [insertLocal],rfl,rfl⟩
    case isFalse hneg => exact ⟨_,rfl,insertLocal_dispatchHead _,by simp [insertLocal],rfl,rfl⟩

theorem localEnqueueTask_duplicate (hpid : pid < pidMax) (h : (d.tasks pid).isQueued = true) :
    d.localEnqueueTask pidMax pid file = .ok d := by
  have hget : d.getEnqueuedTask pidMax pid = some (d.tasks pid) := if_neg (Nat.not_le.mpr hpid)
  unfold localEnqueueTask
  rw [hget]
  dsimp only
  rw [if_pos h]

theorem localEnqueueTask_refused (hpid : pidMax ≤ pid) :
    d.localEnqueueTask pidMax pid file = .error enoent := by
  have hget : d.getEnqueuedTask pidMax pid = none := if_pos hpid
  unfold localEnqueueTask
  rw [hget]

end Daemon

namespace UserSide
variable {pidMax : ℕ} {s : UserSide} {file : Option (List UInt8)} {ok : Bool}

theorem drainRound_eq (pidMax : ℕ) (file : Option (List UInt8)) (s : UserSide) :
    s.drainRound pidMax file = match s.popRecord with
      | none => (s.drainCompleted,false)
      | some (pid,t) => t.enqueueRecord pidMax pid file := by
  unfold drainRound popRecord
  cases s.link.enqueued.pop <;> rfl

theorem popRecord_eq_some {pid : ℕ} {t : UserSide} (h : s.popRecord = some (pid,t)) :
    ∃ rest, s.link.enqueued.items = pid :: rest.items ∧
      t = { s with link := { s.link with enqueued := rest } } := by
  obtain ⟨head,hpop,hhead⟩ := Option.map_eq_some_iff.mp h
  cases hhead
  exact ⟨head.2,BoundedQueue.pop_eq_some.mp hpop,rfl⟩

/-- Everything the daemon can do with a record: it gives up, ignores a PID that it lists
already, or lists the task with the slice its command line calls for. -/
theorem enqueueRecord_cases (pidMax pid : ℕ) (file : Option (List UInt8)) (s : UserSide) :
    (pidMax ≤ pid ∧ s.enqueueRecord pidMax pid file =
      ({ s with daemon := { s.daemon with exitReq := true } },false)) ∨
    (pid < pidMax ∧ (s.daemon.tasks pid).isQueued = true ∧ s.enqueueRecord pidMax pid file = (s,true)) ∨
    (s.daemon.Accepts pidMax pid ∧ ∃ d, s.enqueueRecord pidMax pid file = ({ s with daemon := d },true) ∧
      d.dispatchHead = s.daemon.dispatchHead ++ [pid] ∧
      d.tasks = Function.update s.daemon.tasks pid ⟨requestedSlice file,true⟩ ∧
      d.nrCurrEnqueued = s.daemon.nrCurrEnqueued + 1 ∧ d.exitReq = s.daemon.exitReq) := by
  unfold enqueueRecord
  by_cases hpid : pid < pidMax
  · cases hq : (s.daemon.tasks pid).isQueued with
    | true =>
      rw [Daemon.localEnqueueTask_duplicate hpid hq]
      exact Or.inr (Or.inl ⟨hpid,rfl,rfl⟩)
    | false =>
      have hacc : s.daemon.Accepts pidMax pid := ⟨hpid,hq⟩
      obtain ⟨d,hd,hrest⟩ := hacc.localEnqueueTask_ok file
      rw [hd]
      exact Or.inr (Or.inr ⟨hacc,d,rfl,hrest⟩)
  · rw [Daemon.localEnqueueTask_refused (Nat.not_lt.mp hpid)]
    exact Or.inl ⟨Nat.not_lt.mp hpid,rfl⟩

theorem drainRound_cases (pidMax : ℕ) (file : Option (List UInt8)) (s : UserSide) :
    (s.link.enqueued.items = [] ∧ s.drainRound pidMax file =
      (⟨{ s.link with
          nrUserspaceQueued := 0
          nrUserspaceScheduled := s.daemon.nrCurrEnqueued },s.daemon⟩,false)) ∨
    ∃ pid rest, s.link.enqueued.items = pid :: rest.items ∧
      ((pidMax ≤ pid ∧ s.drainRound pidMax file =
        (⟨{ s.link with enqueued := rest },{ s.daemon with exitReq := true }⟩,false)) ∨
      (pid < pidMax ∧ (s.daemon.tasks pid).isQueued = true ∧ s.drainRound pidMax file =
        (⟨{ s.link with enqueued := rest },s.daemon⟩,true)) ∨
      (s.daemon.Accepts pidMax pid ∧ ∃ d, s.drainRound pidMax file =
          (⟨{ s.link with enqueued := rest },d⟩,true) ∧
        d.dispatchHead = s.daemon.dispatchHead ++ [pid] ∧
        d.tasks = Function.update s.daemon.tasks pid ⟨requestedSlice file,true⟩ ∧
        d.nrCurrEnqueued = s.daemon.nrCurrEnqueued + 1 ∧ d.exitReq = s.daemon.exitReq)) := by
  rw [drainRound_eq]
  cases hpop : s.popRecord with
  | none => exact Or.inl ⟨BoundedQueue.pop_eq_none.mp (Option.map_eq_none_iff.mp hpop),rfl⟩
  | some record =>
    obtain ⟨pid,t⟩ := record
    obtain ⟨rest,hitems,rfl⟩ := popRecord_eq_some hpop
    exact Or.inr ⟨pid,rest,hitems,enqueueRecord_cases pidMax pid file _⟩

/-- Everything a round of the batch loop can do: nothing is listed, the push fails and the
task stays where it is, or the head of the list moves into the map. -/
theorem dispatchRound_cases (ok : Bool) (s : UserSide) :
    (s.daemon.dispatchHead = [] ∧ s.dispatchRound ok = (s,false)) ∨
    ∃ pid rest, s.daemon.dispatchHead = pid :: rest ∧
      (((ok = false ∨ ¬s.link.dispatched.HasRoom) ∧ s.dispatchRound ok =
        (⟨s.link,{ s.daemon with nrDispatchesFailed := s.daemon.nrDispatchesFailed + 1 }⟩,false)) ∨
      (ok = true ∧ ∃ q, s.link.dispatched.push ⟨pid,(s.daemon.tasks pid).slice⟩ = some q ∧
        s.dispatchRound ok =
        (⟨{ s.link with dispatched := q },{ s.daemon with
          nrDispatches := s.daemon.nrDispatches + 1
          dispatchHead := rest
          tasks := Function.update s.daemon.tasks pid { s.daemon.tasks pid with isQueued := false }
          nrCurrEnqueued := s.daemon.nrCurrEnqueued - 1 }⟩,true))) := by
  unfold dispatchRound
  cases hlist : s.daemon.dispatchHead with
  | nil => exact Or.inl ⟨rfl,rfl⟩
  | cons pid rest =>
    refine Or.inr ⟨pid,rest,rfl,?_⟩
    unfold dispatchTask
    cases ok with
    | false => exact Or.inl ⟨Or.inl rfl,rfl⟩
    | true =>
      cases hpush : s.link.dispatched.push ⟨pid,(s.daemon.tasks pid).slice⟩ with
      | none =>
        refine Or.inl ⟨Or.inr (BoundedQueue.push_eq_none.mp hpush),?_⟩
        simp [hpush]
      | some q =>
        refine Or.inr ⟨rfl,q,rfl,?_⟩
        simp [hpush]

end UserSide
end ServerlessSched.UserAssigned
