import ServerlessSched.Library.TailQueue
import ServerlessSched.UserAssigned.Counters

/-! # What the daemon's variables stand for

The flags, the dispatch list and the counters are updated at different points of functions
with several exits. They agree after every call, the links of the list included, so that the
main loop has nothing to correct.
-/
namespace ServerlessSched.UserAssigned
open Runs

namespace Daemon
variable {pidMax : ℕ} {d d' : Daemon} {pid : ℕ} {file : Option (List UInt8)}

structure Represents (d : Daemon) : Prop where
  queued_iff : ∀ pid, (d.tasks pid).isQueued = true ↔ pid ∈ d.dispatchHead
  nodup : d.dispatchHead.Nodup
  count : d.nrCurrEnqueued.toNat = d.dispatchHead.length
  balance : d.nrKernelToUserEnqueues = d.nrDispatches + d.nrCurrEnqueued

/-- The representation as the calls keep it, with counters that may wrap. -/
structure Booked (pidMax : ℕ) (d : Daemon) : Prop where
  counted : d.Counted pidMax
  balance : d.nrKernelToUserEnqueues = d.nrDispatches + d.nrCurrEnqueued

theorem booked_start : start.Booked pidMax := ⟨counted_start,rfl⟩

theorem Counted.count_toNat (hd : d.Counted pidMax) (hmax : pidMax < 2 ^ 64) :
    d.nrCurrEnqueued.toNat = d.dispatchHead.length := by
  have hle := hd.length_le
  rw [hd.count,UInt64.toNat_ofNat']
  apply Nat.mod_eq_of_lt
  omega

theorem Booked.represents (hd : d.Booked pidMax) (hmax : pidMax < 2 ^ 64) : d.Represents where
  queued_iff := hd.counted.consistent.queued_iff
  nodup := hd.counted.consistent.nodup
  count := hd.counted.count_toNat hmax
  balance := hd.balance

theorem Accepts.localEnqueueTask_counts (h : d.Accepts pidMax pid)
    (hd : d.localEnqueueTask pidMax pid file = .ok d') :
    d'.nrKernelToUserEnqueues = d.nrKernelToUserEnqueues + 1 ∧ d'.nrDispatches = d.nrDispatches := by
  have hget : d.getEnqueuedTask pidMax pid = some (d.tasks pid) := if_neg (Nat.not_le.mpr h.1)
  unfold localEnqueueTask at hd
  simp only [hget,h.2,Bool.false_eq_true,if_false] at hd
  cases hread : readCmdline file 512 with
  | none =>
    simp only [hread] at hd
    cases hd
    exact ⟨rfl,rfl⟩
  | some taskArg =>
    simp only [hread] at hd
    split at hd
    all_goals
      cases hd
      exact ⟨rfl,rfl⟩

/-- A call either is refused or ignored, or counts the task it lists. -/
theorem Booked.localEnqueueTask (hd : d.Booked pidMax)
    (h : d.localEnqueueTask pidMax pid file = .ok d') : d'.Booked pidMax := by
  by_cases hpid : pid < pidMax
  · cases hq : (d.tasks pid).isQueued with
    | true =>
      rw [localEnqueueTask_duplicate hpid hq] at h
      cases h
      exact hd
    | false =>
      have hacc : d.Accepts pidMax pid := ⟨hpid,hq⟩
      obtain ⟨henq,hdisp⟩ := hacc.localEnqueueTask_counts h
      obtain ⟨d'',hd'',hlist,htasks,hcount,-⟩ := hacc.localEnqueueTask_ok file
      cases h.symm.trans hd''
      refine ⟨hd.counted.append hacc hlist htasks hcount,?_⟩
      rw [henq,hdisp,hcount,hd.balance,UInt64.add_assoc]
  · rw [localEnqueueTask_refused (Nat.not_lt.mp hpid)] at h
    cases h

end Daemon

namespace UserSide
variable {pidMax : ℕ} {s t : UserSide} {file : Option (List UInt8)} {ok : Bool}

theorem drainRound_booked (hs : s.daemon.Booked pidMax) :
    (s.drainRound pidMax file).1.daemon.Booked pidMax := by
  unfold drainRound
  cases s.link.enqueued.pop with
  | none => exact hs
  | some head =>
    cases hd : s.daemon.localEnqueueTask pidMax head.1 file with
    | error e =>
      simp only [hd]
      exact ⟨hs.counted.frame rfl rfl rfl,hs.balance⟩
    | ok d =>
      simp only [hd]
      exact hs.localEnqueueTask hd

theorem dispatchRound_booked (hs : s.daemon.Booked pidMax) :
    (s.dispatchRound ok).1.daemon.Booked pidMax := by
  rcases dispatchRound_cases ok s with ⟨-,h⟩ | ⟨pid,rest,hhead,⟨-,h⟩ | ⟨-,q,-,h⟩⟩
  · rw [h]; exact hs
  · rw [h]; exact ⟨hs.counted.frame rfl rfl rfl,hs.balance⟩
  · rw [h]
    refine ⟨hs.counted.tail hhead rfl rfl rfl,?_⟩
    have hbalance := hs.balance
    dsimp only
    grind

theorem drainEnqueuedMap_booked (files : ℕ → Option (List UInt8)) (rounds : ℕ)
    (hs : s.daemon.Booked pidMax) : (s.drainEnqueuedMap pidMax files rounds).daemon.Booked pidMax := by
  induction rounds generalizing s with
  | zero => exact hs
  | succ rounds ih =>
    have hround : (s.drainRound pidMax (files rounds)).1.daemon.Booked pidMax := drainRound_booked hs
    unfold drainEnqueuedMap
    split
    case h_1 t ht => rw [ht] at hround; exact ih hround
    case h_2 t ht => rw [ht] at hround; exact hround

theorem dispatchBatch_booked (batchSize : UInt32) (answers : ℕ → Bool) (hs : s.daemon.Booked pidMax) :
    (s.dispatchBatch batchSize answers).daemon.Booked pidMax := by
  unfold dispatchBatch
  change (dispatchRounds answers batchSize.toNat s).daemon.Booked pidMax
  induction batchSize.toNat generalizing s with
  | zero => exact hs
  | succ rounds ih =>
    have hround : (s.dispatchRound (answers rounds)).1.daemon.Booked pidMax := dispatchRound_booked hs
    unfold dispatchRounds
    split
    case h_1 t ht => rw [ht] at hround; exact ih hround
    case h_2 t ht => rw [ht] at hround; exact hround

/-- With records of PIDs in range only, a drain with rounds enough leaves through the empty map. -/
theorem drainEnqueuedMap_completed (files : ℕ → Option (List UInt8)) {rounds : ℕ}
    (hpids : ∀ pid ∈ s.link.enqueued.items, pid < pidMax) (hrounds : s.link.enqueued.items.length < rounds) :
    (s.drainEnqueuedMap pidMax files rounds).link.enqueued.items = [] ∧
      (s.drainEnqueuedMap pidMax files rounds).link.nrUserspaceScheduled =
        (s.drainEnqueuedMap pidMax files rounds).daemon.nrCurrEnqueued := by
  induction rounds generalizing s with
  | zero => omega
  | succ rounds ih =>
    unfold drainEnqueuedMap
    rcases drainRound_cases pidMax (files rounds) s with
      ⟨hempty,h⟩ | ⟨pid,rest,hhead,⟨hbig,-⟩ | ⟨-,-,h⟩ | ⟨-,d,h,-⟩⟩
    · rw [h]
      exact ⟨hempty,rfl⟩
    all_goals
      rw [hhead] at hpids hrounds
      simp only [List.length_cons,List.mem_cons,forall_eq_or_imp] at hpids hrounds
    · exact absurd hpids.1 (Nat.not_lt.mpr hbig)
    · rw [h]
      exact ih hpids.2 (by dsimp only; omega)
    · rw [h]
      exact ih hpids.2 (by dsimp only; omega)

/-- `nr_userspace_scheduled` shows the tasks on the daemon's list. -/
def Scheduled (s : UserSide) : Prop :=
  s.link.nrUserspaceScheduled.toNat = s.daemon.dispatchHead.length

theorem dispatchBatch_scheduled (batchSize : UInt32) (answers : ℕ → Bool) (hs : s.daemon.Booked pidMax)
    (hmax : pidMax < 2 ^ 64) : (s.dispatchBatch batchSize answers).Scheduled :=
  (dispatchBatch_booked batchSize answers hs).counted.count_toNat hmax

theorem drainEnqueuedMap_scheduled (files : ℕ → Option (List UInt8)) {rounds : ℕ}
    (hs : s.daemon.Booked pidMax) (hmax : pidMax < 2 ^ 64)
    (hpids : ∀ pid ∈ s.link.enqueued.items, pid < pidMax) (hrounds : s.link.enqueued.items.length < rounds) :
    (s.drainEnqueuedMap pidMax files rounds).Scheduled := by
  unfold Scheduled
  rw [(drainEnqueuedMap_completed files hpids hrounds).2]
  exact (drainEnqueuedMap_booked files rounds hs).counted.count_toNat hmax

end UserSide

/-! ## Calls -/

/-- A call of a function of the daemon, or an access of the BPF component to a map. -/
inductive QueueCall
  | localEnqueueTask (pid : ℕ) (file : Option (List UInt8))
  | drainEnqueuedMap (files : ℕ → Option (List UInt8)) (rounds : ℕ)
  | dispatchBatch (batchSize : UInt32) (answers : ℕ → Bool)
  | pushRecord (pid : ℕ)
  | popDecision

def callStep (pidMax : ℕ) (s : UserSide) : QueueCall → Option UserSide
  | .localEnqueueTask pid file =>
    match s.daemon.localEnqueueTask pidMax pid file with
    | .ok d => some { s with daemon := d }
    | .error _ => some s
  | .drainEnqueuedMap files rounds => some (s.drainEnqueuedMap pidMax files rounds)
  | .dispatchBatch batchSize answers => some (s.dispatchBatch batchSize answers)
  | .pushRecord pid => streamStep pidMax s (.push pid)
  | .popDecision => streamStep pidMax s .pop

theorem callStep_booked {pidMax : ℕ} {s t : UserSide} {call : QueueCall} (hs : s.daemon.Booked pidMax)
    (h : callStep pidMax s call = some t) : t.daemon.Booked pidMax := by
  cases call with
  | localEnqueueTask pid file =>
    simp only [callStep] at h
    split at h
    case h_1 d hd => cases h; exact hs.localEnqueueTask hd
    case h_2 => cases h; exact hs
  | drainEnqueuedMap files rounds =>
    cases h
    exact UserSide.drainEnqueuedMap_booked files rounds hs
  | dispatchBatch batchSize answers =>
    cases h
    exact UserSide.dispatchBatch_booked batchSize answers hs
  | pushRecord pid =>
    obtain ⟨q,-,rfl⟩ := Option.map_eq_some_iff.mp h
    exact hs
  | popDecision =>
    obtain ⟨head,-,rfl⟩ := Option.map_eq_some_iff.mp h
    exact hs

/-! ## The links of the list -/

/-- What the rounds of the two loops do to the links: a task that is taken is inserted at the
head of an empty list and at the tail of any other, a task that is handed over is removed. -/
def relink (s : UserSide) (e : StreamEvent) (t : UserSide) (q : TailQueue ℕ) : TailQueue ℕ :=
  match e with
  | .drain _ =>
    match s.link.enqueued.items.head? with
    | some pid =>
      if s.daemon.Took t.daemon pid then
        if q.first.isNone then q.insertHead pid else q.insertTail pid
      else q
    | none => q
  | .dispatch ok => if (s.dispatchRound ok).2 then q.removeHead else q
  | _ => q

/-- The variables agree, and the links spell the list. -/
structure Linked (pidMax : ℕ) (s : UserSide) (q : TailQueue ℕ) : Prop where
  booked : s.daemon.Booked pidMax
  spells : q.Spells s.daemon.dispatchHead

theorem linked_start (pidMax : ℕ) (next : ℕ → Option ℕ) : Linked pidMax .start (.init next) :=
  ⟨Daemon.booked_start,TailQueue.spells_init next⟩

section Linked
variable {pidMax : ℕ} {s t : UserSide} {q : TailQueue ℕ} {e : StreamEvent}

theorem Linked.drain {file : Option (List UInt8)} (hs : Linked pidMax s q) :
    q = relink s (.drain file) (s.drainRound pidMax file).1 q ∧
        (s.drainRound pidMax file).1.daemon.dispatchHead = s.daemon.dispatchHead ∨
      ∃ pid, pid ∉ s.daemon.dispatchHead ∧
        relink s (.drain file) (s.drainRound pidMax file).1 q =
          (if q.first.isNone then q.insertHead pid else q.insertTail pid) ∧
        (s.drainRound pidMax file).1.daemon.dispatchHead = s.daemon.dispatchHead ++ [pid] := by
  have hconsistent := hs.booked.counted.consistent
  rcases UserSide.drainRound_cases pidMax file s with
    ⟨hempty,hr⟩ | ⟨pid,rest,hhead,⟨-,hr⟩ | ⟨-,-,hr⟩ | ⟨hacc,d,hr,hlist,htasks,-⟩⟩
  · exact Or.inl ⟨by simp [relink,hempty],by rw [hr]⟩
  · refine Or.inl ⟨?_,by rw [hr]⟩
    simp [relink,hhead,hr,Daemon.not_took_of_tasks]
  · refine Or.inl ⟨?_,by rw [hr]⟩
    simp [relink,hhead,hr,Daemon.not_took_of_tasks]
  · have htook : s.daemon.Took d pid := ⟨hacc.2,by simp [htasks]⟩
    refine Or.inr ⟨pid,(hconsistent.accepts_iff hacc.1).mp hacc,?_,by rw [hr]; exact hlist⟩
    simp [relink,hhead,hr,htook]

theorem Linked.dispatch {ok : Bool} (hs : Linked pidMax s q) :
    (relink s (.dispatch ok) (s.dispatchRound ok).1 q).Spells (s.dispatchRound ok).1.daemon.dispatchHead := by
  unfold relink
  rcases UserSide.dispatchRound_cases ok s with ⟨-,h⟩ | ⟨pid,rest,hhead,⟨-,h⟩ | ⟨-,r,-,h⟩⟩
  · simpa [h] using hs.spells
  · simpa [h] using hs.spells
  · have hspells := hs.spells
    rw [hhead] at hspells
    simpa [h] using hspells.removeHead

theorem Linked.step (hs : Linked pidMax s q) (h : streamStep pidMax s e = some t) :
    Linked pidMax t (relink s e t q) := by
  cases e with
  | push pid =>
    obtain ⟨r,-,rfl⟩ := Option.map_eq_some_iff.mp h
    exact ⟨hs.booked,hs.spells⟩
  | drain file =>
    cases h
    refine ⟨UserSide.drainRound_booked hs.booked,?_⟩
    rcases @Linked.drain pidMax s q file hs with ⟨hq,hlist⟩ | ⟨pid,hnew,hq,hlist⟩
    · rw [← hq,hlist]
      exact hs.spells
    · rw [hq,hlist]
      split
      case isTrue hnone =>
        -- the head insertion is into an empty list, where head and tail are one place
        rw [hs.spells.first_eq] at hnone
        have hnil : s.daemon.dispatchHead = [] := by simpa using hnone
        rw [hnil]
        have hspells := hs.spells.insertHead hnew
        rw [hnil] at hspells
        exact hspells
      case isFalse => exact hs.spells.insertTail hnew
  | dispatch ok =>
    cases h
    exact ⟨UserSide.dispatchRound_booked hs.booked,hs.dispatch⟩
  | endBatch =>
    cases h
    exact ⟨hs.booked,hs.spells⟩
  | pop =>
    obtain ⟨head,-,rfl⟩ := Option.map_eq_some_iff.mp h
    exact ⟨hs.booked,hs.spells⟩

end Linked

/-- After every sequence of calls the flags, the list and the counters agree; so do they, and
the links of the list, after every sequence of rounds of the daemon's loops; and where the main
loop compares its counter with an empty list, the counter is zero. -/
theorem queue_represented {pidMax : ℕ} (hmax : pidMax < 2 ^ 64) :
    (∀ calls s, run (callStep pidMax) UserSide.start calls = some s → s.daemon.Represents ∧
      (∀ batchSize answers, (s.dispatchBatch batchSize answers).Scheduled) ∧
      ∀ files rounds, (∀ pid ∈ s.link.enqueued.items, pid < pidMax) → s.link.enqueued.items.length < rounds →
        (s.drainEnqueuedMap pidMax files rounds).Scheduled) ∧
    (∀ es s next q, run (withGhost (streamStep pidMax) relink) (UserSide.start,.init next) es = some (s,q) →
      s.daemon.Represents ∧ q.Spells s.daemon.dispatchHead) ∧
    ∀ cfg es s, cfg.pidMax = pidMax → (∀ cpu pid, .push cpu pid ∈ es → pid < pidMax) →
      run (MainLoop.step cfg) MainLoop.start es = some s →
      (s.pc = .batch 0 ∨ s.pc = .check → s.user.Scheduled) ∧
      (s.daemon.dispatchHead = [] → { s.daemon with nrCurrEnqueued := 0 } = s.daemon) := by
  refine ⟨fun calls s hr => ?_,fun es s next q hr => ?_,fun cfg es s hcfg hpids hr => ?_⟩
  · have hs : s.daemon.Booked pidMax := run_invariant (P := fun s : UserSide => s.daemon.Booked pidMax)
      (fun _ _ _ hs h => callStep_booked hs h) Daemon.booked_start hr
    exact ⟨hs.represents hmax,fun batchSize answers => UserSide.dispatchBatch_scheduled batchSize answers hs hmax,
      fun files rounds hpids hrounds => UserSide.drainEnqueuedMap_scheduled files hs hmax hpids hrounds⟩
  · have hs : Linked pidMax s q := run_invariant (P := fun p : UserSide × _ => Linked pidMax p.1 p.2)
      (fun p e r hp hr => by
        obtain ⟨hstep,hghost⟩ := withGhost_eq_some.mp hr
        rw [hghost]
        exact hp.step hstep) (linked_start pidMax next) hr
    exact ⟨hs.booked.represents hmax,hs.spells⟩
  · subst hcfg
    have hs : MainLoop.Accounted cfg s := by
      have hall := always_of_along (fun _ _ _ hs he h => (hs.step he (MainLoop.step_stepped h)).1)
        MainLoop.accounted_start (MainLoop.pidInRange_along hpids MainLoop.start)
      exact always_iff_visited.mp hall es s List.prefix_rfl hr
    constructor
    · intro hpc
      have hbetween : MainLoop.between s.pc = true := by
        rcases hpc with hpc | hpc
        all_goals
          rw [hpc]
          rfl
      unfold UserSide.Scheduled
      have hscheduled := hs.scheduled hbetween
      rw [← hs.counted.count] at hscheduled
      exact (congrArg UInt64.toNat hscheduled).trans (hs.counted.count_toNat hmax)
    · intro hnil
      have hzero : s.daemon.nrCurrEnqueued = 0 := by
        rw [hs.counted.count,hnil]
        rfl
      rw [← hzero]

/-- PID 7 is listed twice, PID 9 once, and one of them is handed over. -/
theorem queue_represented_twice : ∃ s, run (callStep 32768) UserSide.start
      [.localEnqueueTask 7 none,.localEnqueueTask 7 none,.localEnqueueTask 9 none,.dispatchBatch 1 fun _ => true] = some s ∧
    s.daemon.dispatchHead = [9] ∧ s.link.dispatched.items = [⟨7,0⟩] ∧ s.daemon.Represents :=
  ⟨_,rfl,rfl,rfl,((queue_represented (by decide : 32768 < 2 ^ 64)).1
    [.localEnqueueTask 7 none,.localEnqueueTask 7 none,.localEnqueueTask 9 none,.dispatchBatch 1 fun _ => true] _ rfl).1⟩

end ServerlessSched.UserAssigned
