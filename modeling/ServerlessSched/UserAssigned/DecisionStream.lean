import ServerlessSched.Library.Runs
import ServerlessSched.UserAssigned.Daemon

/-! # The stream of decisions

The kernel pushes records, the daemon turns each record it accepts into a decision, the
kernel pops decisions. Over every interleaving of these steps the daemon and the two maps
behave as one queue of decisions.
-/
namespace ServerlessSched.UserAssigned
open Runs

namespace Daemon

/-- The flag of the task array says what the dispatch list holds, and the list holds it once. -/
structure Consistent (d : Daemon) : Prop where
  queued_iff : ∀ pid, (d.tasks pid).isQueued = true ↔ pid ∈ d.dispatchHead
  nodup : d.dispatchHead.Nodup

theorem consistent_start : start.Consistent := ⟨fun pid => by simp [start],by simp [start]⟩

/-- The daemon took a record: the call raised the flag of its PID. -/
def Took (before after : Daemon) (pid : ℕ) : Prop :=
  (before.tasks pid).isQueued = false ∧ (after.tasks pid).isQueued = true

instance (before after : Daemon) (pid : ℕ) : Decidable (Took before after pid) := instDecidableAnd

variable {pidMax : ℕ} {d d' : Daemon} {pid : ℕ}

theorem Consistent.accepts_iff (hd : d.Consistent) (hpid : pid < pidMax) :
    d.Accepts pidMax pid ↔ pid ∉ d.dispatchHead := by
  rw [Accepts,← hd.queued_iff,Bool.not_eq_true]
  exact and_iff_right hpid

theorem not_took_of_tasks (h : d'.tasks = d.tasks) : ¬Took d d' pid := by
  rintro ⟨hlow,hraised⟩
  rw [h,hlow] at hraised
  cases hraised

theorem Consistent.append (hd : d.Consistent) (hnew : (d.tasks pid).isQueued = false) {slice : UInt64}
    (hlist : d'.dispatchHead = d.dispatchHead ++ [pid])
    (htasks : d'.tasks = Function.update d.tasks pid ⟨slice,true⟩) : d'.Consistent := by
  have hpid : pid ∉ d.dispatchHead := by
    rw [← hd.queued_iff,hnew]
    exact Bool.false_ne_true
  constructor
  · intro n
    rw [hlist,htasks,List.mem_append,List.mem_singleton]
    by_cases hn : n = pid
    · subst hn
      simp
    · rw [Function.update_of_ne hn,hd.queued_iff]
      exact (or_iff_left hn).symm
  · rw [hlist]
    exact hd.nodup.append (List.nodup_singleton pid) (List.disjoint_singleton.mpr hpid)

theorem Consistent.tail {rest : List ℕ} (hd : d.Consistent) (hhead : d.dispatchHead = pid :: rest)
    (hlist : d'.dispatchHead = rest)
    (htasks : d'.tasks = Function.update d.tasks pid { d.tasks pid with isQueued := false }) :
    d'.Consistent := by
  have hnodup := hd.nodup
  rw [hhead,List.nodup_cons] at hnodup
  constructor
  · intro n
    rw [hlist,htasks]
    by_cases hn : n = pid
    · subst hn
      simpa using hnodup.1
    · rw [Function.update_of_ne hn,hd.queued_iff,hhead,List.mem_cons]
      exact or_iff_right hn
  · rw [hlist]
    exact hnodup.2

end Daemon

namespace UserSide
variable {pidMax : ℕ} {s t : UserSide} {file : Option (List UInt8)} {ok : Bool}

theorem decisions_append {d d' : Daemon} {pid : ℕ} {slice : UInt64} (hpid : pid ∉ d.dispatchHead)
    (hlist : d'.dispatchHead = d.dispatchHead ++ [pid])
    (htasks : d'.tasks = Function.update d.tasks pid ⟨slice,true⟩) :
    decisions d' = decisions d ++ [⟨pid,slice⟩] := by
  have hkept : d.dispatchHead.map (fun n => (⟨n,(d'.tasks n).slice⟩ : DispatchedTask)) = decisions d := by
    refine List.map_congr_left (fun n hn => ?_)
    have hne : n ≠ pid := ne_of_mem_of_not_mem hn hpid
    rw [htasks,Function.update_of_ne hne]
  rw [decisions,hlist,List.map_append,hkept,htasks]
  simp

theorem decisions_tail {d d' : Daemon} {pid : ℕ} {rest : List ℕ}
    (hhead : d.dispatchHead = pid :: rest) (hlist : d'.dispatchHead = rest)
    (htasks : d'.tasks = Function.update d.tasks pid { d.tasks pid with isQueued := false }) :
    decisions d = ⟨pid,(d.tasks pid).slice⟩ :: decisions d' := by
  have hslice : ∀ n, (d'.tasks n).slice = (d.tasks n).slice := by
    intro n
    rw [htasks]
    by_cases hn : n = pid
    · subst hn
      simp
    · rw [Function.update_of_ne hn]
  simp [decisions,hhead,hlist,hslice]

theorem drainRound_consistent (hs : s.daemon.Consistent) :
    (s.drainRound pidMax file).1.daemon.Consistent := by
  rcases drainRound_cases pidMax file s with ⟨-,h⟩ | ⟨pid,rest,-,⟨-,h⟩ | ⟨-,-,h⟩ | ⟨hacc,d,h,hlist,htasks,-⟩⟩
  · rw [h]; exact hs
  · rw [h]; exact ⟨hs.queued_iff,hs.nodup⟩
  · rw [h]; exact hs
  · rw [h]; exact hs.append hacc.2 hlist htasks

theorem dispatchRound_consistent (hs : s.daemon.Consistent) :
    (s.dispatchRound ok).1.daemon.Consistent := by
  rcases dispatchRound_cases ok s with ⟨-,h⟩ | ⟨pid,rest,hhead,⟨-,h⟩ | ⟨-,q,-,h⟩⟩
  · rw [h]; exact hs
  · rw [h]; exact ⟨hs.queued_iff,hs.nodup⟩
  · rw [h]; exact hs.tail hhead rfl rfl

end UserSide

/-! ## The two programs at work on the maps -/

/-- One access to the maps: the kernel pushes a record or pops a decision, the daemon makes
a round of one of its loops or leaves `dispatch_batch`. -/
inductive StreamEvent
  | push (pid : ℕ)
  | drain (file : Option (List UInt8))
  | dispatch (ok : Bool)
  | endBatch
  | pop

def streamStep (pidMax : ℕ) (s : UserSide) : StreamEvent → Option UserSide
  | .push pid =>
    (s.link.enqueued.push pid).map (fun q => { s with link := { s.link with enqueued := q } })
  | .drain file => some (s.drainRound pidMax file).1
  | .dispatch ok => some (s.dispatchRound ok).1
  | .endBatch => some s.endBatch
  | .pop =>
    s.link.dispatched.pop.map (fun head => { s with link := { s.link with dispatched := head.2 } })

/-- What an observer of the two maps writes down: a record the daemon took, with the slice
requested for the command line read at that moment, and a decision the kernel popped. -/
def observe (s : UserSide) (e : StreamEvent) (t : UserSide) (h : QueueHistory DispatchedTask) :
    QueueHistory DispatchedTask :=
  match e with
  | .drain file =>
    match s.link.enqueued.items.head? with
    | some pid => if s.daemon.Took t.daemon pid then h.accept ⟨pid,requestedSlice file⟩ else h
    | none => h
  | .pop =>
    match s.link.dispatched.items.head? with
    | some d => h.deliver d
    | none => h
  | _ => h

namespace UserSide
variable {pidMax : ℕ} {s t : UserSide} {e : StreamEvent} {h : QueueHistory DispatchedTask}

/-- The decisions under way: those the kernel can pop, then those the daemon still lists. -/
def underWay (s : UserSide) : List DispatchedTask := s.link.dispatched.items ++ decisions s.daemon

structure Traced (s : UserSide) (h : QueueHistory DispatchedTask) : Prop where
  consistent : s.daemon.Consistent
  explains : h.Explains s.underWay

theorem traced_start : start.Traced .empty := ⟨Daemon.consistent_start,QueueHistory.explains_empty⟩

theorem Traced.drain {file : Option (List UInt8)} (hs : s.Traced h) :
    (s.drainRound pidMax file).1.Traced (observe s (.drain file) (s.drainRound pidMax file).1 h) := by
  refine ⟨drainRound_consistent hs.consistent,?_⟩
  rcases drainRound_cases pidMax file s with
    ⟨hempty,hr⟩ | ⟨pid,rest,hhead,⟨-,hr⟩ | ⟨-,-,hr⟩ | ⟨hacc,d,hr,hlist,htasks,-⟩⟩
  · simp only [hr,observe,hempty,List.head?_nil]
    exact hs.explains
  · simp only [hr,observe,hhead,List.head?_cons]
    split
    case isTrue htook => exact absurd htook (Daemon.not_took_of_tasks rfl)
    case isFalse => exact hs.explains
  · simp only [hr,observe,hhead,List.head?_cons]
    split
    case isTrue htook => exact absurd htook (Daemon.not_took_of_tasks rfl)
    case isFalse => exact hs.explains
  · have htook : s.daemon.Took d pid := ⟨hacc.2,by simp [htasks]⟩
    have hnew : pid ∉ s.daemon.dispatchHead := (hs.consistent.accepts_iff hacc.1).mp hacc
    simp only [hr,observe,hhead,List.head?_cons]
    rw [if_pos htook,underWay,decisions_append hnew hlist htasks,← List.append_assoc]
    exact hs.explains.accept _

theorem Traced.dispatch {ok : Bool} (hs : s.Traced h) : (s.dispatchRound ok).1.Traced h := by
  refine ⟨dispatchRound_consistent hs.consistent,?_⟩
  rcases dispatchRound_cases ok s with ⟨-,hr⟩ | ⟨pid,rest,hhead,⟨-,hr⟩ | ⟨-,q,hq,hr⟩⟩
  · rw [hr]; exact hs.explains
  · rw [hr]; exact hs.explains
  · obtain ⟨-,hitems⟩ := BoundedQueue.push_eq_some.mp hq
    rw [hr]
    have hdec : decisions s.daemon = ⟨pid,(s.daemon.tasks pid).slice⟩ ::
        decisions (s.dispatchRound ok).1.daemon :=
      decisions_tail hhead (by rw [hr]) (by rw [hr])
    rw [hr] at hdec
    have hsame := hs.explains
    rw [underWay,hdec] at hsame
    rw [underWay,hitems,List.append_assoc,List.singleton_append]
    exact hsame

theorem Traced.step (hs : s.Traced h) (ht : streamStep pidMax s e = some t) :
    t.Traced (observe s e t h) := by
  cases e with
  | push pid =>
    obtain ⟨q,-,rfl⟩ := Option.map_eq_some_iff.mp ht
    exact ⟨hs.consistent,hs.explains⟩
  | drain file =>
    cases ht
    exact hs.drain
  | dispatch ok =>
    cases ht
    exact hs.dispatch
  | endBatch =>
    cases ht
    exact ⟨hs.consistent,hs.explains⟩
  | pop =>
    obtain ⟨⟨d,q⟩,hpop,rfl⟩ := Option.map_eq_some_iff.mp ht
    have hitems := BoundedQueue.pop_eq_some.mp hpop
    refine ⟨hs.consistent,?_⟩
    have hsame := hs.explains
    rw [underWay,hitems,List.cons_append] at hsame
    simp only [observe,hitems,List.head?_cons]
    exact hsame.deliver

end UserSide

open UserSide in
/-- Decisions popped, decisions in the map and decisions in the list are, in this order, the
records taken, in the order they were taken, each with the slice computed for it; and the
daemon leaves out exactly the records whose PID it lists when it sees them. -/
theorem decision_stream_fifo {pidMax : ℕ} {es : List StreamEvent} {s : UserSide}
    {h : QueueHistory DispatchedTask}
    (hr : run (withGhost (streamStep pidMax) observe) (start,QueueHistory.empty) es = some (s,h)) :
    h.delivered ++ s.link.dispatched.items ++ decisions s.daemon = h.accepted ∧
      ∀ file pid rest, s.link.enqueued.items = pid :: rest → pid < pidMax →
        (¬s.daemon.Took (s.drainRound pidMax file).1.daemon pid ↔ pid ∈ s.daemon.dispatchHead) := by
  have htraced : s.Traced h := run_invariant (P := fun p : UserSide × _ => p.1.Traced p.2)
    (fun p e q hp hq => by
      obtain ⟨hstep,hghost⟩ := withGhost_eq_some.mp hq
      rw [hghost]
      exact hp.step hstep) traced_start hr
  refine ⟨?_,fun file pid rest hhead hpid => ?_⟩
  · rw [List.append_assoc]
    exact htraced.explains
  · rcases drainRound_cases pidMax file s with
      ⟨hempty,-⟩ | ⟨n,rest',hhead',⟨hbig,-⟩ | ⟨-,hq,hr⟩ | ⟨hacc,d,hr,-,htasks,-⟩⟩
    · rw [hempty] at hhead
      cases hhead
    all_goals
      rw [hhead] at hhead'
      obtain ⟨rfl,-⟩ := List.cons.inj hhead'
    · exact absurd hpid (Nat.not_lt.mpr hbig)
    · rw [hr]
      exact iff_of_true (Daemon.not_took_of_tasks rfl) ((htraced.consistent.queued_iff pid).mp hq)
    · rw [hr]
      exact iff_of_false (not_not_intro ⟨hacc.2,by simp [htasks]⟩)
        ((htraced.consistent.accepts_iff hpid).mp hacc)

/-- Two records of PID 7 with the command line `f 30`: the second is left out, the decision
for the first reaches the kernel. -/
theorem decision_stream_fifo_twice :
    ∃ s h, run (withGhost (streamStep 100) observe) (UserSide.start,QueueHistory.empty)
        [.push 7,.push 7,.drain (some [102,0,51,48,0]),.drain none,.dispatch true,.pop] = some (s,h) ∧
      h.accepted = [⟨7,1⟩] ∧ h.delivered = [⟨7,1⟩] ∧
      h.delivered ++ s.link.dispatched.items ++ UserSide.decisions s.daemon = h.accepted :=
  ⟨_,_,rfl,rfl,rfl,(@decision_stream_fifo 100 _ _ _ (Eq.refl (run (withGhost (streamStep 100) observe)
    (UserSide.start,QueueHistory.empty)
    [.push 7,.push 7,.drain (some [102,0,51,48,0]),.drain none,.dispatch true,.pop]))).1⟩

/-! ## The daemon's functions are such steps -/

namespace UserSide
variable {pidMax : ℕ}

theorem drainEnqueuedMap_run (files : ℕ → Option (List UInt8)) (rounds : ℕ) (s : UserSide) :
    ∃ es, run (streamStep pidMax) s es = some (drainEnqueuedMap pidMax files rounds s) := by
  induction rounds generalizing s with
  | zero => exact ⟨[],rfl⟩
  | succ rounds ih =>
    have hstep : streamStep pidMax s (.drain (files rounds)) =
        some (s.drainRound pidMax (files rounds)).1 := rfl
    rcases hround : s.drainRound pidMax (files rounds) with ⟨t,goesOn⟩
    rw [hround] at hstep
    cases goesOn with
    | false =>
      refine ⟨[.drain (files rounds)],?_⟩
      rw [run_cons_of_step hstep,drainEnqueuedMap,hround]
      rfl
    | true =>
      obtain ⟨es,hes⟩ := ih t
      refine ⟨.drain (files rounds) :: es,?_⟩
      rw [run_cons_of_step hstep,hes,drainEnqueuedMap,hround]

theorem dispatchRounds_run (answers : ℕ → Bool) (rounds : ℕ) (s : UserSide) :
    ∃ es, run (streamStep pidMax) s es = some (dispatchRounds answers rounds s) := by
  induction rounds generalizing s with
  | zero => exact ⟨[],rfl⟩
  | succ rounds ih =>
    have hstep : streamStep pidMax s (.dispatch (answers rounds)) =
        some (s.dispatchRound (answers rounds)).1 := rfl
    rcases hround : s.dispatchRound (answers rounds) with ⟨t,goesOn⟩
    rw [hround] at hstep
    cases goesOn with
    | false =>
      refine ⟨[.dispatch (answers rounds)],?_⟩
      rw [run_cons_of_step hstep,dispatchRounds,hround]
      rfl
    | true =>
      obtain ⟨es,hes⟩ := ih t
      refine ⟨.dispatch (answers rounds) :: es,?_⟩
      rw [run_cons_of_step hstep,hes,dispatchRounds,hround]

theorem dispatchBatch_run (batchSize : UInt32) (answers : ℕ → Bool) (s : UserSide) :
    ∃ es, run (streamStep pidMax) s es = some (dispatchBatch batchSize answers s) := by
  obtain ⟨es,hes⟩ : ∃ es, run (streamStep pidMax) s es =
      some (dispatchRounds answers batchSize.toNat s) := dispatchRounds_run answers batchSize.toNat s
  exact ⟨es ++ [.endBatch],by rw [run_append_of_run hes]; rfl⟩

end UserSide
end ServerlessSched.UserAssigned
