import ServerlessSched.UserAssigned.Insertions
import ServerlessSched.UserAssigned.Transfer

/-! # Which tasks the decisions reach

A decision finds its task by PID, whatever has become of the task since. It reaches tasks
that the scheduler withholds, and no others, in the runs in which a PID under way is left
alone and decisions do not come before their tasks are handed over.
-/
namespace ServerlessSched.UserAssigned
open Kern Runs
open Machine (demoConfig)

namespace KernelSide
variable {p : Proc}

theorem serveDaemon_task_of_ne (userschedPid : ℕ) (reserve : Bool) (s : KernelSide)
    (hp : p.pid ≠ userschedPid) :
    (serveDaemon userschedPid reserve s).kern.task p = s.kern.task p := by
  rw [serveDaemon_kern]
  split
  case isFalse => rfl
  case isTrue =>
    unfold callDaemon
    cases hholder : s.kern.pids.holder userschedPid with
    | none => cases reserve <;> rfl
    | some q =>
      have hpq : p ≠ q := by
        rintro rfl
        exact hp (s.kern.pids.holder_pid _ _ hholder)
      cases reserve <;> simp [scxBpfDsqInsert,scxBpfError,hpq]

theorem dispatch_times (userschedPid cpu : ℕ) (env : DispatchEnv) (s : KernelSide)
    (hp : ∀ u ∈ s.bss.link.dispatched.items, s.kern.pids.holder u.pid ≠ some p) :
    (((dispatch userschedPid cpu env s).kern.settle false).task p).dsqVtime = (s.kern.task p).dsqVtime ∧
      (p.pid ≠ userschedPid →
        (((dispatch userschedPid cpu env s).kern.settle false).task p).slice = (s.kern.task p).slice) := by
  have hquiet := quiet_serveDaemon userschedPid env.reserve s
  have hdequeue : (dequeueTasksFromUserspace env.pick (serveDaemon userschedPid env.reserve s)).kern.task p =
      (serveDaemon userschedPid env.reserve s).kern.task p := by
    rw [dequeueTasksFromUserspace_eq]
    refine applyDecisions_task_of_ne _ _ _ _ (fun u hu => ?_)
    rw [hquiet.kern.pids]
    exact hp u (by rwa [← hquiet.dispatched])
  have htimes : (((dispatch userschedPid cpu env s).kern.settle false).task p).times =
      ((serveDaemon userschedPid env.reserve s).kern.task p).times := by
    apply ((settle_same (fun _ _ => rfl) false _).task p).trans
    rw [← hdequeue]
    unfold dispatch
    dsimp only
    split
    case isTrue => rfl
    case isFalse => exact (scanSharedDsq_same (fun _ _ => rfl) cpu env.moves _ _).task p
  have hserve : Same TaskStruct.dsqVtime s.kern (serveDaemon userschedPid env.reserve s).kern :=
    serveDaemon_same (fun _ _ => rfl) userschedPid env.reserve s
  refine ⟨(congrArg Prod.snd htimes).trans (hserve.task p),fun hpid => ?_⟩
  rw [← serveDaemon_task_of_ne userschedPid env.reserve s hpid]
  exact congrArg Prod.fst htimes

end KernelSide

namespace Transfer
variable {cfg : Config} {s t : Transfer} {p : Proc}

/-- An enabled task that has been handed over and is inserted nowhere. -/
def Withheld (s : Transfer) (p : Proc) : Prop :=
  (s.kern.task p).enabled = true ∧ (s.kern.task p).phase = .withheld

def released (t : Transfer) : List (DsqInsert TaskCtx) := t.kern.inserts.filter (fun i => i.dsq = .shared)

/-- A dispatch inserts withheld tasks only, each of them once, and keeps the slice and the
virtual time of every other task; the daemon's slice apart, which it sets to let it in. -/
def ReleasesWithheld (cfg : Config) (s : Transfer) : TransferEvent → Prop
  | .kernel (.dispatch cpu env) => ∀ t, step cfg s (.kernel (.dispatch cpu env)) = some t →
      (∀ i ∈ t.released, i.seen.enabled = true ∧ i.seen.phase = .withheld) ∧
      (t.released.map DsqInsert.task).Nodup ∧
      ∀ p, ¬s.Withheld p → (t.kern.task p).dsqVtime = (s.kern.task p).dsqVtime ∧
        (p.pid ≠ cfg.userschedPid → (t.kern.task p).slice = (s.kern.task p).slice)
  | _ => True

/-- A PID under way is not enabled, disabled or given to a new process, and when a dispatch
finds the decision of a waiting task, the task has been handed over. -/
def Undisturbed (cfg : Config) (s : Transfer) : TransferEvent → Prop
  | .kernel (.enable p true) => p.pid ≠ cfg.userschedPid → p.pid ∉ s.pendingPids
  | .kernel (.disable p) => p.pid ∉ s.pendingPids
  | .kernel (.spawn p _ _) => p.pid ∉ s.pendingPids
  | .kernel (.dispatch _ _) => ∀ u ∈ s.link.dispatched.items, ∀ p, s.kern.pids.holder u.pid = some p →
      Machine.Waiting cfg s.toMachine p → (s.kern.task p).phase = .withheld
  | _ => True

/-- Each PID is under way at most once, and whoever holds it is waiting for the decision. -/
structure Reserved (cfg : Config) (s : Transfer) : Prop where
  nodup : s.pendingPids.Nodup
  owner : ∀ n ∈ s.pendingPids, ∀ p, s.board.pids.holder n = some p → Machine.Waiting cfg s.toMachine p

theorem Reserved.mono (hs : Reserved cfg s) (hnodup : t.pendingPids.Nodup)
    (howner : ∀ n ∈ t.pendingPids, ∀ p, t.board.pids.holder n = some p →
      n ∈ s.pendingPids ∧ s.board.pids.holder n = some p ∧ (Machine.Waiting cfg s.toMachine p → Machine.Waiting cfg t.toMachine p)) :
    Reserved cfg t := by
  refine ⟨hnodup,fun n hn p hp => ?_⟩
  obtain ⟨hmem,hholder,hwait⟩ := howner n hn p hp
  exact hwait (hs.owner n hmem p hholder)

theorem Reserved.of_board (hs : Reserved cfg s) (hb : t.board = s.board)
    (hpending : t.pendingPids = s.pendingPids) : Reserved cfg t := by
  refine hs.mono (by rw [hpending]; exact hs.nodup) (fun n hn p hp => ?_)
  rw [hpending] at hn
  rw [hb] at hp
  exact ⟨hn,hp,fun hwait => by rwa [Machine.Waiting,hb]⟩

theorem Reserved.leave {pids : PidTable} (hs : Reserved cfg s) (hhand : t.hand = s.hand) (hd : t.daemon = s.daemon)
    (hb : t.board = { s.board.leave p with pids := pids })
    (hpids : ∀ n ∈ s.pendingPids, ∀ q, pids.holder n = some q → s.board.pids.holder n = some q ∧ q ≠ p) :
    Reserved cfg t := by
  have henq : t.board.enqueued = s.board.enqueued := by rw [hb]; rfl
  have hpending : t.pendingPids = s.pendingPids :=
    pendingPids_congr hd (arriving_congr hhand henq) (by rw [hb]; rfl)
  refine hs.mono (by rw [hpending]; exact hs.nodup) (fun n hn q hq => ?_)
  rw [hpending] at hn
  rw [hb] at hq
  obtain ⟨hholder,hqp⟩ := hpids n hn q hq
  refine ⟨hn,hholder,?_⟩
  rintro ⟨henabled,hpid,hwait⟩
  refine ⟨?_,hpid,?_⟩ <;> rw [hb]
  · simpa [Board.leave,hqp] using henabled
  · simpa [Board.leave,hqp] using hwait

theorem Reserved.join (hs : Reserved cfg s) (hhand : t.hand = s.hand) (hd : t.daemon = s.daemon) (hlive : s.board.pids.Live p)
    (hstatus : s.board.status p = none) (hb : t.board = s.board.join cfg.userschedPid p)
    (hfresh : p.pid ≠ cfg.userschedPid → p.pid ∉ s.pendingPids) : Reserved cfg t := by
  have hnew : p.pid ∉ s.pendingPids := by
    intro hmem
    exact hfresh (hs.owner _ hmem p hlive).2.1 hmem
  have hkept : ∀ n ∈ s.pendingPids, ∀ q, t.board.pids.holder n = some q →
      n ∈ s.pendingPids ∧ s.board.pids.holder n = some q ∧ (Machine.Waiting cfg s.toMachine q → Machine.Waiting cfg t.toMachine q) := by
    intro n hn q hq
    rw [hb] at hq
    have hqp : q ≠ p := by
      rintro rfl
      exact hnew (by rwa [s.board.pids.holder_pid n q hq])
    refine ⟨hn,hq,?_⟩
    rintro ⟨henabled,hpid,hwait⟩
    refine ⟨?_,hpid,?_⟩ <;> rw [hb]
    · simpa [Board.join,hqp] using henabled
    · simpa [Board.join,hqp] using hwait
  have hdisp : t.board.dispatched = s.board.dispatched := by rw [hb]; rfl
  rcases Board.join_enqueued cfg.userschedPid s.board p with ⟨hsame,-⟩ | ⟨hpid,-,hitems⟩
  · have henq : t.board.enqueued = s.board.enqueued := by rw [hb]; exact hsame
    have hpending : t.pendingPids = s.pendingPids := pendingPids_congr hd (arriving_congr hhand henq) hdisp
    exact hs.mono (by rw [hpending]; exact hs.nodup) (by rw [hpending]; exact hkept)
  · have hperm : t.pendingPids.Perm (p.pid :: s.pendingPids) := by
      have harr : t.arriving = s.arriving ++ [p.pid] :=
        arriving_push hhand ((congrArg (fun b : Board => b.enqueued.items) hb).trans hitems)
      have hdisp : t.link.dispatched = s.link.dispatched := hdisp
      rw [pendingPids,pendingPids,harr,hd,hdisp]
      simp only [List.append_assoc]
      exact List.perm_middle
    refine ⟨hperm.nodup_iff.mpr (List.nodup_cons.mpr ⟨hnew,hs.nodup⟩),fun n hn q hq => ?_⟩
    rcases List.mem_cons.mp (hperm.mem_iff.mp hn) with rfl | hmem
    · have hqp : q = p := by
        rw [hb] at hq
        exact Option.some.inj (hq.symm.trans hlive)
      subst hqp
      refine ⟨?_,hpid,?_⟩ <;> rw [hb]
      · exact Function.update_self _ _ _
      · simp [Board.join,hstatus]
    · obtain ⟨-,hholder,hwait⟩ := hkept n hmem q hq
      exact hwait (hs.owner n hmem q hholder)

theorem Reserved.consume (hs : Reserved cfg s) (hhand : t.hand = s.hand) (hd : t.daemon = s.daemon)
    (hb : t.board = s.board.consume) : Reserved cfg t := by
  have hpending : t.pendingPids = s.arriving ++ s.daemon.dispatchHead := by
    have henq : t.link.enqueued = s.link.enqueued := congrArg Board.enqueued hb
    have harr : t.arriving = s.arriving := arriving_congr hhand henq
    have hdisp : t.link.dispatched = .empty := congrArg Board.dispatched hb
    rw [pendingPids,harr,hd,hdisp]
    exact List.append_nil _
  have hnodup := List.nodup_append.mp hs.nodup
  refine hs.mono (by rw [hpending]; exact hnodup.1) (fun n hn q hq => ?_)
  rw [hpending] at hn
  rw [hb] at hq
  refine ⟨List.mem_append_left _ hn,hq,?_⟩
  rintro ⟨henabled,hpid,hwait⟩
  refine ⟨?_,hpid,?_⟩ <;> rw [hb]
  · exact henabled
  · have hnone : decisionsFor s.board.pids q s.board.dispatched.items = [] := by
      refine List.eq_nil_iff_forall_not_mem.mpr (fun d hdec => ?_)
      obtain ⟨u,hu,hholder,-⟩ := mem_decisionsFor.mp hdec
      have hpids : n = u.pid := by
        rw [← s.board.pids.holder_pid n q hq,← s.board.pids.holder_pid u.pid q hholder]
      exact hnodup.2.2 n hn u.pid (List.mem_map_of_mem hu) hpids
    rw [Board.consume_status_of_none (List.getLast?_eq_none_iff.mpr hnone)]
    exact hwait

theorem Reserved.kernel {e : KernelEvent} (hw : s.WellFormed) (hs : Reserved cfg s)
    (hC : Undisturbed cfg s (.kernel e)) (h : step cfg s (.kernel e) = some t) : Reserved cfg t := by
  obtain ⟨hk,hd,hhand⟩ := step_ops h
  obtain ⟨hadmits,hb⟩ := KernelSide.board_step hk
  have hquiet : t.board = s.board → Reserved cfg t := fun hsame =>
    hs.of_board hsame (pendingPids_congr hd (arriving_congr hhand (by rw [hsame])) (by rw [hsame]))
  cases e with
  | spawn p cpu mm =>
    refine hs.leave hhand hd hb (fun n hn q hq => ?_)
    have hne : n ≠ p.pid := by
      rintro rfl
      exact hC hn
    have hholder : s.board.pids.holder n = some q := (Function.update_of_ne hne _ _).symm.trans hq
    refine ⟨hholder,?_⟩
    rintro rfl
    exact hne (s.board.pids.holder_pid n q hholder).symm
  | exit p =>
    refine hs.leave hhand hd hb (fun n hn q hq => ?_)
    have hne : n ≠ p.pid := by
      rintro rfl
      have hnone : (s.board.pids.remove p.pid).holder p.pid = none := Function.update_self _ _ _
      cases hnone.symm.trans hq
    have hholder : s.board.pids.holder n = some q := (Function.update_of_ne hne _ _).symm.trans hq
    refine ⟨hholder,?_⟩
    rintro rfl
    exact hne (s.board.pids.holder_pid n q hholder).symm
  | disable p =>
    have hleave : t.board = { s.board.leave p with pids := s.board.pids } := hb
    refine hs.leave hhand hd hleave (fun n hn q hq => ⟨hq,?_⟩)
    rintro rfl
    exact hC (by rwa [s.board.pids.holder_pid n q hq])
  | enable p alloc =>
    rcases KernelSide.enable_step hw.board hk with ⟨-,hsame,-⟩ | ⟨rfl,hjoin,-,hstatus⟩
    · exact hquiet hsame
    · exact hs.join hhand hd hadmits.1 hstatus hjoin hC
  | dispatch cpu env => exact hs.consume hhand hd hb
  | _ => exact hquiet hb

theorem Reserved.insert {readable : Bool} (hs : Reserved cfg s)
    (h : step cfg s (.insert readable) = some t) : Reserved cfg t := by
  obtain ⟨pid,rest,hhead,htail,hb,hcase⟩ := step_insert h
  have hdisp : t.link.dispatched = s.link.dispatched := congrArg Board.dispatched hb
  have hsplit : s.pendingPids = pid :: (rest ++ s.daemon.dispatchHead ++
      s.link.dispatched.items.map DispatchedTask.pid) := by
    rw [pendingPids,hhead]
    rfl
  have hsub : t.pendingPids.Nodup ∧ ∀ n ∈ t.pendingPids, n ∈ s.pendingPids := by
    rw [pendingPids,htail,hdisp]
    have hdropped : (rest ++ s.daemon.dispatchHead ++
          s.link.dispatched.items.map DispatchedTask.pid).Nodup ∧
        ∀ n ∈ rest ++ s.daemon.dispatchHead ++
          s.link.dispatched.items.map DispatchedTask.pid, n ∈ s.pendingPids := by
      have hnodup := hs.nodup
      rw [hsplit] at hnodup ⊢
      exact ⟨(List.nodup_cons.mp hnodup).2,fun n hn => List.mem_cons_of_mem pid hn⟩
    rcases hcase with ⟨-,hd⟩ | ⟨-,-,hd⟩ | ⟨-,hlist,-,-⟩
    · rw [hd]
      exact hdropped
    · rw [hd]
      exact hdropped
    · rw [hlist]
      have hperm : (rest ++ (s.daemon.dispatchHead ++ [pid]) ++
          s.link.dispatched.items.map DispatchedTask.pid).Perm s.pendingPids := by
        rw [hsplit,← List.append_assoc,List.append_assoc]
        exact List.perm_middle
      exact ⟨hperm.nodup_iff.mpr hs.nodup,fun n hn => hperm.mem_iff.mp hn⟩
  refine hs.mono hsub.1 (fun n hn p hp => ⟨hsub.2 n hn,?_,?_⟩)
  · rwa [hb] at hp
  · intro hwait
    rwa [Machine.Waiting,hb]

/-- Taking a record into its hands is nothing new under way. -/
theorem Reserved.pop (hs : Reserved cfg s) (h : step cfg s .pop = some t) : Reserved cfg t := by
  obtain ⟨pid,rest,-,hb,hd,harr⟩ := step_pop h
  have hpending : t.pendingPids = s.pendingPids := pendingPids_congr hd harr (by rw [hb])
  refine hs.mono (by rw [hpending]; exact hs.nodup) (fun n hn p hp => ⟨by rwa [hpending] at hn,?_,?_⟩)
  · rwa [hb] at hp
  · intro hwait
    rwa [Machine.Waiting,hb]

theorem Reserved.dispatch {ok : Bool} (hs : Reserved cfg s)
    (h : step cfg s (.dispatch ok) = some t) : Reserved cfg t := by
  rcases Machine.step_dispatch_cases (step_dispatch h).1 with
    ⟨-,hb,-,hlist,-⟩ | ⟨pid,rest,q,hhead,hq,hb,hlist,-,-⟩
  all_goals
    have henq : t.link.enqueued = s.link.enqueued := congrArg Board.enqueued hb
    have harr : t.arriving = s.arriving := arriving_congr (step_dispatch h).2 henq
  · have hdisp : t.link.dispatched = s.link.dispatched := congrArg Board.dispatched hb
    exact hs.of_board hb (by rw [pendingPids,pendingPids,harr,hdisp,hlist])
  · have hdisp : t.link.dispatched = q := congrArg Board.dispatched hb
    have hperm : t.pendingPids.Perm s.pendingPids := by
      rw [pendingPids,pendingPids,harr,hdisp,hq,hlist,hhead,List.map_append,List.append_assoc,
        List.append_assoc]
      apply List.Perm.append_left _
      rw [← List.append_assoc]
      exact List.perm_append_comm
    refine hs.mono (hperm.nodup_iff.mpr hs.nodup) (fun n hn p hp => ⟨hperm.mem_iff.mp hn,?_,?_⟩)
    · rwa [hb] at hp
    · intro hwait
      rwa [Machine.Waiting,hb]

theorem Reserved.step {e : TransferEvent} (hw : s.WellFormed) (hs : Reserved cfg s)
    (hC : Undisturbed cfg s e) (h : step cfg s e = some t) : Reserved cfg t := by
  cases e with
  | kernel e => exact hs.kernel hw hC h
  | pop => exact hs.pop h
  | insert readable => exact hs.insert h
  | dispatch ok => exact hs.dispatch h
  | drained =>
    obtain ⟨hempty,hstill,hb,hd⟩ := step_drained h
    exact hs.of_board hb (pendingPids_congr hd (hstill.trans hempty.symm) (by rw [hb]))
  | endBatch =>
    obtain ⟨harr,hb,hd⟩ := step_endBatch h
    exact hs.of_board hb (pendingPids_congr hd harr (by rw [hb]))

/-- The daemon's insertion goes to another queue: what a dispatch releases is one task for each
decision whose PID is in use. -/
theorem released_of_dispatch {cpu : ℕ} {env : DispatchEnv}
    (h : step cfg s (.kernel (.dispatch cpu env)) = some t) :
    List.Forall₂ (InsertedFor s.kern)
      (s.link.dispatched.items.filter (fun u => (s.kern.pids.holder u.pid).isSome)) t.released := by
  obtain ⟨is,his,hall⟩ := KernelSide.step_dispatch_inserts (step_ops h).1
  have hdaemon : (KernelSide.daemonInsert cfg.userschedPid s.sched).filter (fun i => i.dsq = .shared) = [] := by
    unfold KernelSide.daemonInsert
    split
    case isFalse => rfl
    case isTrue => cases s.sched.kern.pids.holder cfg.userschedPid <;> rfl
  have hshared : is.filter (fun i => i.dsq = .shared) = is := by
    refine List.filter_eq_self.mpr (fun i hi => ?_)
    obtain ⟨u,-,hui⟩ := exists_record hall hi
    exact decide_eq_true hui.dsq
  have hreleased : t.released = is := by
    change t.sched.kern.inserts.filter _ = _
    rw [his,List.filter_append,hdaemon,hshared,List.nil_append]
  rw [hreleased]
  exact hall

theorem Reserved.releases {e : TransferEvent} (hs : Reserved cfg s) (hC : Undisturbed cfg s e) :
    ReleasesWithheld cfg s e := by
  unfold ReleasesWithheld
  split
  case h_2 => trivial
  case h_1 cpu env =>
    intro t ht
    have hwithheld : ∀ u ∈ s.link.dispatched.items, ∀ p, s.kern.pids.holder u.pid = some p →
        s.Withheld p := by
      intro u hu p hp
      have hwait : Machine.Waiting cfg s.toMachine p :=
        hs.owner u.pid (mem_pendingPids.mpr (Or.inr (Or.inr ⟨u,hu,rfl⟩))) p hp
      exact ⟨hwait.1,hC u hu p hp hwait⟩
    have hall := released_of_dispatch ht
    refine ⟨fun i hi => ?_,?_,fun p hp => ?_⟩
    · obtain ⟨u,hu,hui⟩ := exists_record hall hi
      obtain ⟨henabled,hphase⟩ := hwithheld u (List.mem_filter.mp hu).1 i.task hui.holder
      exact ⟨hui.enabled.trans henabled,hui.phase.trans hphase⟩
    · have hpids : (t.released.map DsqInsert.task).map Proc.pid =
          (s.link.dispatched.items.filter (fun u => (s.kern.pids.holder u.pid).isSome)).map
            DispatchedTask.pid := by
        rw [List.map_map]
        exact inserted_pids hall
      have hsub := (List.filter_sublist (p := fun u => (s.kern.pids.holder u.pid).isSome)
        (l := s.link.dispatched.items)).map DispatchedTask.pid
      apply List.Nodup.of_map Proc.pid
      rw [hpids]
      exact hsub.nodup (List.nodup_append.mp hs.nodup).2.1
    · obtain ⟨-,hperform⟩ := SchedExtOps.step_eq_some.mp (step_ops ht).1
      have htimes := KernelSide.dispatch_times (p := p) cfg.userschedPid cpu env
        (s.sched.onKern Kern.clearCalls) (fun u hu hholder => hp (hwithheld u hu p hholder))
      have hkern : t.kern = Kern.settle false (KernelSide.dispatch cfg.userschedPid cpu env
        (s.sched.onKern Kern.clearCalls)).kern := congrArg Sched.kern hperform
      rw [hkern]
      exact htimes

end Transfer

open Transfer in
/-- In every run that leaves the PIDs under way alone and hands tasks over before their
decisions are read, each dispatch releases withheld tasks only. -/
theorem dispatch_releases_withheld {cfg : Config} {k : Kern TaskCtx} {es : List TransferEvent}
    (h : Along (step cfg) (Undisturbed cfg) (start k) es) :
    Along (step cfg) (ReleasesWithheld cfg) (start k) es :=
  along_of_along (P := fun s => s.WellFormed ∧ Reserved cfg s)
    (fun _ _ _ hs hC ht => ⟨wellFormed_step hs.1 ht,hs.2.step hs.1 hC ht⟩)
    (fun _ _ _ hs hC _ => hs.2.releases hC)
    ⟨Machine.wellFormed_start k,List.nodup_nil,fun _ hn => (List.not_mem_nil hn).elim⟩ h

/-- A dispatch on CPU 0, which serves no tasks itself. -/
def readDecisions : TransferEvent := .kernel (.dispatch 0 ⟨fun _ => false,fun _ => none,true⟩)

/-- PID 8 is handed over while the daemon holds the record of PID 7. -/
def releasedBoth : List TransferEvent :=
  Transfer.arrival ⟨7,0⟩ ⟨0,0,fun _ => none⟩ ++ Transfer.arrival ⟨8,0⟩ ⟨0,0,fun _ => none⟩ ++
    [.kernel (.enqueue ⟨7,0⟩ none),.pop,.kernel (.enqueue ⟨8,0⟩ none),.insert false,.pop,.insert false,
      .dispatch true,.dispatch true,readDecisions]

open Transfer in
theorem dispatch_releases_withheld_two :
    (∃ s, run (step demoConfig) (start Kern.fresh) releasedBoth = some s ∧
      s.kern.sharedDsq.waiting = [⟨7,0⟩,⟨8,0⟩] ∧ s.link.dispatched.items = []) ∧
    Along (step demoConfig) (ReleasesWithheld demoConfig) (start Kern.fresh) releasedBoth := by
  refine ⟨⟨_,rfl,by decide +kernel,rfl⟩,dispatch_releases_withheld ?_⟩
  have hother : 8 ∉ [7] := by decide
  refine .cons rfl List.not_mem_nil (.cons rfl (fun _ => List.not_mem_nil) (.cons rfl hother ?_))
  refine .cons rfl (fun _ => hother) (.cons rfl trivial (.cons rfl trivial (.cons rfl trivial ?_)))
  refine .cons rfl trivial (.cons rfl trivial (.cons rfl trivial (.cons rfl trivial (.cons rfl trivial ?_))))
  refine .cons rfl ?_ trivial
  intro u hu p hp _
  rcases List.mem_pair.mp hu with rfl | rfl
  · cases hp
    rfl
  · cases hp
    rfl

def serveEight : TransferEvent := .kernel (.dispatch 1 ⟨fun q => q = ⟨8,0⟩,fun _ => none,true⟩)

/-- PID 7 is enabled again after its decision has been pushed, and gets a second one. The first
releases it into the shared queue, where it waits while PID 8 runs for 50 milliseconds. -/
def secondDecision : List TransferEvent :=
  Transfer.arrival ⟨7,0⟩ ⟨0,0,fun _ => none⟩ ++ Transfer.arrival ⟨8,0⟩ ⟨0,0,fun _ => none⟩ ++
    [.pop,.insert false,.pop,.insert false,.dispatch true,.dispatch true,
      .kernel (.disable ⟨7,0⟩),.kernel (.enable ⟨7,0⟩ true),
      .kernel (.enqueue ⟨7,0⟩ none),.kernel (.enqueue ⟨8,0⟩ none),readDecisions,
      serveEight,.kernel (.running ⟨8,0⟩),.kernel (.tick ⟨8,0⟩ 50000000),
      .kernel (.stopping ⟨8,0⟩),.kernel (.enqueue ⟨8,0⟩ none),serveEight,
      .pop,.insert false,.dispatch true]

open Transfer in
/-- The second decision moves the virtual time of a task that waits in the shared queue. -/
theorem decision_moves_queued_task :
    ∃ s t, run (step demoConfig) (start Kern.fresh) secondDecision = some s ∧
      step demoConfig s readDecisions = some t ∧ (s.kern.task ⟨7,0⟩).phase = .queued ∧
      ⟨7,0⟩ ∈ s.kern.sharedDsq.waiting ∧ (s.kern.task ⟨7,0⟩).dsqVtime = 0 ∧
      (t.kern.task ⟨7,0⟩).dsqVtime = 30000000 ∧ ¬ReleasesWithheld demoConfig s readDecisions := by
  obtain ⟨s,t,hs,ht,hphase,hwaits,hbefore,hafter⟩ : ∃ s t,
      run (step demoConfig) (start Kern.fresh) secondDecision = some s ∧
      step demoConfig s readDecisions = some t ∧ (s.kern.task ⟨7,0⟩).phase = .queued ∧
      ⟨7,0⟩ ∈ s.kern.sharedDsq.waiting ∧ (s.kern.task ⟨7,0⟩).dsqVtime = 0 ∧
      (t.kern.task ⟨7,0⟩).dsqVtime = 30000000 :=
    ⟨_,_,rfl,rfl,rfl,by decide +kernel,by decide +kernel,by decide +kernel⟩
  refine ⟨s,t,hs,ht,hphase,hwaits,hbefore,hafter,fun hreleases => ?_⟩
  have hqueued : ¬s.Withheld ⟨7,0⟩ := by
    rintro ⟨-,hwithheld⟩
    rw [hphase] at hwithheld
    cases hwithheld
  have hkept := ((hreleases t ht).2.2 ⟨7,0⟩ hqueued).1
  rw [hbefore,hafter] at hkept
  cases hkept

end ServerlessSched.UserAssigned
