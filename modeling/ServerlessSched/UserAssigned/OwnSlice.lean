import ServerlessSched.Policy.Agreement
import ServerlessSched.UserAssigned.Delivery

/-! # The slice a job asks for arrives

A task that is enabled while nothing is under way for its PID gets the slice its own command
line calls for: the daemon reads it from the process behind the record, and nothing else that
is listed or decided bears the PID. Between its enabling and its decision a process may call
`exec`, as long as the new command line ends in the same number.
-/
namespace ServerlessSched.UserAssigned
open Runs Agreement Decimal Kern

namespace KernelSide
variable {userschedPid : ℕ} {s t : KernelSide} {e : KernelEvent} {q : Proc}

theorem dispatch_mm (cpu : ℕ) (env : DispatchEnv) (s : KernelSide) :
    Same TaskStruct.mm s.kern (dispatch userschedPid cpu env s).kern := by
  have hserved : Same TaskStruct.mm s.kern (serveDaemon userschedPid env.reserve s).kern :=
    serveDaemon_same (fun _ _ => rfl) userschedPid env.reserve s
  have hdecided : Same TaskStruct.mm s.kern
      (dequeueTasksFromUserspace env.pick (serveDaemon userschedPid env.reserve s)).kern := by
    rw [dequeueTasksFromUserspace_eq]
    exact hserved.trans (applyDecisions_same _ _ _ _ (fun _ _ _ _ => rfl))
  unfold dispatch
  dsimp only
  split
  case isTrue => exact hdecided
  case isFalse => exact hdecided.trans (scanSharedDsq_same (fun _ _ => rfl) cpu env.moves _ _)

theorem enable_mm (p : Proc) (alloc : Bool) (s : KernelSide) :
    Same TaskStruct.mm s.kern (enable userschedPid p alloc s).1.kern := by
  have henrol : Same TaskStruct.mm s.kern (s.kern.modify p (enrol s.kern.globalVtime)) := Same.modify rfl
  rcases enable_cases userschedPid p alloc s with ⟨-,-,hres⟩ | ⟨-,hres⟩
  · rw [hres]
    exact (refuse_same p s.kern).map Standing.mm
  · rw [hres]
    dsimp only
    split
    case isTrue => exact henrol
    case isFalse =>
      exact henrol.trans ((enqueueTaskInUserspace_effect p
        (s.onKern (fun k => k.modify p (enrol k.globalVtime)))).1.map Standing.mm)

/-- Only its own `exec` gives a living process another image. -/
theorem perform_mm (hspawn : ∀ cpu mm, e ≠ .spawn q cpu mm) (hexec : ∀ mm, e ≠ .exec q mm) (s : KernelSide) :
    (((serverlessOps userschedPid).perform s e).kern.task q).mm = (s.kern.task q).mm := by
  have hsettled : ∀ (force : Bool) (k : Kern TaskCtx), Same TaskStruct.mm s.kern k →
      ((k.settle force).task q).mm = (s.kern.task q).mm :=
    fun force k h => (h.trans (settle_same (fun _ _ => rfl) force k)).task q
  cases e with
  | spawn p cpu mm =>
    have hne : q ≠ p := fun heq => hspawn cpu mm (by rw [heq])
    exact congrArg TaskStruct.mm (modify_task_ne s.kern (fun _ => ⟨0,0,0,cpu,mm,none,false,.idle⟩) hne)
  | exec p mm =>
    have hne : q ≠ p := fun heq => hexec mm (by rw [heq])
    exact congrArg TaskStruct.mm (modify_task_ne s.kern (fun t => { t with mm := mm }) hne)
  | tick p ns => exact (tick_same (fun _ _ => rfl) p ns s.kern).task q
  | exit p =>
    have hreap : ∀ k : Kern TaskCtx, Same TaskStruct.mm s.kern k → ((Kern.reap p k).task q).mm = (s.kern.task q).mm := by
      intro k h
      have hgone : Same TaskStruct.mm k (k.modify p (fun t => { t with ctx := none })) := Same.modify rfl
      exact (h.trans hgone).task q
    unfold SchedExtOps.perform
    dsimp only
    split
    case isTrue =>
      have hdisable : Same TaskStruct.mm s.kern (disable p s.kern) := Same.modify rfl
      exact hreap _ (hdisable.trans (leave_same (fun _ => rfl) p _))
    case isFalse => exact hreap _ Same.rfl
  | enable p alloc =>
    unfold SchedExtOps.perform
    dsimp only
    split
    case isTrue => exact (enable_mm p alloc s).task q
    case isFalse =>
      have henabled : ∀ k : Kern TaskCtx, Same TaskStruct.mm k (Kern.setEnabled p k) := setEnabled_same (fun _ => rfl) p
      exact ((henabled _).task q).trans (hsettled true _ (enable_mm p alloc s))
  | disable p =>
    have hdisable : Same TaskStruct.mm s.kern (disable p s.kern) := Same.modify rfl
    exact (hdisable.trans (leave_same (fun _ => rfl) p _)).task q
  | selectCpu p cpu isIdle => exact hsettled true _ (selectCpu_same (fun _ _ => rfl) p cpu isIdle s.kern)
  | enqueue p idleCpu =>
    have hphase : Same TaskStruct.mm s.kern (Kern.setPhase p .withheld s.kern) := setPhase_same (fun _ _ => rfl) p _ _
    exact hsettled false _ (hphase.trans ((enqueue_same userschedPid p idleCpu _).map Standing.mm))
  | dispatch cpu env => exact hsettled false _ (dispatch_mm cpu env s)
  | running p =>
    have hphase : Same TaskStruct.mm s.kern (Kern.setPhase p .running s.kern) := setPhase_same (fun _ _ => rfl) p _ _
    exact (hphase.trans (running_same p _)).task q
  | stopping p =>
    have hstop : Same TaskStruct.mm s.kern (stopping p s.kern) := chargeStopping_same (fun _ _ _ _ => rfl) s.kern p
    exact (hstop.trans (setPhase_same (fun _ _ => rfl) p .idle _)).task q
  | updateIdle cpu idle => exact (updateIdle_same cpu idle s).task q

end KernelSide

/-- A process with a command line whose last argument is the number of a job. -/
structure RunsJob (n : ℕ) (mm : Mm) : Prop where
  positive : 0 < n
  small : n < 2 ^ 31
  area : ∃ others ≠ [], mm.argArea = some (argImage (others ++ [numeral n])) ∧
    (argImage (others ++ [numeral n])).length ≤ 511

theorem RunsJob.requested {n : ℕ} {mm : Mm} (h : RunsJob n mm) :
    translateSlice (requestedSlice mm.argArea) = policySlice n := by
  obtain ⟨others,hothers,harea,hfit⟩ := h.area
  rw [harea,translateSlice_requestedSlice,parsedArg_argImage hothers h.positive h.small hfit]

namespace Transfer
variable {cfg : Config} {s t : Transfer} {e : TransferEvent} {p : Proc} {n : ℕ}

/-- What may happen to the job between its enabling and its decision. -/
structure Keeps (n : ℕ) (p : Proc) (e : TransferEvent) : Prop where
  remains : Remains p e
  exec : ∀ mm, e = .kernel (.exec p mm) → RunsJob n mm
  readable : e ≠ .insert false

/-- All that is listed, decided or stored for the PID of an enabled task is what it asks for. -/
structure Asks (n : ℕ) (p : Proc) (s : Transfer) : Prop where
  wellFormed : s.WellFormed
  enabled : s.board.enabled p = true
  job : RunsJob n (s.kern.task p).mm
  listed : p.pid ∈ s.daemon.dispatchHead → translateSlice (s.daemon.tasks p.pid).slice = policySlice n
  dispatched : ∀ u ∈ s.board.dispatched.items, u.pid = p.pid → translateSlice u.slice = policySlice n
  status : ∀ slice, s.board.status p = some (some slice) → slice = policySlice n

theorem Asks.consume (hs : Asks n p s) {slice : UInt64} (h : s.board.consume.status p = some (some slice)) :
    slice = policySlice n := by
  cases hlast : (decisionsFor s.board.pids p s.board.dispatched.items).getLast? with
  | none => exact hs.status slice ((Board.consume_status_of_none hlast).symm.trans h)
  | some d =>
    obtain ⟨u,hu,hholder,rfl⟩ := mem_decisionsFor.mp (List.mem_of_getLast? hlast)
    have hpid : p.pid = u.pid := s.board.pids.holder_pid u.pid p hholder
    rw [Board.consume_status_of_some hlast] at h
    obtain ⟨v,-,hv⟩ := Option.map_eq_some_iff.mp h
    rw [← Option.some.inj hv]
    exact hs.dispatched u hu hpid.symm

theorem Asks.kernel {e : KernelEvent} (hs : Asks n p s) (he : Keeps n p (.kernel e))
    (h : Transfer.step cfg s (.kernel e) = some t) : Asks n p t := by
  obtain ⟨hk,hd,hhand⟩ := step_ops h
  obtain ⟨hadmits,hb⟩ := KernelSide.board_step hk
  obtain ⟨-,hperform⟩ := SchedExtOps.step_eq_some.mp hk
  have hspawn : ∀ cpu mm, e ≠ .spawn p cpu mm := by
    rintro cpu mm rfl
    have hholder : s.board.pids.holder p.pid = some p := hs.wellFormed.board.live p hs.enabled
    have hfree : s.board.pids.holder p.pid = none := hadmits
    rw [hholder] at hfree
    cases hfree
  have hjob : RunsJob n (t.kern.task p).mm := by
    by_cases hexec : ∃ mm, e = .exec p mm
    · obtain ⟨mm,rfl⟩ := hexec
      have hnew : (t.kern.task p).mm = mm := by
        rw [Machine.kern,hperform]
        exact congrArg TaskStruct.mm (modify_task_self s.kern.clearCalls p (fun t => { t with mm := mm }))
      rw [hnew]
      exact he.exec mm rfl
    · have hsame : (t.kern.task p).mm = (s.kern.task p).mm := by
        rw [Machine.kern,hperform]
        exact KernelSide.perform_mm hspawn (fun mm hmm => hexec ⟨mm,hmm⟩) (s.sched.onKern Kern.clearCalls)
      rw [hsame]
      exact hs.job
  have hlisted : p.pid ∈ t.daemon.dispatchHead → translateSlice (t.daemon.tasks p.pid).slice = policySlice n := by
    rw [hd]
    exact hs.listed
  have hw := wellFormed_step hs.wellFormed h
  by_cases hread : ∃ cpu env, e = .dispatch cpu env
  · obtain ⟨cpu,env,rfl⟩ := hread
    have hconsume : t.board = s.board.consume := hb
    refine ⟨hw,by rw [hconsume]; exact hs.enabled,hjob,hlisted,?_,?_⟩
    · rw [hconsume]
      exact fun u hu => (List.not_mem_nil hu).elim
    · rw [hconsume]
      exact fun slice hslice => hs.consume hslice
  · have hother : ∀ cpu env, e ≠ .dispatch cpu env := fun cpu env heq => hread ⟨cpu,env,heq⟩
    obtain ⟨henabled,hstatus⟩ := kept_of_kernel hs.wellFormed hs.enabled he.remains h hother
    refine ⟨hw,henabled,hjob,hlisted,?_,by rw [hstatus]; exact hs.status⟩
    have hdisp : t.board.dispatched = s.board.dispatched := by
      have hmap := congrArg Board.dispatched hb
      cases e with
      | dispatch cpu env => exact absurd rfl (hother cpu env)
      | enable q alloc =>
        unfold Board.step at hmap
        dsimp only at hmap
        split at hmap <;> exact hmap
      | _ => exact hmap
    rw [hdisp]
    exact hs.dispatched

/-- A round that leaves the kernel as it is. -/
theorem Asks.user (hs : Asks n p s) (hw : t.WellFormed) (hkern : t.kern = s.kern)
    (hlisted : p.pid ∈ t.daemon.dispatchHead → translateSlice (t.daemon.tasks p.pid).slice = policySlice n)
    (hdispatched : ∀ u ∈ t.board.dispatched.items, u.pid = p.pid → translateSlice u.slice = policySlice n) :
    Asks n p t := by
  have htask : t.kern.task p = s.kern.task p := by rw [hkern]
  refine ⟨hw,?_,by rw [htask]; exact hs.job,hlisted,hdispatched,?_⟩
  · exact (congrArg TaskStruct.enabled htask).trans hs.enabled
  · intro slice hslice
    apply hs.status slice
    rw [← hslice]
    exact (congrArg (fun u : TaskStruct TaskCtx => u.ctx.map TaskCtx.verdict) htask).symm

theorem Asks.insert {readable : Bool} (hs : Asks n p s) (he : Keeps n p (.insert readable))
    (h : Transfer.step cfg s (.insert readable) = some t) : Asks n p t := by
  have hkern := step_user (fun k hk => by cases hk) h
  have hw := wellFormed_step hs.wellFormed h
  obtain ⟨pid,rest,-,-,hb,⟨-,hd⟩ | ⟨-,-,hd⟩ | ⟨-,hlist,htasks,-⟩⟩ := step_insert h
  · exact hs.user hw hkern (by rw [hd]; exact hs.listed) (by rw [hb]; exact hs.dispatched)
  · exact hs.user hw hkern (by rw [hd]; exact hs.listed) (by rw [hb]; exact hs.dispatched)
  · refine hs.user hw hkern ?_ (by rw [hb]; exact hs.dispatched)
    rw [hlist,htasks]
    intro hmem
    by_cases hpid : p.pid = pid
    · subst hpid
      have hread : readable = true := by
        cases readable with
        | true => rfl
        | false => exact absurd rfl he.readable
      have hholder : s.kern.pids.holder p.pid = some p := hs.wellFormed.board.live p hs.enabled
      have harea : s.cmdlineOf p.pid readable = (s.kern.task p).mm.argArea := by
        rw [cmdlineOf,if_pos hread,Machine.procCmdline,hholder,Option.bind_some]
      rw [Function.update_self,harea]
      exact hs.job.requested
    · rw [Function.update_of_ne hpid]
      refine hs.listed ((List.mem_append.mp hmem).resolve_right ?_)
      rw [List.mem_singleton]
      exact hpid

theorem Asks.dispatch {ok : Bool} (hs : Asks n p s) (h : Transfer.step cfg s (.dispatch ok) = some t) : Asks n p t := by
  have hkern := step_user (fun k hk => by cases hk) h
  have hw := wellFormed_step hs.wellFormed h
  rcases Machine.step_dispatch_cases (step_dispatch h).1 with
    ⟨-,hb,htasks,hlist,-⟩ | ⟨pid,rest,q,hhead,hq,hb,hlist,htasks,-⟩
  · exact hs.user hw hkern (by rw [hlist,htasks]; exact hs.listed) (by rw [hb]; exact hs.dispatched)
  · have hslice : p.pid ∈ s.daemon.dispatchHead → (t.daemon.tasks p.pid).slice = (s.daemon.tasks p.pid).slice := by
      intro _
      rw [htasks]
      by_cases hpid : p.pid = pid
      · subst hpid
        rw [Function.update_self]
      · rw [Function.update_of_ne hpid]
    refine hs.user hw hkern ?_ ?_
    · intro hmem
      have hbefore : p.pid ∈ s.daemon.dispatchHead := by
        rw [hhead]
        exact List.mem_cons_of_mem pid (hlist ▸ hmem)
      rw [hslice hbefore]
      exact hs.listed hbefore
    · rw [hb]
      intro u hu hpid
      rcases List.mem_append.mp (hq ▸ hu) with hu | hu
      · exact hs.dispatched u hu hpid
      · cases List.mem_singleton.mp hu
        have hpid : pid = p.pid := hpid
        subst hpid
        exact hs.listed (by rw [hhead]; exact List.mem_cons_self)

/-- A part of the daemon's work that moves no decision and lists no task. -/
theorem Asks.congr (hs : Asks n p s) (hw : t.WellFormed) (hkern : t.kern = s.kern) (hd : t.daemon = s.daemon)
    (hdisp : t.board.dispatched = s.board.dispatched) : Asks n p t :=
  hs.user hw hkern (by rw [hd]; exact hs.listed) (by rw [hdisp]; exact hs.dispatched)

theorem Asks.step (hs : Asks n p s) (he : Keeps n p e) (h : Transfer.step cfg s e = some t) : Asks n p t := by
  have hw := wellFormed_step hs.wellFormed h
  cases e with
  | kernel e => exact hs.kernel he h
  | insert readable => exact hs.insert he h
  | dispatch ok => exact hs.dispatch h
  | pop =>
    obtain ⟨pid,rest,-,hb,hd,-⟩ := step_pop h
    exact hs.congr hw (step_user (fun k hk => by cases hk) h) hd (by rw [hb])
  | drained =>
    obtain ⟨-,-,hb,hd⟩ := step_drained h
    exact hs.congr hw (step_user (fun k hk => by cases hk) h) hd (by rw [hb])
  | endBatch =>
    obtain ⟨-,hb,hd⟩ := step_endBatch h
    exact hs.congr hw (step_user (fun k hk => by cases hk) h) hd (by rw [hb])

/-- How far a record that is pushed now is from the end of its way. -/
def delay (s : Transfer) : ℕ :=
  s.link.dispatched.items.length + 2 * s.daemon.dispatchHead.length + 3 * (s.arriving.length + 1)

theorem asks_enable (hw : s.WellFormed) (hpid : p.pid ≠ cfg.userschedPid) (hroom : s.link.enqueued.HasRoom)
    (hfresh : p.pid ∉ s.pendingPids) (hjob : RunsJob n (s.kern.task p).mm)
    (h : step cfg s (.kernel (.enable p true)) = some t) :
    Asks n p t ∧ p.pid ∈ t.pendingPids ∧ t.pipeline.distance p.pid = s.delay := by
  obtain ⟨hk,hd,hhand⟩ := step_ops h
  obtain ⟨-,hperform⟩ := SchedExtOps.step_eq_some.mp hk
  rcases KernelSide.enable_step hw.board hk with ⟨hfails,-⟩ | ⟨-,hjoin,henabled,hnew⟩
  · cases hfails
  have hb : t.board = s.board.join cfg.userschedPid p := hjoin
  have hdisp : t.board.dispatched = s.board.dispatched := by
    rw [hb]
    rfl
  rcases Board.join_enqueued cfg.userschedPid s.board p with ⟨-,hcause⟩ | ⟨-,-,hitems⟩
  · exact absurd hroom (hcause.resolve_left hpid)
  have henq : t.board.enqueued.items = s.board.enqueued.items ++ [p.pid] := by
    rw [hb]
    exact hitems
  have hmm : (t.kern.task p).mm = (s.kern.task p).mm := by
    rw [Machine.kern,hperform]
    exact KernelSide.perform_mm (fun cpu mm hf => by cases hf) (fun mm hf => by cases hf) (s.sched.onKern Kern.clearCalls)
  have hnotlisted : p.pid ∉ s.daemon.dispatchHead := fun hmem => hfresh (mem_pendingPids.mpr (Or.inr (Or.inl hmem)))
  have hnotdecided : ∀ u ∈ s.board.dispatched.items, u.pid ≠ p.pid :=
    fun u hu hup => hfresh (mem_pendingPids.mpr (Or.inr (Or.inr ⟨u,hu,hup⟩)))
  have harr : t.arriving = s.arriving ++ [p.pid] := arriving_push hhand henq
  have hnotpushed : p.pid ∉ s.arriving := fun hmem => hfresh (mem_pendingPids.mpr (Or.inl hmem))
  refine ⟨⟨wellFormed_step hw h,henabled,by rw [hmm]; exact hjob,?_,?_,?_⟩,?_,?_⟩
  · rw [hd]
    exact fun hmem => absurd hmem hnotlisted
  · rw [hdisp]
    exact fun u hu hup => absurd hup (hnotdecided u hu)
  · intro slice hslice
    have hstatus : t.board.status p = some none := by
      rw [hb]
      exact (Function.update_self p _ _).trans (by rw [show s.board.status p = none from hnew]; rfl)
    rw [hstatus] at hslice
    cases hslice
  · apply mem_pendingPids.mpr
    exact Or.inl (harr.symm ▸ List.mem_append_right _ List.mem_cons_self)
  · have hnotmapped : p.pid ∉ s.board.dispatched.items.map DispatchedTask.pid := by
      intro hmem
      obtain ⟨u,hu,hup⟩ := List.mem_map.mp hmem
      exact hnotdecided u hu hup
    rw [pipeline_eq harr (congrArg Daemon.dispatchHead hd) hdisp,Pipeline.distance_of_enqueued hnotmapped hnotlisted,
      List.idxOf_append_of_notMem hnotpushed,List.idxOf_cons_self,List.length_map]
    rfl

end Transfer

open Transfer
open Machine (demoConfig)

/-- A task is enabled with room for its record while nothing is under way for its PID. After as
many turns as its record is away from the end of its way it has the slice its own command line
calls for, whatever other tasks, other records and the daemon's batches do meanwhile. -/
theorem own_slice_delivered {cfg : Config} {k : Kern TaskCtx} {es : List TransferEvent} {r s t : Transfer} {p : Proc}
    {n : ℕ} {turns : List (List TransferEvent)} (hreach : run (step cfg) (start k) es = some r)
    (henable : step cfg r (.kernel (.enable p true)) = some s) (hpid : p.pid ≠ cfg.userschedPid)
    (hroom : r.link.enqueued.HasRoom) (hfresh : p.pid ∉ r.pendingPids) (hjob : RunsJob n (r.kern.task p).mm)
    (hr : run (step cfg) s turns.flatten = some t) (hkeeps : ∀ e ∈ turns.flatten, Keeps n p e)
    (hexit : t.daemon.exitReq = false) (hturns : ∀ turn ∈ turns, FullTurn stageOf turn)
    (hlength : r.delay ≤ turns.length) :
    ∃ tctx, (t.kern.task p).enabled = true ∧ (t.kern.task p).ctx = some tctx ∧ tctx.hasSlice = true ∧
      tctx.slice = policySlice n := by
  have hw : r.WellFormed := run_invariant (P := fun s => s.WellFormed) (fun s e t hs h => wellFormed_step hs h)
    (Machine.wellFormed_start k) hreach
  obtain ⟨hs,hpending,hdistance⟩ := asks_enable hw hpid hroom hfresh hjob henable
  have ht : Asks n p t := by
    have hC : Along (step cfg) (fun _ e => Keeps n p e) s turns.flatten := along_of_forall (fun _ => hkeeps)
    have hI : ∀ s e t, Asks n p s → Keeps n p e → step cfg s e = some t → Asks n p t :=
      fun s e t hs he h => hs.step he h
    exact always_iff_visited.mp (always_of_along hI hs hC) _ t List.prefix_rfl hr
  have hsettled : Settled p t := settled_of_turns ⟨hs.wellFormed,hs.enabled,Or.inl (holds_iff.mpr hpending)⟩ hr
    (fun e he => (hkeeps e he).remains) hturns (hdistance.trans_le hlength)
  obtain ⟨slice,hslice⟩ : Decided p t := hsettled.resolve_right (by rw [hexit]; decide)
  obtain ⟨tctx,hctx,hverdict⟩ := Option.map_eq_some_iff.mp hslice
  have hasSlice : tctx.hasSlice = true := by
    by_contra hnone
    rw [TaskCtx.verdict,if_neg hnone] at hverdict
    cases hverdict
  rw [TaskCtx.verdict,if_pos hasSlice] at hverdict
  exact ⟨tctx,ht.enabled,hctx,hasSlice,(Option.some.inj hverdict).trans (ht.status slice hslice)⟩

/-- What a launcher starts for job 30 under `sched_ext`, and what that becomes by its `exec`. -/
def launched30 : Mm := .ofArea 4096 (argImage (launcherBaseCmd (ascii "/root/loadgen") ++ [numeral 30]))

def executed30 : Mm := .ofArea 4096 (argImage ([ascii "/root/loadgen/payload/launch_function.out"] ++ [numeral 30]))

theorem runsJob_launched30 : RunsJob 30 launched30 :=
  ⟨by decide,by decide,launcherBaseCmd (ascii "/root/loadgen"),by decide,by decide,by decide⟩

theorem runsJob_executed30 : RunsJob 30 executed30 :=
  ⟨by decide,by decide,[ascii "/root/loadgen/payload/launch_function.out"],by decide,by decide,by decide⟩

/-- The kernel reads the second map before the daemon hands over, and the daemon drains last. -/
def turnBefore (rest : List TransferEvent) : List TransferEvent :=
  .kernel (.dispatch 0 ⟨fun _ => false,fun _ => none,true⟩) :: .dispatch true :: rest

/-- The job calls `exec` while the daemon holds its record. -/
def turnsOf30 : List (List TransferEvent) :=
  [turnBefore [.pop,.kernel (.exec ⟨7,0⟩ executed30),.insert true],turnBefore [.drained],turnBefore [.drained]]

theorem fullTurn_turnBefore {rest : List TransferEvent} (h : ∃ e ∈ rest, stageOf e = some .drain) :
    FullTurn stageOf (turnBefore rest) := by
  obtain ⟨e,he,hstage⟩ := h
  intro stage
  cases stage with
  | drain => exact ⟨e,List.mem_cons_of_mem _ (List.mem_cons_of_mem _ he),hstage⟩
  | handOver => exact ⟨.dispatch true,List.mem_cons_of_mem _ List.mem_cons_self,rfl⟩
  | consume => exact ⟨_,List.mem_cons_self,rfl⟩

theorem own_slice_delivered_30 : ∃ r s t, run (step demoConfig) (start Kern.fresh) [.kernel (.spawn ⟨7,0⟩ 1 launched30)] = some r ∧
    step demoConfig r (.kernel (.enable ⟨7,0⟩ true)) = some s ∧
    run (step demoConfig) s turnsOf30.flatten = some t ∧
    ∃ tctx, (t.kern.task ⟨7,0⟩).enabled = true ∧ (t.kern.task ⟨7,0⟩).ctx = some tctx ∧ tctx.hasSlice = true ∧
      tctx.slice = policySlice 30 := by
  obtain ⟨r,hr,hroom,hfresh,himage,hdelay⟩ : ∃ r,
      run (step demoConfig) (start Kern.fresh) [.kernel (.spawn ⟨7,0⟩ 1 launched30)] = some r ∧
      r.link.enqueued.HasRoom ∧ (7 : ℕ) ∉ r.pendingPids ∧ (r.kern.task ⟨7,0⟩).mm = launched30 ∧ r.delay ≤ 3 :=
    ⟨_,rfl,by decide,by decide,rfl,by decide⟩
  obtain ⟨s,hs⟩ : ∃ s, step demoConfig r (.kernel (.enable ⟨7,0⟩ true)) = some s := by
    cases hr
    exact ⟨_,rfl⟩
  obtain ⟨t,ht,hexit⟩ : ∃ t, run (step demoConfig) s turnsOf30.flatten = some t ∧ t.daemon.exitReq = false := by
    cases hr
    cases hs
    exact ⟨_,rfl,rfl⟩
  refine ⟨r,s,t,hr,hs,ht,own_slice_delivered hr hs (by decide) hroom hfresh (himage ▸ runsJob_launched30) ht ?_ hexit
    ?_ hdelay⟩
  · have hevents : ∀ e ∈ turnsOf30.flatten, Remains ⟨7,0⟩ e ∧ e ≠ .insert false ∧
        ∀ mm, e = .kernel (.exec ⟨7,0⟩ mm) → mm = executed30 := by
      simp [turnsOf30,turnBefore,Remains]
    intro e he
    obtain ⟨hremains,hreadable,himages⟩ := hevents e he
    exact ⟨hremains,fun mm hmm => by rw [himages mm hmm]; exact runsJob_executed30,hreadable⟩
  · intro turn hturn
    rcases List.mem_cons.mp hturn with rfl | hturn
    · exact fullTurn_turnBefore ⟨.insert true,by simp,rfl⟩
    · have hlast : turn = turnBefore [.drained] := by simpa using hturn
      rw [hlast]
      exact fullTurn_turnBefore ⟨.drained,by simp,rfl⟩

end ServerlessSched.UserAssigned
