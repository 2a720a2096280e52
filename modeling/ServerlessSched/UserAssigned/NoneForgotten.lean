import ServerlessSched.UserAssigned.Machine

/-! # Tasks that wait for a decision

A task without a slice is released by a decision only. It is never forgotten exactly in
the runs in which every task that is enabled gets its PID on the way to the daemon.
-/
namespace ServerlessSched.UserAssigned
open Runs

namespace Machine
variable {cfg : Config} {s t : Machine} {p : Proc}

/-- While the daemon runs, every enabled task without a slice has a record or a decision
under way. -/
def NoneForgotten (cfg : Config) (s : Machine) : Prop :=
  s.daemon.exitReq = false → ∀ p tctx, (s.kern.task p).enabled = true → p.pid ≠ cfg.userschedPid →
    (s.kern.task p).ctx = some tctx → tctx.hasSlice = false → p.pid ∈ s.pendingPids

/-- A task is enabled only if the first map has room for its record or its PID is already
on the way. -/
def Announceable (cfg : Config) (s : Machine) : MachineEvent → Prop
  | .kernel (.enable p true) => s.daemon.exitReq = false → p.pid ≠ cfg.userschedPid →
      s.link.enqueued.HasRoom ∨ p.pid ∈ s.pendingPids
  | _ => True

theorem noneForgotten_iff : NoneForgotten cfg s ↔
    (s.daemon.exitReq = false → ∀ p, Waiting cfg s p → p.pid ∈ s.pendingPids) := by
  constructor
  · rintro h hexit p ⟨henabled,hpid,hwait⟩
    obtain ⟨tctx,hctx,hslice⟩ := status_eq_waiting.mp hwait
    exact h hexit p tctx henabled hpid hctx hslice
  · intro h hexit p tctx henabled hpid hctx hslice
    exact h hexit p ⟨henabled,hpid,status_eq_waiting.mpr ⟨tctx,hctx,hslice⟩⟩

/-- A step that lets no task start to wait and takes no PID off its way forgets nobody. -/
theorem NoneForgotten.of_covered (hs : NoneForgotten cfg s)
    (hexit : t.daemon.exitReq = false → s.daemon.exitReq = false)
    (hcovered : t.daemon.exitReq = false → ∀ p, Waiting cfg t p → Waiting cfg s p ∧
      (p.pid ∈ s.pendingPids → p.pid ∈ t.pendingPids)) : NoneForgotten cfg t := by
  refine noneForgotten_iff.mpr (fun hrun p hwait => ?_)
  obtain ⟨hbefore,hkept⟩ := hcovered hrun p hwait
  exact hkept (noneForgotten_iff.mp hs (hexit hrun) p hbefore)

theorem NoneForgotten.of_same_queues (hs : NoneForgotten cfg s) (hd : t.daemon = s.daemon)
    (henq : t.board.enqueued = s.board.enqueued) (hdisp : t.board.dispatched = s.board.dispatched)
    (hwait : ∀ p, Waiting cfg t p → Waiting cfg s p) : NoneForgotten cfg t := by
  have hpending := pendingPids_congr hd henq hdisp
  exact hs.of_covered (by rw [hd]; exact id) (fun _ p hp => ⟨hwait p hp,by rw [hpending]; exact id⟩)

theorem NoneForgotten.consume (hw : s.WellFormed) (hs : NoneForgotten cfg s) (hd : t.daemon = s.daemon)
    (hb : t.board = s.board.consume) : NoneForgotten cfg t := by
  refine hs.of_covered (by rw [hd]; exact id) (fun _ p hp => ?_)
  have hlive : s.board.pids.Live p := hw.board.live p (by have := hp.1; rwa [hb] at this)
  have hstatus : s.board.consume.status p = some none := by rw [← hb]; exact hp.2.2
  cases hlast : (decisionsFor s.board.pids p s.board.dispatched.items).getLast? with
  | some d =>
    rw [Board.consume_status_of_some hlast] at hstatus
    obtain ⟨v,-,hv⟩ := Option.map_eq_some_iff.mp hstatus
    cases hv
  | none =>
    rw [Board.consume_status_of_none hlast] at hstatus
    have hnone : ∀ u ∈ s.link.dispatched.items, u.pid ≠ p.pid := by
      intro u hu hpid
      have hfor : u.slice ∈ decisionsFor s.board.pids p s.board.dispatched.items :=
        mem_decisionsFor.mpr ⟨u,hu,by rw [hpid]; exact hlive,rfl⟩
      rw [List.getLast?_eq_none_iff.mp hlast] at hfor
      cases hfor
    refine ⟨⟨by have := hp.1; rwa [hb] at this,hp.2.1,hstatus⟩,fun hpend => ?_⟩
    have henq : t.link.enqueued = s.link.enqueued := congrArg Board.enqueued hb
    rw [mem_pendingPids] at hpend ⊢
    rw [henq,hd]
    rcases hpend with h | h | ⟨u,hu,hpid⟩
    · exact Or.inl h
    · exact Or.inr (Or.inl h)
    · exact absurd hpid (hnone u hu)

theorem noneForgotten_join (hs : NoneForgotten cfg s) (hd : t.daemon = s.daemon)
    (hstatus : s.board.status p = none) (hb : t.board = s.board.join cfg.userschedPid p) :
    NoneForgotten cfg t ↔ (s.daemon.exitReq = false → p.pid ≠ cfg.userschedPid →
      s.link.enqueued.HasRoom ∨ p.pid ∈ s.pendingPids) := by
  have hother : ∀ q, q ≠ p → Waiting cfg t q → Waiting cfg s q := by
    rintro q hq ⟨henabled,hpid,hwait⟩
    rw [hb] at henabled hwait
    exact ⟨by simpa [Board.join,hq] using henabled,hpid,by simpa [Board.join,hq] using hwait⟩
  have hdisp : t.link.dispatched = s.link.dispatched := congrArg Board.dispatched hb
  have hjoined : p.pid ≠ cfg.userschedPid → Waiting cfg t p := by
    intro hpid
    refine ⟨?_,hpid,?_⟩ <;> rw [hb]
    · simp [Board.join]
    · simp [Board.join,hstatus]
  have henq : t.link.enqueued = (s.board.join cfg.userschedPid p).enqueued := congrArg Board.enqueued hb
  rcases Board.join_enqueued cfg.userschedPid s.board p with ⟨hsame,hcause⟩ | ⟨hpid,hroom,hitems⟩
  · have hpending : t.pendingPids = s.pendingPids := by
      rw [pendingPids,pendingPids,henq,hsame,hdisp,hd]
      rfl
    rw [noneForgotten_iff,hd,hpending]
    constructor
    · exact fun h hexit hpid => Or.inr (h hexit p (hjoined hpid))
    · intro h hexit q hq
      by_cases hqp : q = p
      · subst hqp
        have hfull : ¬s.link.enqueued.HasRoom := hcause.resolve_left hq.2.1
        exact (h hexit hq.2.1).resolve_left hfull
      · exact noneForgotten_iff.mp hs hexit q (hother q hqp hq)
  · have hpushed : t.link.enqueued.items = s.link.enqueued.items ++ [p.pid] := by
      rw [henq]
      exact hitems
    refine iff_of_true (noneForgotten_iff.mpr (fun hexit q hq => ?_)) (fun _ _ => Or.inl hroom)
    rw [hd] at hexit
    rw [mem_pendingPids,hpushed,hdisp,hd]
    by_cases hqp : q = p
    · subst hqp
      exact Or.inl (List.mem_append_right _ (List.mem_singleton_self q.pid))
    · have hmem := mem_pendingPids.mp (noneForgotten_iff.mp hs hexit q (hother q hqp hq))
      exact hmem.imp_left (List.mem_append_left _)

theorem noneForgotten_kernel {e : KernelEvent} (hw : s.WellFormed) (hs : NoneForgotten cfg s)
    (h : step cfg s (.kernel e) = some t) :
    NoneForgotten cfg t ↔ Announceable cfg s (.kernel e) := by
  obtain ⟨hk,hd⟩ := step_kernel h
  obtain ⟨hadmits,hb⟩ := KernelSide.board_step hk
  have hleft : ∀ p pids, t.board = { s.board.leave p with pids := pids } → NoneForgotten cfg t := by
    intro p pids hb
    refine hs.of_same_queues hd (by rw [hb]; rfl) (by rw [hb]; rfl) (fun q hq => ?_)
    rw [Waiting,hb] at hq
    have hne : q ≠ p := by
      rintro rfl
      simp [Board.leave] at hq
    exact ⟨by simpa [Board.leave,hne] using hq.1,hq.2.1,by simpa [Board.leave,hne] using hq.2.2⟩
  have hquiet : t.board = s.board → NoneForgotten cfg t := fun hb =>
    hs.of_same_queues hd (by rw [hb]) (by rw [hb]) (fun q hq => by rwa [Waiting,hb] at hq)
  cases e with
  | spawn p cpu mm => exact iff_of_true (hleft p _ hb) trivial
  | exit p => exact iff_of_true (hleft p _ hb) trivial
  | disable p => exact iff_of_true (hleft p s.board.pids hb) trivial
  | dispatch cpu env => exact iff_of_true (hs.consume hw hd hb) trivial
  | enable p alloc =>
    rcases KernelSide.enable_step hw.board hk with ⟨rfl,hsame,-⟩ | ⟨rfl,hjoin,-,hnew⟩
    · exact iff_of_true (hquiet hsame) trivial
    · exact noneForgotten_join hs hd hnew hjoin
  | exec p mm => exact iff_of_true (hquiet hb) trivial
  | tick p ns => exact iff_of_true (hquiet hb) trivial
  | selectCpu p cpu isIdle => exact iff_of_true (hquiet hb) trivial
  | enqueue p idleCpu => exact iff_of_true (hquiet hb) trivial
  | running p => exact iff_of_true (hquiet hb) trivial
  | stopping p => exact iff_of_true (hquiet hb) trivial
  | updateIdle cpu idle => exact iff_of_true (hquiet hb) trivial

theorem noneForgotten_drain {readable : Bool} (hw : s.WellFormed) (hs : NoneForgotten cfg s)
    (h : step cfg s (.drain readable) = some t) : NoneForgotten cfg t := by
  rcases step_drain_cases h with
    ⟨-,hb,hd⟩ | ⟨pid,rest,hhead,hb,⟨-,hd⟩ | ⟨-,hq,hd⟩ | ⟨-,hlist,-,hexit⟩⟩
  · exact hs.of_same_queues hd (by rw [hb]) (by rw [hb]) (fun p hp => by rwa [Waiting,hb] at hp)
  · intro hrun
    rw [hd] at hrun
    cases hrun
  all_goals
    have hwait : ∀ p, Waiting cfg t p → Waiting cfg s p := fun p hp => by rwa [Waiting,hb] at hp
    have henq : t.link.enqueued = rest := congrArg Board.enqueued hb
    have hdisp : t.link.dispatched = s.link.dispatched := congrArg Board.dispatched hb
  · refine hs.of_covered (by rw [hd]; exact id) (fun _ p hp => ⟨hwait p hp,?_⟩)
    rw [mem_pendingPids,mem_pendingPids,henq,hdisp,hd,hhead]
    rintro (hmem | hmem)
    · rcases List.mem_cons.mp hmem with heq | hmem
      · exact Or.inr (Or.inl (heq ▸ (hw.daemon.queued_iff pid).mp hq))
      · exact Or.inl hmem
    · exact Or.inr hmem
  · refine hs.of_covered (by rw [hexit]; exact id) (fun _ p hp => ⟨hwait p hp,?_⟩)
    rw [mem_pendingPids,mem_pendingPids,henq,hdisp,hlist,hhead]
    rintro (hmem | hmem | hmem)
    · rcases List.mem_cons.mp hmem with heq | hmem
      · exact Or.inr (Or.inl (List.mem_append_right _ (List.mem_singleton.mpr heq)))
      · exact Or.inl hmem
    · exact Or.inr (Or.inl (List.mem_append_left _ hmem))
    · exact Or.inr (Or.inr hmem)

theorem noneForgotten_dispatch {ok : Bool} (hs : NoneForgotten cfg s)
    (h : step cfg s (.dispatch ok) = some t) : NoneForgotten cfg t := by
  rcases step_dispatch_cases h with ⟨-,hb,-,hlist,hexit⟩ | ⟨pid,rest,q,hhead,hq,hb,hlist,-,hexit⟩
  all_goals
    have hwait : ∀ p, Waiting cfg t p → Waiting cfg s p := fun p hp => by rwa [Waiting,hb] at hp
    have henq : t.link.enqueued = s.link.enqueued := congrArg Board.enqueued hb
    refine hs.of_covered (by rw [hexit]; exact id) (fun _ p hp => ⟨hwait p hp,?_⟩)
  · have hdisp : t.link.dispatched = s.link.dispatched := congrArg Board.dispatched hb
    rw [mem_pendingPids,mem_pendingPids,henq,hdisp,hlist]
    exact id
  · have hdisp : t.link.dispatched = q := congrArg Board.dispatched hb
    rw [mem_pendingPids,mem_pendingPids,henq,hdisp,hlist,hhead,hq]
    rintro (hmem | hmem | ⟨u,hu,hpid⟩)
    · exact Or.inl hmem
    · rcases List.mem_cons.mp hmem with heq | hmem
      · exact Or.inr (Or.inr ⟨_,List.mem_append_right _ (List.mem_singleton_self _),heq.symm⟩)
      · exact Or.inr (Or.inl hmem)
    · exact Or.inr (Or.inr ⟨u,List.mem_append_left _ hu,hpid⟩)

theorem noneForgotten_step {e : MachineEvent} (hw : s.WellFormed) (hs : NoneForgotten cfg s)
    (h : step cfg s e = some t) : NoneForgotten cfg t ↔ Announceable cfg s e := by
  cases e with
  | kernel e => exact noneForgotten_kernel hw hs h
  | drain readable => exact iff_of_true (noneForgotten_drain hw hs h) trivial
  | dispatch ok => exact iff_of_true (noneForgotten_dispatch hs h) trivial
  | endBatch =>
    obtain ⟨hb,hd⟩ := step_endBatch h
    exact iff_of_true (hs.of_same_queues hd (by rw [hb]) (by rw [hb])
      (fun p hp => by rwa [Waiting,hb] at hp)) trivial

end Machine

/-- In every run: no waiting task is ever forgotten if and only if every task is enabled
with room for its record, or with its PID already on the way. -/
theorem none_forgotten_iff (cfg : Config) (k : Kern TaskCtx) (es : List MachineEvent) :
    Always (Machine.step cfg) (Machine.NoneForgotten cfg) (Machine.start k) es ↔
      Along (Machine.step cfg) (Machine.Announceable cfg) (Machine.start k) es := by
  refine always_iff_along (W := Machine.WellFormed) (fun s e t hw h => hw.step h)
    (fun s e t hw hs h => Machine.noneForgotten_step hw hs h) (Machine.wellFormed_start k) ?_
  intro _ p tctx henabled
  cases henabled

namespace Machine

/-- After its fallback insertion a task is dispatched, runs, stops and is enqueued again. -/
def rerun (p : Proc) : List MachineEvent :=
  [.kernel (.dispatch 1 ⟨fun q => q = p,fun _ => none,true⟩),.kernel (.running p),
    .kernel (.stopping p),.kernel (.enqueue p none)]

theorem enqueue_waiting {u : ℕ} {k : Kern TaskCtx} {tctx : TaskCtx} (hpid : p.pid ≠ u)
    (hctx : (k.task p).ctx = some tctx) (hslice : tctx.hasSlice = false) (idleCpu : Option ℕ) :
    KernelSide.enqueue u p idleCpu k = k := by
  rw [KernelSide.enqueue,if_neg hpid,hctx]
  simp [hslice]

theorem rerun_withheld (henabled : s.board.enabled p = true) (hpid : p.pid ≠ cfg.userschedPid)
    (hwait : s.board.status p = some none) (hdisp : s.board.dispatched.items = []) :
    ∃ t, run (step cfg) s (rerun p) = some t ∧ t.daemon = s.daemon ∧ t.board = s.board ∧
      (t.kern.task p).phase = .withheld ∧ t.kern.calls = [] := by
  have hempty : s.board.dispatched = .empty := BoundedQueue.ext hdisp
  have hconsume : s.board.consume = s.board := by
    ext1 <;> simp [Board.consume,decisionsFor,hempty]
  obtain ⟨s1,h1,hd1,hb1⟩ : ∃ t, step cfg s (.kernel (.dispatch 1 ⟨fun q => q = p,fun _ => none,true⟩)) =
      some t ∧ t.daemon = s.daemon ∧ t.board = s.board.consume := step_of_issues trivial
  rw [hconsume] at hb1
  obtain ⟨s2,h2,hd2,hb2⟩ : ∃ t, step cfg s1 (.kernel (.running p)) = some t ∧ t.daemon = s1.daemon ∧
      t.board = s1.board := step_of_issues (show s1.board.enabled p = true by rw [hb1]; exact henabled)
  obtain ⟨s3,h3,hd3,hb3⟩ : ∃ t, step cfg s2 (.kernel (.stopping p)) = some t ∧ t.daemon = s2.daemon ∧
      t.board = s2.board :=
    step_of_issues (show s2.board.enabled p = true by rw [hb2,hb1]; exact henabled)
  have hb3' : s3.board = s.board := hb3.trans (hb2.trans hb1)
  have henabled3 : s3.kern.Issues (.enqueue p none) :=
    show s3.board.enabled p = true by rw [hb3']; exact henabled
  obtain ⟨t,h4,hd4,hb4⟩ : ∃ t, step cfg s3 (.kernel (.enqueue p none)) = some t ∧
      t.daemon = s3.daemon ∧ t.board = s3.board := step_of_issues henabled3
  obtain ⟨tctx,hctx,hslice⟩ := status_eq_waiting.mp (show s3.board.status p = some none by
    rw [hb3']; exact hwait)
  have hkern : t.kern = Kern.setPhase p .withheld s3.kern.clearCalls := by
    have hsched := (SchedExtOps.step_eq_some.mp (step_kernel h4).1).2
    have hkeep : KernelSide.enqueue cfg.userschedPid p none
        (Kern.setPhase p .withheld s3.kern.clearCalls) = Kern.setPhase p .withheld s3.kern.clearCalls :=
      enqueue_waiting hpid (show _ = some tctx by simpa [Kern.setPhase,Kern.clearCalls] using hctx) hslice none
    have hsettled := congrArg (Kern.settle false) hkeep
    exact (congrArg Sched.kern hsched).trans hsettled
  refine ⟨t,?_,hd4.trans (hd3.trans (hd2.trans hd1)),hb4.trans hb3',?_,?_⟩
  · rw [rerun,run_cons_of_step h1,run_cons_of_step h2,run_cons_of_step h3,run_cons_of_step h4,run_nil]
  · rw [hkern,Kern.setPhase,Kern.modify_task_self]
  · rw [hkern]
    rfl

end Machine

open Machine in
/-- The map is full when worker 4096 is enabled. It runs once on the fallback insertion and is
then withheld: enabled, without a slice, and with nothing under way for its PID. -/
theorem task_forgotten :
    ∃ s, run (step demoConfig) (start Kern.fresh) (burst 4096 ++ arrival (worker 4096) ⟨0,0,fun _ => none⟩ ++
        rerun (worker 4096)) = some s ∧
      (s.kern.task (worker 4096)).phase = .withheld ∧ s.kern.calls = [] ∧ ¬NoneForgotten demoConfig s := by
  obtain ⟨r,hr,hafter⟩ : ∃ r, run (step demoConfig) (start Kern.fresh) (burst 4096) = some r ∧
      AfterBurst 4096 r := burst_run le_rfl
  have hfree : r.kern.pids.holder (worker 4096).pid = none := hafter.free _ le_rfl
  have hpid : (worker 4096).pid ≠ demoConfig.userschedPid := by decide
  obtain ⟨s,hs,hd,-,henabled,hstatus,henq,hdisp⟩ := arrival_run hfree hpid ⟨0,0,fun _ => none⟩
  have hfull : r.board.enqueued.push (worker 4096).pid = none := by
    refine BoundedQueue.push_eq_none.mpr (fun hroom => ?_)
    rw [BoundedQueue.HasRoom,hafter.enqueued,List.length_map,List.length_range] at hroom
    exact lt_irrefl _ hroom
  have henabled' : s.board.enabled (worker 4096) = true := by
    rw [henabled]
    exact Function.update_self _ _ _
  have hwait : s.board.status (worker 4096) = some none := by
    rw [hstatus]
    exact Function.update_self _ _ _
  obtain ⟨t,ht,htd,htb,hphase,hcalls⟩ := rerun_withheld henabled' hpid hwait
    (by rw [hdisp]; exact hafter.dispatched)
  refine ⟨t,?_,hphase,hcalls,fun hnone => ?_⟩
  · have hs' : run (step demoConfig) (start Kern.fresh)
        (burst 4096 ++ arrival (worker 4096) ⟨0,0,fun _ => none⟩) = some s := by
      rw [run_append_of_run hr,hs]
    rw [run_append_of_run hs',ht]
  · have hmem := noneForgotten_iff.mp hnone (by rw [htd,hd,hafter.daemon]; rfl) (worker 4096)
      ⟨by rw [htb]; exact henabled',hpid,by rw [htb]; exact hwait⟩
    have henq' : t.link.enqueued.items = (List.range 4096).map (fun i => i + 2) := by
      have h : t.link.enqueued = r.board.enqueued := by
        apply (congrArg Board.enqueued htb).trans
        rw [henq,hfull]
        rfl
      rw [h]
      exact hafter.enqueued
    have hdisp' : t.link.dispatched.items = [] := by
      have h : t.link.dispatched = r.board.dispatched := (congrArg Board.dispatched htb).trans hdisp
      rw [h]
      exact hafter.dispatched
    rw [mem_pendingPids,henq',hdisp',htd,hd,hafter.daemon] at hmem
    simp [worker,Daemon.start] at hmem

end ServerlessSched.UserAssigned
