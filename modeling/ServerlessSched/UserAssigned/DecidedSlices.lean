import ServerlessSched.UserAssigned.Insertions

/-! # Tasks run on decided slices

The component alone, with a userspace that may put anything into the shared maps between
two callbacks. What a task has been given is compared with the decisions consumed for it
since it was enabled last.
-/
namespace ServerlessSched.UserAssigned
open Runs

/-- An event of the kernel, or userspace leaving the shared maps and variables as `l`. -/
inductive OpenEvent
  | kernel (e : KernelEvent)
  | userspace (l : Link)

namespace KernelSide

def openStep (userschedPid : ℕ) (s : KernelSide) : OpenEvent → Option KernelSide
  | .kernel e => (serverlessOps userschedPid).step s e
  | .userspace l => some (s.setLink l)

/-- The slices of the decisions popped while the task held their PID, oldest first, since
the task was enabled last. -/
def consumedSince (s : KernelSide) (e : OpenEvent) (t : KernelSide) (g : Proc → List UInt64) :
    Proc → List UInt64 :=
  match e with
  | .kernel (.enable p _) => if (t.kern.task p).enabled then Function.update g p [] else g
  | .kernel (.dispatch _ _) => fun q => g q ++ decisionsFor s.kern.pids q s.bss.link.dispatched.items
  | _ => g

/-- What the component may do with tasks other than the daemon at one event, given the
decisions consumed before and after it. -/
structure InsertsDecided (userschedPid : ℕ) (s : KernelSide) (e : KernelEvent) (t : KernelSide)
    (after : Proc → List UInt64) : Prop where
  own : ∀ p, (∃ cpu isIdle, e = .selectCpu p cpu isIdle) ∨ (∃ idleCpu, e = .enqueue p idleCpu) →
    p.pid ≠ userschedPid → ∀ i ∈ t.kern.inserts, i.task = p ∧ ∃ tctx, (s.kern.task p).ctx = some tctx ∧
      tctx.hasSlice = true ∧ i.slice = tctx.slice
  first : ∀ i ∈ t.kern.inserts, i.task.pid ≠ userschedPid → after i.task = [] →
    (∃ alloc, e = .enable i.task alloc) ∧ ¬s.bss.link.enqueued.HasRoom

variable {userschedPid : ℕ} {s t : KernelSide} {g : Proc → List UInt64}

/-- The board shows the last decision consumed for each enabled task. -/
structure ShowsLast (s : KernelSide) (g : Proc → List UInt64) : Prop where
  sound : s.board.Sound
  status : ∀ p, s.board.enabled p = true →
    s.board.status p = some ((g p).getLast?.map translateSlice)

theorem showsLast_start (k : Kern TaskCtx) : ShowsLast (start k) (fun _ => []) :=
  ⟨⟨fun _ => rfl,fun _ h => by cases h⟩,fun _ h => by cases h⟩

theorem ShowsLast.of_leave {p : Proc} {pids : PidTable} (hs : ShowsLast s g) (hsound : t.board.Sound)
    (hb : t.board = { s.board.leave p with pids := pids }) : ShowsLast t g := by
  refine ⟨hsound,fun q hq => ?_⟩
  rw [hb] at hq ⊢
  have hne : q ≠ p := by
    rintro rfl
    simp [Board.leave] at hq
  simpa [Board.leave,hne] using hs.status q (by simpa [Board.leave,hne] using hq)

theorem ShowsLast.kernel {e : KernelEvent} (hs : ShowsLast s g)
    (h : (serverlessOps userschedPid).step s e = some t) :
    ShowsLast t (consumedSince s (.kernel e) t g) := by
  obtain ⟨hadmits,hb⟩ := board_step h
  have hsound : t.board.Sound := by
    rw [hb]
    exact hs.sound.step hadmits
  have hquiet : t.board = s.board → ShowsLast t g := fun hb =>
    ⟨hsound,by rw [hb]; exact hs.status⟩
  cases e with
  | spawn p cpu mm => exact hs.of_leave hsound hb
  | exit p => exact hs.of_leave hsound hb
  | disable p =>
    have hleave : t.board = { s.board.leave p with pids := s.board.pids } := hb
    exact hs.of_leave hsound hleave
  | enable p alloc =>
    rcases enable_step hs.sound h with ⟨-,hsame,hdisabled⟩ | ⟨-,hjoin,henabled,hnew⟩
    · simp only [consumedSince,hdisabled]
      exact hquiet hsame
    · simp only [consumedSince,henabled,if_true]
      refine ⟨hsound,fun q hq => ?_⟩
      rw [hjoin] at hq ⊢
      by_cases hqp : q = p
      · subst hqp
        simp [Board.join,hnew]
      · simpa [Board.join,hqp] using hs.status q (by simpa [Board.join,hqp] using hq)
  | dispatch cpu env =>
    refine ⟨hsound,fun q hq => ?_⟩
    rw [hb] at hq ⊢
    have hstatus := hs.status q hq
    dsimp only [Board.step,consumedSince]
    rw [List.getLast?_append]
    cases hlast : (decisionsFor s.kern.pids q s.bss.link.dispatched.items).getLast? with
    | none =>
      rw [Board.consume_status_of_none hlast,hstatus]
      rfl
    | some d =>
      rw [Board.consume_status_of_some hlast,hstatus]
      rfl
  | _ => exact hquiet hb

theorem ShowsLast.step {e : OpenEvent} (hs : ShowsLast s g) (h : openStep userschedPid s e = some t) :
    ShowsLast t (consumedSince s e t g) := by
  cases e with
  | kernel e => exact hs.kernel h
  | userspace l =>
    cases h
    exact ⟨⟨hs.sound.status_isSome,hs.sound.live⟩,hs.status⟩

theorem ShowsLast.ctx (hs : ShowsLast s g) {p : Proc} (hp : (s.kern.task p).enabled = true) :
    ∃ tctx, (s.kern.task p).ctx = some tctx ∧ (tctx.hasSlice = true ↔ g p ≠ []) ∧
      ∀ d, (g p).getLast? = some d → tctx.slice = translateSlice d := by
  obtain ⟨tctx,hctx,hverdict⟩ := Option.map_eq_some_iff.mp (hs.status p hp)
  refine ⟨tctx,hctx,?_⟩
  rw [TaskCtx.verdict] at hverdict
  cases hlast : (g p).getLast? with
  | none =>
    have hnil : g p = [] := List.getLast?_eq_none_iff.mp hlast
    cases hslice : tctx.hasSlice <;> simp [hslice,hlast] at hverdict ⊢
    exact hnil
  | some d =>
    have hne : g p ≠ [] := by
      intro hnil
      rw [hnil] at hlast
      cases hlast
    cases hslice : tctx.hasSlice <;> simp [hslice,hlast] at hverdict ⊢
    exact ⟨hne,hverdict⟩

theorem ShowsLast.inserts {e : KernelEvent} (hs : ShowsLast s g)
    (h : (serverlessOps userschedPid).step s e = some t) :
    InsertsDecided userschedPid s e t (consumedSince s (.kernel e) t g) := by
  have hissues := (SchedExtOps.step_eq_some.mp h).1
  constructor
  · rintro p (⟨cpu,isIdle,rfl⟩ | ⟨idleCpu,rfl⟩) hpid i hi
    · cases step_inserts h hi with
      | direct hi' _ hctx hslice hsame => exact ⟨hi',_,hctx,hslice,hsame⟩
    · cases step_inserts h hi with
      | enqueued hi' _ hctx hslice hsame => exact ⟨hi',_,hctx,hslice,hsame⟩
      | daemonEnqueued _ hdaemon _ => exact absurd hdaemon hpid
  · intro i hi hpid hafter
    have hundecided : (s.kern.task i.task).enabled = true → g i.task = [] →
        ∀ tctx, (s.kern.task i.task).ctx = some tctx → tctx.hasSlice = true → False := by
      intro henabled hnone tctx hctx hslice
      obtain ⟨tctx',hctx',hflag,-⟩ := hs.ctx henabled
      cases hctx.symm.trans hctx'
      exact hflag.mp hslice hnone
    cases step_inserts h hi with
    | fallback hi' _ _ _ hfull =>
      subst hi'
      exact ⟨⟨_,rfl⟩,hfull⟩
    | direct hi' _ hctx hslice _ =>
      subst hi'
      exact (hundecided hissues hafter _ hctx hslice).elim
    | enqueued hi' _ hctx hslice _ =>
      subst hi'
      exact (hundecided hissues hafter _ hctx hslice).elim
    | daemonEnqueued hi' hdaemon _ =>
      subst hi'
      exact absurd hdaemon hpid
    | daemonServed hdaemon _ => exact absurd hdaemon hpid
    | decision hu hi' =>
      have hmem : _ ∈ decisionsFor s.kern.pids i.task s.bss.link.dispatched.items :=
        mem_decisionsFor.mpr ⟨_,hu,hi'.holder,rfl⟩
      rw [(List.append_eq_nil_iff.mp hafter).2] at hmem
      cases hmem

end KernelSide

open KernelSide in
/-- Over every run of the callbacks and every stream of decisions: an enabled task has a
slice exactly when a decision for it has been consumed since it was enabled last, the
slice is the translation of the latest one, `select_cpu` and `enqueue` insert a task with
that slice only, and a task without a decision is inserted by the fallback of a full map
only. -/
theorem runs_on_decided_slice {userschedPid : ℕ} {k : Kern TaskCtx} {es : List OpenEvent}
    {s : KernelSide} {g : Proc → List UInt64}
    (hr : run (withGhost (openStep userschedPid) consumedSince) (start k,fun _ => []) es = some (s,g)) :
    (∀ p, (s.kern.task p).enabled = true → ∃ tctx, (s.kern.task p).ctx = some tctx ∧
      (tctx.hasSlice = true ↔ g p ≠ []) ∧
      ∀ d, (g p).getLast? = some d → tctx.slice = translateSlice d) ∧
    ∀ e t, (serverlessOps userschedPid).step s e = some t →
      InsertsDecided userschedPid s e t (consumedSince s (.kernel e) t g) := by
  have hs : ShowsLast s g := run_invariant (P := fun p : KernelSide × _ => ShowsLast p.1 p.2)
    (fun p e q hp hq => by
      obtain ⟨hstep,hghost⟩ := withGhost_eq_some.mp hq
      rw [hghost]
      exact hp.step hstep) (showsLast_start k) hr
  exact ⟨fun p hp => hs.ctx hp,fun e t h => hs.inserts h⟩

/-- PID 7 is enabled and gets the decision 1, an infinite slice. -/
def decidedOnce : List OpenEvent :=
  [.kernel (.spawn ⟨7,0⟩ 1 ⟨0,0,fun _ => none⟩),.kernel (.enable ⟨7,0⟩ true),
    .userspace { Link.start with dispatched := ⟨[⟨7,1⟩],by decide⟩ },
    .kernel (.dispatch 0 ⟨fun _ => false,fun _ => none,true⟩)]

open KernelSide in
theorem runs_on_decided_slice_once :
    ∃ s g, run (withGhost (openStep 1) consumedSince) (start Kern.fresh,fun _ => []) decidedOnce =
        some (s,g) ∧ g ⟨7,0⟩ = [1] ∧
      ∃ tctx, (s.kern.task ⟨7,0⟩).ctx = some tctx ∧ tctx.hasSlice = true ∧ tctx.slice = sliceInf := by
  obtain ⟨p,hr,hg,henabled⟩ : ∃ p, run (withGhost (openStep 1) consumedSince)
      (start Kern.fresh,fun _ => []) decidedOnce = some p ∧ p.2 ⟨7,0⟩ = [1] ∧
      (p.1.kern.task ⟨7,0⟩).enabled = true := ⟨_,rfl,rfl,rfl⟩
  obtain ⟨tctx,hctx,hflag,hlast⟩ := (runs_on_decided_slice hr).1 ⟨7,0⟩ henabled
  refine ⟨p.1,p.2,hr,hg,tctx,hctx,hflag.mpr (by rw [hg]; exact List.cons_ne_nil _ _),?_⟩
  rw [hlast 1 (by rw [hg]; rfl)]
  rfl

end ServerlessSched.UserAssigned
