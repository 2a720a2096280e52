import ServerlessSched.Kernel.Handover
import ServerlessSched.KernelAssigned.Contexts

/-! # The kernel-assigned scheduler hands every task on

As long as no storage is refused, no enabled task is without a context, so that every task
handed over is inserted at once and nothing is reported.
-/
namespace ServerlessSched.KernelAssigned
open Kern Runs

/-- Every enabled task has a context. -/
def Equipped (r : Roll) : Prop := ∀ p, (r p).enabled = true → (r p).ctx.isSome

theorem Equipped.step {r : Roll} (hr : Equipped r) (e : KernelEvent) : Equipped (r.step e) := by
  have hupdate : ∀ p c, (c.enabled = true → c.ctx.isSome) → Equipped (Function.update r p c) := fun p c hc =>
    (Function.forall_update_iff r (fun _ c => c.enabled = true → c.ctx.isSome)).mpr ⟨hc,fun q _ => hr q⟩
  cases e with
  | spawn p cpu mm => exact hupdate p _ (fun h => by cases h)
  | exec p mm => exact hupdate p _ (hr p)
  | tick p ns => exact hupdate p _ (hr p)
  | exit p => exact hupdate p _ (fun h => by cases h)
  | enable p alloc =>
    unfold Roll.step
    dsimp only
    split
    case isTrue => exact hupdate p _ (fun _ => rfl)
    case isFalse => exact hr
  | disable p => exact hupdate p _ (fun h => by cases h)
  | stopping p =>
    refine hupdate p _ (fun henabled => ?_)
    rw [Option.isSome_map]
    exact hr p henabled
  | _ => exact hr

theorem equipped_boot (k : Kern TaskCtx) : Equipped k.boot.roll := fun _ h => by cases h

namespace KernelSide
variable {s t : KernelSide} {k : Kern TaskCtx} {p q : Proc} {e : KernelEvent}

theorem selectCpu_view {β : Type} {view : TaskStruct TaskCtx → β} (hslice : ∀ t s, view { t with slice := s } = view t)
    (p : Proc) (cpu : ℕ) (isIdle : Bool) (k : Kern TaskCtx) : Same view k (selectCpu p cpu isIdle k) := by
  unfold selectCpu
  split
  case isFalse => exact Same.rfl
  case isTrue =>
    cases (k.task p).ctx with
    | none => exact Same.record k _
    | some tctx => exact (scxBpfDsqInsert_same k p _ _ hslice).trans (Same.record _ _)

theorem enqueue_phase (p : Proc) (idleCpu : Option ℕ) (k : Kern TaskCtx) :
    Same TaskStruct.phase k (enqueue p idleCpu k) := by
  unfold enqueue
  cases (k.task p).ctx with
  | none => exact Same.record k _
  | some tctx => exact enqueueShared_same k p _ idleCpu (fun _ _ _ => rfl)

theorem enable_phase (p : Proc) (alloc : Bool) (s : KernelSide) :
    Same TaskStruct.phase s.kern (enable p alloc s).1.kern := by
  rcases enable_cases p alloc s with ⟨-,-,hres⟩ | ⟨-,hres⟩ <;> rw [hres]
  · exact Same.trans (Same.modify rfl) (Same.record _ _)
  · exact Same.modify rfl

theorem serverlessOps_neverWithholds : SchedExtOps.NeverWithholds serverlessOps where
  selectCpu p cpu isIdle s _ hq := withheld_of_same (selectCpu_view (fun _ _ => rfl) p cpu isIdle s.kern) hq
  enqueue p idleCpu s _ hq := withheld_of_same (enqueue_phase p idleCpu s.kern) hq
  dispatch cpu env s q hq := by
    have hq : (dispatch cpu env s.kern).Withheld q := hq
    unfold dispatch at hq
    split at hq
    case isTrue => exact hq
    case isFalse => exact withheld_scanSharedDsq hq
  running _ _ _ hq := hq
  stopping _ _ _ hq := withheld_of_same (chargeStopping_same (fun _ _ _ _ => rfl) _ _) hq
  updateIdle _ _ _ _ hq := hq
  enable p alloc s _ hq := withheld_of_same (enable_phase p alloc s) hq
  disable _ _ _ hq := hq

/-! ## One event -/

theorem selectCpu_errors (h : (k.task p).ctx.isSome) (cpu : ℕ) (isIdle : Bool) :
    (selectCpu p cpu isIdle k).errors = k.errors := by
  obtain ⟨tctx,hctx⟩ := Option.isSome_iff_exists.mp h
  unfold selectCpu
  split
  case isFalse => rfl
  case isTrue => rw [hctx,errors_scxBpfKickCpu,errors_scxBpfDsqInsert]

theorem enqueue_of_ctx {tctx : TaskCtx} (h : (k.task p).ctx = some tctx) (idleCpu : Option ℕ) :
    enqueue p idleCpu k = k.enqueueShared p tctx.slice idleCpu := by
  unfold enqueue
  rw [h]

theorem enable_of_granted (p : Proc) (s : KernelSide) :
    (enable p true s).1.kern.errors = s.kern.errors ∧ (enable p true s).2 = 0 := by
  rcases enable_cases p true s with ⟨-,hfalse,-⟩ | ⟨-,hres⟩
  · cases hfalse
  · rw [hres]
    exact ⟨rfl,rfl⟩

theorem serverlessOps_succeeds : serverlessOps.Succeeds := fun p s => (enable_of_granted p s).2

theorem perform_errors (hs : Equipped s.kern.roll) (hissues : s.kern.Issues e) (he : e.Granted)
    (hnone : s.kern.errors = []) : (serverlessOps.perform s e).kern.errors = [] := by
  cases e with
  | spawn p cpu mm => exact hnone
  | exec p mm => exact hnone
  | tick p ns => exact hnone
  | exit p =>
    unfold SchedExtOps.perform
    dsimp only
    split <;> exact hnone
  | enable p alloc =>
    obtain rfl : alloc = true := he
    have henable : (enable p true s).1.kern.errors = [] := (enable_of_granted p s).1.trans hnone
    unfold SchedExtOps.perform
    dsimp only
    split
    case isTrue => exact henable
    case isFalse => exact (errors_settle true _).trans henable
  | disable p => exact hnone
  | selectCpu p cpu isIdle => exact ((errors_settle true _).trans (selectCpu_errors (hs p hissues) cpu isIdle)).trans hnone
  | enqueue p idleCpu =>
    obtain ⟨tctx,hctx⟩ := Option.isSome_iff_exists.mp (hs p hissues)
    have hctx' : ((Kern.setPhase p .withheld s.kern).task p).ctx = some tctx :=
      (setPhase_ctx .withheld s.kern).trans hctx
    apply (errors_settle false _).trans
    have henqueue := enqueue_of_ctx hctx' idleCpu
    exact (congrArg Kern.errors henqueue).trans ((errors_enqueueShared _ _ _ _).trans hnone)
  | dispatch cpu env =>
    have hdispatch : (dispatch cpu env s.kern).errors = s.kern.errors := by
      unfold dispatch
      split
      case isTrue => rfl
      case isFalse => exact errors_scanSharedDsq _ _ _ _
    exact ((errors_settle false _).trans hdispatch).trans hnone
  | running p => exact hnone
  | stopping p => exact (errors_chargeStopping (hs p hissues)).trans hnone
  | updateIdle cpu idle => exact hnone

/-- A task handed over enters the shared queue when the callback returns. -/
theorem enqueue_lands {tctx : TaskCtx} {idleCpu : Option ℕ} (hctx : (s.kern.task p).ctx = some tctx)
    (hnone : s.kern.inserts = []) :
    (serverlessOps.perform s (.enqueue p idleCpu)).kern.sharedDsq = s.kern.sharedDsq.insert p ∧
      ((serverlessOps.perform s (.enqueue p idleCpu)).kern.task p).slice = tctx.slice ∧
      ¬(serverlessOps.perform s (.enqueue p idleCpu)).kern.Withheld p := by
  have hctx' : ((Kern.setPhase p .withheld s.kern).task p).ctx = some tctx :=
    (setPhase_ctx .withheld s.kern).trans hctx
  have hmarked : (Kern.setPhase p .withheld s.kern).Withheld p :=
    congrArg TaskStruct.phase (modify_task_self s.kern p _)
  have hperform : (serverlessOps.perform s (.enqueue p idleCpu)).kern =
      ((Kern.setPhase p .withheld s.kern).enqueueShared p tctx.slice idleCpu).settle false :=
    congrArg (Kern.settle false) (enqueue_of_ctx hctx' idleCpu)
  rw [hperform]
  exact enqueueShared_lands hmarked hnone tctx.slice idleCpu

end KernelSide

/-! ## Runs -/

/-- What every event does: nobody is left withheld, nothing is reported, and a task handed over
is the newest in the shared queue, with the slice of its context. -/
structure HandsOn (s : KernelSide) (e : KernelEvent) (t : KernelSide) : Prop where
  free : ∀ q, ¬t.kern.Withheld q
  errors : t.kern.errors = []
  inserted : ∀ p idleCpu, e = .enqueue p idleCpu → t.kern.sharedDsq = s.kern.sharedDsq.insert p ∧
    ∃ tctx, (s.kern.task p).ctx = some tctx ∧ (t.kern.task p).slice = tctx.slice

section
open KernelSide
variable {s t : KernelSide} {e : KernelEvent}

theorem enqueue_step (hs : Equipped s.kern.roll) {p : Proc} {idleCpu : Option ℕ}
    (h : serverlessOps.step s (.enqueue p idleCpu) = some t) : ∃ tctx, (s.kern.task p).ctx = some tctx ∧
      t.kern.sharedDsq = s.kern.sharedDsq.insert p ∧ (t.kern.task p).slice = tctx.slice ∧ ¬t.kern.Withheld p := by
  obtain ⟨hissues,hperform⟩ := SchedExtOps.step_eq_some.mp h
  obtain ⟨tctx,hctx⟩ := Option.isSome_iff_exists.mp (hs p hissues)
  have hctx' : ((s.onKern Kern.clearCalls).kern.task p).ctx = some tctx := hctx
  rw [hperform]
  exact ⟨tctx,hctx,enqueue_lands hctx' rfl⟩

theorem free_step (hs : Equipped s.kern.roll) (hfree : ∀ q, ¬s.kern.Withheld q)
    (h : serverlessOps.step s e = some t) (q : Proc) : ¬t.kern.Withheld q := by
  intro hq
  rcases serverlessOps_neverWithholds.withheld h hq with ⟨idleCpu,rfl⟩ | ⟨hold,-⟩
  · obtain ⟨-,-,-,-,hnot⟩ := enqueue_step hs h
    exact hnot hq
  · exact hfree q hold

theorem handsOn_step (hs : Equipped s.kern.roll) (hfree : ∀ q, ¬s.kern.Withheld q) (he : e.Granted)
    (h : serverlessOps.step s e = some t) : HandsOn s e t := by
  obtain ⟨hissues,hperform⟩ := SchedExtOps.step_eq_some.mp h
  have hissues' : (s.onKern Kern.clearCalls).kern.Issues e := by cases e <;> exact hissues
  refine ⟨free_step hs hfree h,?_,fun p idleCpu heq => ?_⟩
  · rw [hperform]
    exact perform_errors (s := s.onKern Kern.clearCalls) hs hissues' he rfl
  · subst heq
    obtain ⟨tctx,hctx,hqueue,hslice,-⟩ := enqueue_step hs h
    exact ⟨hqueue,tctx,hctx,hslice⟩

end

/-- In every run of a kernel that refuses no storage, tasks are handed on at every event. -/
theorem handed_on {k : Kern TaskCtx} {es : List KernelEvent} {s t : KernelSide} {e : KernelEvent}
    (hr : run serverlessOps.void.step (KernelSide.start k) es = some s) (hgranted : ∀ e ∈ es, e.Granted)
    (h : serverlessOps.void.step s e = some t) (he : e.Granted) : HandsOn s e t := by
  rw [SchedExtOps.void_run KernelSide.serverlessOps_succeeds hgranted] at hr
  rw [SchedExtOps.void_step KernelSide.serverlessOps_succeeds he] at h
  have hs : Equipped s.kern.roll ∧ ∀ q, ¬s.kern.Withheld q := by
    refine run_invariant (P := fun s : KernelSide => Equipped s.kern.roll ∧ ∀ q, ¬s.kern.Withheld q)
      (fun s e t hs ht => ⟨?_,free_step hs.1 hs.2 ht⟩) ⟨equipped_boot k,fun q hq => by cases hq⟩ hr
    rw [KernelSide.step_roll ht]
    exact hs.1.step e
  exact handsOn_step hs.1 hs.2 he h

theorem handed_on_first : ∃ s t,
    run serverlessOps.void.step (KernelSide.start Kern.fresh) [.enable ⟨1,0⟩ true] = some s ∧
      serverlessOps.void.step s (.enqueue ⟨1,0⟩ none) = some t ∧ t.kern.errors = [] ∧
      t.kern.sharedDsq = s.kern.sharedDsq.insert ⟨1,0⟩ := by
  obtain ⟨s,hs⟩ : ∃ s, run serverlessOps.void.step (KernelSide.start Kern.fresh) [.enable ⟨1,0⟩ true] = some s :=
    ⟨_,rfl⟩
  obtain ⟨t,ht⟩ : ∃ t, serverlessOps.void.step s (.enqueue ⟨1,0⟩ none) = some t := by
    cases hs
    exact ⟨_,rfl⟩
  have hstep := handed_on hs (List.forall_mem_singleton.mpr rfl) ht trivial
  exact ⟨s,t,hs,ht,hstep.errors,(hstep.inserted _ _ rfl).1⟩

/-- Without storage a task is enabled all the same, and then no longer handed on. -/
example : ∃ s t, run serverlessOps.void.step (KernelSide.start Kern.fresh) [.enable ⟨1,0⟩ false] = some s ∧
    serverlessOps.void.step s (.enqueue ⟨1,0⟩ none) = some t ∧
    t.kern.errors = ["Failed to get task ctx for 1"] ∧ t.kern.Withheld ⟨1,0⟩ :=
  ⟨_,_,rfl,rfl,rfl,rfl⟩

end ServerlessSched.KernelAssigned
