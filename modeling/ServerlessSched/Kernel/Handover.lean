import ServerlessSched.Kernel.Frames

/-! # Tasks handed over and errors reported

Between `enqueue` and an insertion a task is in the hands of the scheduler alone. Which
events put it there, which get it out, and what the callbacks report to the kernel.
-/
namespace ServerlessSched
open Runs

namespace Kern
variable {C : Type} {k k' : Kern C} {p q : Proc}

/-- The texts of the errors reported by the callback that ran last. Each aborts the scheduler. -/
def errors (k : Kern C) : List String :=
  k.calls.filterMap (fun c => match c with | .error text => some text | _ => none)

/-! ## Errors of the calls -/

theorem errors_of_calls (h : k'.calls = k.calls) : k'.errors = k.errors := by rw [errors,h]; rfl

@[simp] theorem errors_clearCalls (k : Kern C) : k.clearCalls.errors = [] := rfl

@[simp] theorem errors_scxBpfError (k : Kern C) (text : String) :
    (k.scxBpfError text).errors = k.errors ++ [text] := by simp [errors,scxBpfError]

theorem errors_record (k : Kern C) (c : Call C) (h : ∀ text, c ≠ .error text) :
    (k.record c).errors = k.errors := by
  rw [errors,record_calls,List.filterMap_append,errors]
  cases c with
  | error text => exact absurd rfl (h text)
  | insert i => simp
  | kick cpu flag => simp
  | move p cpu moved => simp

@[simp] theorem errors_modify (f : TaskStruct C → TaskStruct C) : (k.modify p f).errors = k.errors := rfl

@[simp] theorem errors_scxBpfKickCpu (k : Kern C) (cpu : ℕ) (flag : KickFlag) :
    (k.scxBpfKickCpu cpu flag).errors = k.errors := errors_record k _ (fun _ h => by cases h)

@[simp] theorem errors_kickIdleCpu (k : Kern C) (p : Proc) (idleCpu : Option ℕ) :
    (k.kickIdleCpu p idleCpu).errors = k.errors := by
  rcases kickIdleCpu_eq k p idleCpu with h | ⟨cpu,h⟩ <;> rw [h]
  exact errors_scxBpfKickCpu k cpu .idle

@[simp] theorem errors_scxBpfDsqInsert (k : Kern C) (p : Proc) (dsq : DsqId) (slice : UInt64) :
    (k.scxBpfDsqInsert p dsq slice).errors = k.errors := errors_record k _ (fun _ h => by cases h)

@[simp] theorem errors_scxBpfDsqInsertVtime (k : Kern C) (p : Proc) (slice vtime : UInt64) :
    (k.scxBpfDsqInsertVtime p slice vtime).errors = k.errors := errors_record k _ (fun _ h => by cases h)

@[simp] theorem errors_enqueueShared (k : Kern C) (p : Proc) (slice : UInt64) (idleCpu : Option ℕ) :
    (k.enqueueShared p slice idleCpu).errors = k.errors := by
  rw [enqueueShared,errors_kickIdleCpu,errors_scxBpfDsqInsertVtime]

theorem errors_chargeStopping {last : C → UInt64} {setLast : C → UInt64 → C} (h : (k.task p).ctx.isSome) :
    (k.chargeStopping last setLast p).errors = k.errors := by
  obtain ⟨c,hctx⟩ := Option.isSome_iff_exists.mp h
  unfold chargeStopping
  rw [hctx]
  rfl

@[simp] theorem errors_scxBpfDsqMove (k : Kern C) (p : Proc) (cpu : ℕ) (moved : Bool) :
    (k.scxBpfDsqMove p cpu moved).errors = k.errors := by
  have h : (k.record (.move p cpu moved)).errors = k.errors := errors_record k _ (fun _ h => by cases h)
  unfold scxBpfDsqMove
  dsimp only
  split
  case isTrue => exact h
  case isFalse => exact h

@[simp] theorem errors_scanSharedDsq (cpu : ℕ) (moves : Proc → Bool) (ps : List Proc) (k : Kern C) :
    (scanSharedDsq cpu moves ps k).errors = k.errors := by
  induction ps generalizing k with
  | nil => rfl
  | cons p ps ih =>
    have hadvance : (k.advanceClock (k.task p).dsqVtime).errors = k.errors := by
      unfold advanceClock
      split <;> rfl
    unfold scanSharedDsq
    dsimp only
    split
    case isTrue => rw [errors_scxBpfDsqMove,hadvance]
    case isFalse => rw [ih,errors_scxBpfDsqMove,hadvance]

@[simp] theorem errors_settle (force : Bool) (k : Kern C) : (k.settle force).errors = k.errors := by
  have h : ∀ (is : List (DsqInsert C)) (k : Kern C), (is.foldl (settleInsert force) k).calls = k.calls := by
    intro is
    induction is with
    | nil => exact fun _ => rfl
    | cons i is ih =>
      intro k
      rw [List.foldl_cons,ih,settleInsert]
      split <;> rfl
  exact errors_of_calls (h _ _)

/-! ## Phases -/

def Withheld (k : Kern C) (q : Proc) : Prop := (k.task q).phase = .withheld

@[simp] theorem setPhase_ctx (phase : Phase) (k : Kern C) : ((setPhase p phase k).task q).ctx = (k.task q).ctx :=
  (setPhase_same (fun _ _ => rfl) p phase k : Same TaskStruct.ctx k _).task q

theorem withheld_of_same (h : Same TaskStruct.phase k k') (hq : k'.Withheld q) : k.Withheld q :=
  (h.task q).symm.trans hq

theorem withheld_scanSharedDsq {cpu : ℕ} {moves : Proc → Bool} {ps : List Proc}
    (hq : (scanSharedDsq cpu moves ps k).Withheld q) : k.Withheld q := by
  induction ps generalizing k with
  | nil => exact hq
  | cons p ps ih =>
    have hadvance : Same TaskStruct.phase k (k.advanceClock (k.task p).dsqVtime) := advanceClock_same k _
    unfold scanSharedDsq at hq
    dsimp only at hq
    split at hq
    case isFalse =>
      have hmove : Same TaskStruct.phase (k.advanceClock (k.task p).dsqVtime)
          ((k.advanceClock (k.task p).dsqVtime).scxBpfDsqMove p cpu false) := Same.of_eq rfl rfl
      exact withheld_of_same (hadvance.trans hmove) (ih hq)
    case isTrue =>
      apply withheld_of_same hadvance
      change (((k.advanceClock (k.task p).dsqVtime).modify p (fun t => { t with phase := .queued })).task q).phase =
        .withheld at hq
      rw [modify_task] at hq
      split at hq
      case isTrue => cases hq
      case isFalse => exact hq

theorem withheld_settleInsert {force : Bool} {i : DsqInsert C} (hq : (k.settleInsert force i).Withheld q) :
    k.Withheld q ∧ i.task ≠ q := by
  unfold settleInsert at hq
  split at hq
  case isTrue =>
    change ((k.modify i.task (fun t => { t with phase := .queued })).task q).phase = .withheld at hq
    rw [modify_task] at hq
    split at hq
    case isTrue => cases hq
    case isFalse hne => exact ⟨hq,Ne.symm hne⟩
  case isFalse hkept =>
    refine ⟨hq,?_⟩
    rintro rfl
    exact hkept (by simp [show (k.task i.task).phase = .withheld from hq])

/-- A task that is still withheld after the callback was not inserted. -/
theorem withheld_settle {force : Bool} (hq : (k.settle force).Withheld q) :
    k.Withheld q ∧ ∀ i ∈ k.inserts, i.task ≠ q := by
  have h : ∀ (is : List (DsqInsert C)) (k : Kern C), (is.foldl (settleInsert force) k).Withheld q →
      k.Withheld q ∧ ∀ i ∈ is, i.task ≠ q := by
    intro is
    induction is with
    | nil => exact fun k hk => ⟨hk,fun i hi => (List.not_mem_nil hi).elim⟩
    | cons i is ih =>
      intro k hk
      obtain ⟨hfirst,hrest⟩ := ih _ hk
      obtain ⟨hwithheld,hne⟩ := withheld_settleInsert hfirst
      refine ⟨hwithheld,fun j hj => ?_⟩
      rcases List.mem_cons.mp hj with rfl | hj
      · exact hne
      · exact hrest j hj
  exact h k.inserts k hq

/-- A withheld task that is inserted into the shared queue enters it when the callback returns. -/
theorem enqueueShared_lands (hp : k.Withheld p) (hnone : k.inserts = []) (slice : UInt64) (idleCpu : Option ℕ) :
    ((k.enqueueShared p slice idleCpu).settle false).sharedDsq = k.sharedDsq.insert p ∧
      (((k.enqueueShared p slice idleCpu).settle false).task p).slice = slice ∧
      ¬((k.enqueueShared p slice idleCpu).settle false).Withheld p := by
  have hphase : ((k.enqueueShared p slice idleCpu).task p).phase = .withheld :=
    ((enqueueShared_same k p slice idleCpu (fun _ _ _ => rfl)).task p).trans hp
  have hqueue : (k.enqueueShared p slice idleCpu).sharedDsq = k.sharedDsq := kickIdleCpu_sharedDsq _ _ _
  have hslice : ((k.enqueueShared p slice idleCpu).task p).slice = slice := by
    rw [enqueueShared,kickIdleCpu_task]
    exact congrArg TaskStruct.slice (modify_task_self _ p _)
  have hinserts := inserts_enqueueShared k p slice idleCpu
  rw [hnone,List.nil_append] at hinserts
  refine ⟨?_,?_,fun hkept => ?_⟩
  · rw [settle,hinserts,List.foldl_cons,List.foldl_nil,settleInsert,if_pos (by rw [hphase]; decide),land,if_pos rfl]
    exact congrArg (fun q : StampedQueue Proc => q.insert p) hqueue
  · have hsettled : Same TaskStruct.slice (k.enqueueShared p slice idleCpu) _ := settle_same (fun _ _ => rfl) false _
    exact (hsettled.task p).trans hslice
  · have hnone := (withheld_settle hkept).2
    rw [hinserts] at hnone
    exact hnone _ List.mem_cons_self rfl

/-- The events after which a task is withheld only if it was before. -/
def Spares (k : Kern C) (q : Proc) : KernelEvent → Prop
  | .spawn p _ _ | .disable p | .running p | .stopping p => p ≠ q
  | .exit p => p = q → (k.task q).enabled = false
  | _ => True

end Kern

namespace SchedExtOps
open Kern
variable {C X : Type} {ops : SchedExtOps C X} {s t : Sched C X} {q : Proc}

/-- No callback withholds a task that was not withheld. -/
structure NeverWithholds (ops : SchedExtOps C X) : Prop where
  selectCpu : ∀ p cpu isIdle s q, (ops.selectCpu p cpu isIdle s).kern.Withheld q → s.kern.Withheld q
  enqueue : ∀ p idleCpu s q, (ops.enqueue p idleCpu s).kern.Withheld q → s.kern.Withheld q
  dispatch : ∀ cpu env s q, (ops.dispatch cpu env s).kern.Withheld q → s.kern.Withheld q
  running : ∀ p s q, (ops.running p s).kern.Withheld q → s.kern.Withheld q
  stopping : ∀ p s q, (ops.stopping p s).kern.Withheld q → s.kern.Withheld q
  updateIdle : ∀ cpu idle s q, (ops.updateIdle cpu idle s).kern.Withheld q → s.kern.Withheld q
  enable : ∀ p alloc s q, (ops.enable p alloc s).1.kern.Withheld q → s.kern.Withheld q
  disable : ∀ p s q, (ops.disable p s).kern.Withheld q → s.kern.Withheld q

theorem withheld_setPhase {k : Kern C} {p : Proc} {phase : Phase} (hq : (setPhase p phase k).Withheld q) :
    p = q ∧ phase = .withheld ∨ p ≠ q ∧ k.Withheld q := by
  unfold Withheld setPhase at hq
  rw [modify_task] at hq
  split at hq
  case isTrue heq => exact Or.inl ⟨heq.symm,hq⟩
  case isFalse hne => exact Or.inr ⟨Ne.symm hne,hq⟩

theorem withheld_leave {k : Kern C} {p : Proc} (hq : (Kern.leave p k).Withheld q) : p ≠ q ∧ k.Withheld q := by
  change ((k.modify p (fun t => { t with enabled := false, phase := .idle })).task q).phase = .withheld at hq
  rw [modify_task] at hq
  split at hq
  case isTrue => cases hq
  case isFalse hne => exact ⟨Ne.symm hne,hq⟩

theorem NeverWithholds.perform (hops : NeverWithholds ops) {e : KernelEvent}
    (hq : (ops.perform s e).kern.Withheld q) :
    (∃ idleCpu, e = .enqueue q idleCpu) ∨ s.kern.Withheld q ∧ s.kern.Spares q e := by
  have hreap : ∀ (p : Proc) (k : Kern C), (Kern.reap p k).Withheld q → k.Withheld q := fun p k hk => by
    have hsame : Same TaskStruct.phase k (k.modify p (fun t => { t with ctx := none })) := Same.modify rfl
    exact (hsame.task q).symm.trans hk
  cases e with
  | spawn p cpu mm =>
    change ((s.kern.modify p (fun _ => ⟨0,0,0,cpu,mm,none,false,.idle⟩)).task q).phase = .withheld at hq
    rw [modify_task] at hq
    split at hq
    case isTrue => cases hq
    case isFalse hne => exact Or.inr ⟨hq,Ne.symm hne⟩
  | exec p mm => exact Or.inr ⟨withheld_of_same (exec_same (fun _ _ => rfl) p mm _) hq,trivial⟩
  | tick p ns => exact Or.inr ⟨withheld_of_same (tick_same (fun _ _ => rfl) p ns _) hq,trivial⟩
  | exit p =>
    unfold SchedExtOps.perform at hq
    dsimp only at hq
    split at hq
    case isTrue =>
      obtain ⟨hne,hleft⟩ := withheld_leave (hreap p _ hq)
      exact Or.inr ⟨hops.disable p _ q hleft,fun heq => absurd heq hne⟩
    case isFalse hp =>
      refine Or.inr ⟨hreap p _ hq,fun heq => ?_⟩
      subst heq
      exact Bool.eq_false_iff.mpr hp
  | enable p alloc =>
    unfold SchedExtOps.perform at hq
    dsimp only at hq
    split at hq
    case isTrue => exact Or.inr ⟨hops.enable p alloc _ q hq,trivial⟩
    case isFalse =>
      have hsame : Same TaskStruct.phase ((ops.enable p alloc s).1.kern.settle true)
          (Kern.setEnabled p _) := setEnabled_same (fun _ => rfl) p _
      exact Or.inr ⟨hops.enable p alloc _ q (withheld_settle (withheld_of_same hsame hq)).1,trivial⟩
  | disable p =>
    obtain ⟨hne,hleft⟩ := withheld_leave hq
    exact Or.inr ⟨hops.disable p _ q hleft,hne⟩
  | selectCpu p cpu isIdle => exact Or.inr ⟨hops.selectCpu p cpu isIdle _ q (withheld_settle hq).1,trivial⟩
  | enqueue p idleCpu =>
    rcases withheld_setPhase (hops.enqueue p idleCpu _ q (withheld_settle hq).1) with ⟨rfl,-⟩ | ⟨-,hold⟩
    · exact Or.inl ⟨idleCpu,rfl⟩
    · exact Or.inr ⟨hold,trivial⟩
  | dispatch cpu env => exact Or.inr ⟨hops.dispatch cpu env _ q (withheld_settle hq).1,trivial⟩
  | running p =>
    rcases withheld_setPhase (hops.running p _ q hq) with ⟨-,hphase⟩ | ⟨hne,hold⟩
    · cases hphase
    · exact Or.inr ⟨hold,hne⟩
  | stopping p =>
    rcases withheld_setPhase hq with ⟨-,hphase⟩ | ⟨hne,hold⟩
    · cases hphase
    · exact Or.inr ⟨hops.stopping p _ q hold,hne⟩
  | updateIdle cpu idle => exact Or.inr ⟨hops.updateIdle cpu idle _ q hq,trivial⟩

/-- A task withheld after an event was so before, or has just been handed over. -/
theorem NeverWithholds.withheld (hops : NeverWithholds ops) {e : KernelEvent} (h : ops.step s e = some t)
    (hq : t.kern.Withheld q) : (∃ idleCpu, e = .enqueue q idleCpu) ∨ s.kern.Withheld q ∧ s.kern.Spares q e := by
  obtain ⟨-,rfl⟩ := step_eq_some.mp h
  refine (hops.perform hq).imp_right (fun hbefore => ⟨hbefore.1,?_⟩)
  cases e <;> exact hbefore.2

theorem not_inserted {e : KernelEvent} (h : ops.step s e = some t) (hq : t.kern.Withheld q)
    (he : (∃ p idleCpu, e = .enqueue p idleCpu) ∨ ∃ cpu env, e = .dispatch cpu env) :
    ∀ i ∈ t.kern.inserts, i.task ≠ q := by
  obtain ⟨-,rfl⟩ := step_eq_some.mp h
  intro i hi
  rcases he with ⟨p,idleCpu,rfl⟩ | ⟨cpu,env,rfl⟩
  · exact (withheld_settle hq).2 i ((inserts_settle false _) ▸ hi)
  · exact (withheld_settle hq).2 i ((inserts_settle false _) ▸ hi)

end SchedExtOps
end ServerlessSched
