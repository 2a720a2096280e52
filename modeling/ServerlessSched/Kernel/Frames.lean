import ServerlessSched.Kernel.SchedExt

/-! # What the kernel's operations leave alone

Frame rules for the calls a callback makes and for what follows when it returns, relative
to a view of a task, and the insertions each operation records.
-/
namespace ServerlessSched

/-- The fields of a task that no call of a scheduler touches. -/
structure Standing (C : Type) where
  sumExecRuntime : UInt64
  cpu : ℕ
  mm : Mm
  ctx : Option C
  enabled : Bool

namespace TaskStruct
variable {C : Type}

def standing (t : TaskStruct C) : Standing C := ⟨t.sumExecRuntime,t.cpu,t.mm,t.ctx,t.enabled⟩

def times (t : TaskStruct C) : UInt64 × UInt64 := (t.slice,t.dsqVtime)

end TaskStruct

namespace Kern
variable {C β : Type} {view : TaskStruct C → β} {k k' k'' : Kern C} {p q : Proc}

/-- Two states with the same PID table whose tasks look the same through `view`. -/
structure Same (view : TaskStruct C → β) (k k' : Kern C) : Prop where
  pids : k'.pids = k.pids
  task : ∀ q, view (k'.task q) = view (k.task q)

theorem Same.rfl : Same view k k := ⟨Eq.refl _,fun _ => Eq.refl _⟩

theorem Same.trans (h : Same view k k') (h' : Same view k' k'') : Same view k k'' :=
  ⟨h'.pids.trans h.pids,fun q => (h'.task q).trans (h.task q)⟩

theorem Same.of_eq (hp : k'.pids = k.pids) (ht : k'.task = k.task) : Same view k k' :=
  ⟨hp,fun q => congrArg view (congrFun ht q)⟩

theorem Same.record (k : Kern C) (c : Call C) : Same view k (k.record c) := ⟨Eq.refl _,fun _ => Eq.refl _⟩

theorem Same.modify {f : TaskStruct C → TaskStruct C} (h : view (f (k.task p)) = view (k.task p)) :
    Same view k (k.modify p f) := by
  refine ⟨Eq.refl _,fun q => ?_⟩
  rw [modify_task]
  split
  case isTrue hq => rw [hq]; exact h
  case isFalse => exact Eq.refl _

theorem Same.map {γ : Type} (g : β → γ) (h : Same view k k') : Same (fun t => g (view t)) k k' :=
  ⟨h.pids,fun q => congrArg g (h.task q)⟩

theorem Same.ctx (h : Same TaskStruct.standing k k') (q : Proc) : (k'.task q).ctx = (k.task q).ctx :=
  congrArg Standing.ctx (h.task q)

theorem Same.enabled (h : Same TaskStruct.standing k k') (q : Proc) :
    (k'.task q).enabled = (k.task q).enabled := congrArg Standing.enabled (h.task q)

def roll (k : Kern C) : Proc → Standing C := fun q => (k.task q).standing

theorem Same.roll (h : Same TaskStruct.standing k k') : k'.roll = k.roll := funext h.task

theorem roll_modify (k : Kern C) (p : Proc) (f : TaskStruct C → TaskStruct C) :
    (k.modify p f).roll = Function.update k.roll p (f (k.task p)).standing := by
  funext q
  rw [Kern.roll,modify_task]
  by_cases hq : q = p
  · subst hq
    simp
  · simp [hq,Kern.roll]

theorem modify_congr {f g : TaskStruct C → TaskStruct C} (h : f (k.task p) = g (k.task p)) :
    k.modify p f = k.modify p g := by rw [modify,modify,h]

theorem modify_of_fixed {f : TaskStruct C → TaskStruct C} (h : f (k.task p) = k.task p) :
    k.modify p f = k := by rw [modify,h,Function.update_eq_self]

theorem modify_modify (f g : TaskStruct C → TaskStruct C) :
    (k.modify p f).modify p g = k.modify p (fun t => g (f t)) := by
  simp [modify]

/-! ## Calls -/

section Calls
variable (k) (p : Proc) (dsq : DsqId) (slice vtime : UInt64) (idleCpu : Option ℕ)

theorem scxBpfDsqInsert_same (h : ∀ t s, view { t with slice := s } = view t) :
    Same view k (k.scxBpfDsqInsert p dsq slice) :=
  (Same.record k _).trans (Same.modify (h _ _))

theorem scxBpfDsqInsertVtime_same (h : ∀ t s v, view { t with slice := s, dsqVtime := v } = view t) :
    Same view k (k.scxBpfDsqInsertVtime p slice vtime) :=
  (Same.record k _).trans (Same.modify (h _ _ _))

theorem kickIdleCpu_eq : k.kickIdleCpu p idleCpu = k ∨
    ∃ cpu, k.kickIdleCpu p idleCpu = k.scxBpfKickCpu cpu .idle := by
  unfold kickIdleCpu
  cases idleCpu with
  | some cpu => exact Or.inr ⟨cpu,rfl⟩
  | none =>
    dsimp only
    split
    case isTrue => exact Or.inr ⟨_,rfl⟩
    case isFalse => exact Or.inl rfl

@[simp] theorem kickIdleCpu_task : (k.kickIdleCpu p idleCpu).task = k.task := by
  rcases kickIdleCpu_eq k p idleCpu with h | ⟨cpu,h⟩ <;> rw [h]
  rfl

@[simp] theorem kickIdleCpu_pids : (k.kickIdleCpu p idleCpu).pids = k.pids := by
  rcases kickIdleCpu_eq k p idleCpu with h | ⟨cpu,h⟩ <;> rw [h]
  rfl

@[simp] theorem kickIdleCpu_globalVtime : (k.kickIdleCpu p idleCpu).globalVtime = k.globalVtime := by
  rcases kickIdleCpu_eq k p idleCpu with h | ⟨cpu,h⟩ <;> rw [h]
  rfl

@[simp] theorem kickIdleCpu_sharedDsq : (k.kickIdleCpu p idleCpu).sharedDsq = k.sharedDsq := by
  rcases kickIdleCpu_eq k p idleCpu with h | ⟨cpu,h⟩ <;> rw [h]
  rfl

theorem enqueueShared_same (h : ∀ t s v, view { t with slice := s, dsqVtime := v } = view t) :
    Same view k (k.enqueueShared p slice idleCpu) :=
  (scxBpfDsqInsertVtime_same k p slice _ h).trans (Same.of_eq (kickIdleCpu_pids _ _ _) (kickIdleCpu_task _ _ _))

end Calls

theorem chargeStopping_same {last : C → UInt64} {setLast : C → UInt64 → C}
    (h : ∀ t c v, t.ctx = some c → view { t with ctx := some (setLast c t.sumExecRuntime), dsqVtime := v } =
      view t) (k : Kern C) (p : Proc) : Same view k (k.chargeStopping last setLast p) := by
  unfold chargeStopping
  cases hctx : (k.task p).ctx with
  | none => exact Same.record k _
  | some c => exact Same.modify (h (k.task p) c _ hctx)

section Charge
variable {last : C → UInt64} {setLast : C → UInt64 → C} {k : Kern C} {p q : Proc}

theorem chargeStopping_vtime {c : C} (h : (k.task p).ctx = some c) :
    ((k.chargeStopping last setLast p).task p).dsqVtime =
      (k.task p).dsqVtime + ((k.task p).sumExecRuntime - last c) := by
  unfold chargeStopping
  rw [h]
  exact congrArg TaskStruct.dsqVtime (modify_task_self k p _)

theorem chargeStopping_task_ne (h : q ≠ p) : (k.chargeStopping last setLast p).task q = k.task q := by
  unfold chargeStopping
  cases (k.task p).ctx with
  | none => rfl
  | some c => exact modify_task_ne k _ h

end Charge

/-! ## What follows a callback -/

section Settle
variable (hphase : ∀ t phase, view { t with phase := phase } = view t)
include hphase

theorem land_same (k : Kern C) (i : DsqInsert C) : Same view k (k.land i) := by
  have h : Same view k (k.modify i.task (fun t => { t with phase := .queued })) := Same.modify (hphase _ _)
  exact ⟨h.pids,h.task⟩

theorem settleInsert_same (force : Bool) (k : Kern C) (i : DsqInsert C) :
    Same view k (k.settleInsert force i) := by
  unfold settleInsert
  split
  case isTrue => exact land_same hphase k i
  case isFalse => exact Same.rfl

private theorem foldl_settle_same (force : Bool) (is : List (DsqInsert C)) (k : Kern C) :
    Same view k (is.foldl (settleInsert force) k) := by
  induction is generalizing k with
  | nil => exact Same.rfl
  | cons i is ih => exact (settleInsert_same hphase force k i).trans (ih _)

theorem settle_same (force : Bool) (k : Kern C) : Same view k (k.settle force) :=
  foldl_settle_same hphase force k.inserts k

theorem scxBpfDsqMove_same (k : Kern C) (p : Proc) (cpu : ℕ) (moved : Bool) :
    Same view k (k.scxBpfDsqMove p cpu moved) := by
  unfold scxBpfDsqMove
  dsimp only
  split
  case isTrue =>
    have h : Same view (k.record (.move p cpu moved))
        ((k.record (.move p cpu moved)).modify p (fun t => { t with phase := .queued })) :=
      Same.modify (hphase _ _)
    exact ⟨h.pids,h.task⟩
  case isFalse => exact Same.of_eq rfl rfl

omit hphase in
theorem advanceClock_same (k : Kern C) (vtime : UInt64) : Same view k (k.advanceClock vtime) := by
  unfold advanceClock
  split
  case isTrue => exact Same.of_eq rfl rfl
  case isFalse => exact Same.rfl

theorem scanSharedDsq_same (cpu : ℕ) (moves : Proc → Bool) (ps : List Proc) (k : Kern C) :
    Same view k (scanSharedDsq cpu moves ps k) := by
  induction ps generalizing k with
  | nil => exact Same.rfl
  | cons p ps ih =>
    have hadvance : Same view k (k.advanceClock (k.task p).dsqVtime) := advanceClock_same k _
    unfold scanSharedDsq
    dsimp only
    split
    case isTrue => exact hadvance.trans (scxBpfDsqMove_same hphase _ p cpu true)
    case isFalse => exact (hadvance.trans (scxBpfDsqMove_same hphase _ p cpu false)).trans (ih _)

end Settle

theorem setPhase_same (hphase : ∀ t phase, view { t with phase := phase } = view t) (p : Proc)
    (phase : Phase) (k : Kern C) : Same view k (setPhase p phase k) := Same.modify (hphase _ _)

theorem exec_same (hmm : ∀ t mm, view { t with mm := mm } = view t) (p : Proc) (mm : Mm) (k : Kern C) :
    Same view k (exec p mm k) := Same.modify (hmm _ _)

theorem tick_same (hsum : ∀ t ns, view { t with sumExecRuntime := ns } = view t) (p : Proc) (ns : ℕ)
    (k : Kern C) : Same view k (tick p ns k) := Same.modify (hsum _ _)

theorem setEnabled_same (henabled : ∀ t, view { t with enabled := true } = view t) (p : Proc) (k : Kern C) :
    Same view k (setEnabled p k) := Same.modify (henabled _)

theorem leave_same (hleft : ∀ t, view { t with enabled := false, phase := .idle } = view t) (p : Proc)
    (k : Kern C) : Same view k (leave p k) := by
  have h : Same view k (k.modify p (fun t => { t with enabled := false, phase := .idle })) := Same.modify (hleft _)
  exact ⟨h.pids,h.task⟩

/-! ## The roll after the events of the kernel -/

section Roll
variable (p : Proc) (k : Kern C)

theorem spawn_roll (cpu : ℕ) (mm : Mm) :
    (spawn p cpu mm k).roll = Function.update k.roll p ⟨0,cpu,mm,none,false⟩ :=
  roll_modify k p (fun _ => ⟨0,0,0,cpu,mm,none,false,.idle⟩)

theorem exec_roll (mm : Mm) : (exec p mm k).roll = Function.update k.roll p { k.roll p with mm := mm } :=
  roll_modify k p (fun t => { t with mm := mm })

theorem tick_roll (ns : ℕ) : (tick p ns k).roll = Function.update k.roll p
    { k.roll p with sumExecRuntime := (k.roll p).sumExecRuntime + UInt64.ofNat ns } :=
  roll_modify k p (fun t => { t with sumExecRuntime := t.sumExecRuntime + UInt64.ofNat ns })

theorem setEnabled_roll :
    (setEnabled p k).roll = Function.update k.roll p { k.roll p with enabled := true } :=
  roll_modify k p (fun t => { t with enabled := true })

theorem leave_roll : (leave p k).roll = Function.update k.roll p { k.roll p with enabled := false } :=
  roll_modify k p (fun t => { t with enabled := false, phase := .idle })

theorem reap_roll : (reap p k).roll = Function.update k.roll p { k.roll p with ctx := none } :=
  roll_modify k p (fun t => { t with ctx := none })

end Roll

/-! ## The insertions recorded -/

section Inserts

theorem inserts_of_calls (h : k'.calls = k.calls) : k'.inserts = k.inserts := by rw [inserts,h]; rfl

@[simp] theorem inserts_clearCalls (k : Kern C) : k.clearCalls.inserts = [] := rfl

@[simp] theorem inserts_modify (k : Kern C) (p : Proc) (f : TaskStruct C → TaskStruct C) :
    (k.modify p f).inserts = k.inserts := rfl

theorem inserts_record (k : Kern C) (c : Call C) (h : ∀ i, c ≠ .insert i) :
    (k.record c).inserts = k.inserts := by
  rw [inserts,record_calls,List.filterMap_append,inserts]
  cases c with
  | insert i => exact absurd rfl (h i)
  | kick cpu flag => simp
  | move p cpu moved => simp
  | error text => simp

@[simp] theorem inserts_scxBpfError (k : Kern C) (text : String) :
    (k.scxBpfError text).inserts = k.inserts := inserts_record k _ (fun _ h => by cases h)

@[simp] theorem inserts_scxBpfKickCpu (k : Kern C) (cpu : ℕ) (flag : KickFlag) :
    (k.scxBpfKickCpu cpu flag).inserts = k.inserts := inserts_record k _ (fun _ h => by cases h)

@[simp] theorem inserts_kickIdleCpu (k : Kern C) (p : Proc) (idleCpu : Option ℕ) :
    (k.kickIdleCpu p idleCpu).inserts = k.inserts := by
  rcases kickIdleCpu_eq k p idleCpu with h | ⟨cpu,h⟩ <;> rw [h]
  exact inserts_scxBpfKickCpu k cpu .idle

@[simp] theorem inserts_scxBpfDsqInsert (k : Kern C) (p : Proc) (dsq : DsqId) (slice : UInt64) :
    (k.scxBpfDsqInsert p dsq slice).inserts =
      k.inserts ++ [⟨p,dsq,slice,none,k.task p,k.globalVtime⟩] := by
  simp [scxBpfDsqInsert,inserts]

@[simp] theorem inserts_scxBpfDsqInsertVtime (k : Kern C) (p : Proc) (slice vtime : UInt64) :
    (k.scxBpfDsqInsertVtime p slice vtime).inserts =
      k.inserts ++ [⟨p,.shared,slice,some vtime,k.task p,k.globalVtime⟩] := by
  simp [scxBpfDsqInsertVtime,inserts]

@[simp] theorem inserts_enqueueShared (k : Kern C) (p : Proc) (slice : UInt64) (idleCpu : Option ℕ) :
    (k.enqueueShared p slice idleCpu).inserts =
      k.inserts ++ [⟨p,.shared,slice,some (lagClamp k.globalVtime (k.task p).dsqVtime),
        k.task p,k.globalVtime⟩] := by
  rw [enqueueShared,inserts_kickIdleCpu,inserts_scxBpfDsqInsertVtime]

@[simp] theorem inserts_chargeStopping {last : C → UInt64} {setLast : C → UInt64 → C} (k : Kern C) (p : Proc) :
    (k.chargeStopping last setLast p).inserts = k.inserts := by
  unfold chargeStopping
  cases (k.task p).ctx with
  | none => exact inserts_scxBpfError _ _
  | some c => rfl

@[simp] theorem inserts_settle (force : Bool) (k : Kern C) : (k.settle force).inserts = k.inserts := by
  have h : ∀ (is : List (DsqInsert C)) (k : Kern C), (is.foldl (settleInsert force) k).calls = k.calls := by
    intro is
    induction is with
    | nil => exact fun _ => rfl
    | cons i is ih =>
      intro k
      rw [List.foldl_cons,ih,settleInsert]
      split <;> rfl
  exact inserts_of_calls (h _ _)

theorem inserts_scxBpfDsqMove (k : Kern C) (p : Proc) (cpu : ℕ) (moved : Bool) :
    (k.scxBpfDsqMove p cpu moved).inserts = k.inserts := by
  have h : (k.record (.move p cpu moved)).inserts = k.inserts := inserts_record k _ (fun _ h => by cases h)
  unfold scxBpfDsqMove
  dsimp only
  split
  case isTrue => exact h
  case isFalse => exact h

@[simp] theorem inserts_scanSharedDsq (cpu : ℕ) (moves : Proc → Bool) (ps : List Proc) (k : Kern C) :
    (scanSharedDsq cpu moves ps k).inserts = k.inserts := by
  induction ps generalizing k with
  | nil => rfl
  | cons p ps ih =>
    have hadvance : (k.advanceClock (k.task p).dsqVtime).inserts = k.inserts := by
      unfold advanceClock
      split <;> rfl
    unfold scanSharedDsq
    dsimp only
    split
    case isTrue => rw [inserts_scxBpfDsqMove,hadvance]
    case isFalse => rw [ih,inserts_scxBpfDsqMove,hadvance]

@[simp] theorem inserts_setPhase (p : Proc) (phase : Phase) (k : Kern C) :
    (setPhase p phase k).inserts = k.inserts := rfl

@[simp] theorem inserts_setEnabled (p : Proc) (k : Kern C) : (setEnabled p k).inserts = k.inserts := rfl

end Inserts

end Kern
end ServerlessSched
