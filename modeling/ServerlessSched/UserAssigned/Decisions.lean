import ServerlessSched.Kernel.Frames
import ServerlessSched.UserAssigned.Bpf

/-! # What consuming the decisions does

The consumer empties the `dispatched` map. Its effect is a fold over the records: each
one marks the context of the task that holds its PID and asks for one insertion; records
whose PID is free are skipped.
-/
namespace ServerlessSched.UserAssigned
open Kern

namespace TaskCtx

def decide (tctx : TaskCtx) (slice : UInt64) : TaskCtx :=
  { tctx with slice := translateSlice slice, hasSlice := true }

@[simp] theorem decide_decide (tctx : TaskCtx) (d e : UInt64) : (tctx.decide d).decide e = tctx.decide e := rfl

end TaskCtx

/-- What the consumer stores into a task before it inserts it. -/
def markDecided (slice : UInt64) (t : TaskStruct TaskCtx) : TaskStruct TaskCtx :=
  { t with slice := t.ctx.elim sliceDfl TaskCtx.slice, ctx := t.ctx.map (fun c => c.decide slice) }

theorem markDecided_of_none {t : TaskStruct TaskCtx} {slice : UInt64} (h : t.ctx = none) :
    { t with slice := sliceDfl } = markDecided slice t := by
  rcases t with ⟨_,_,_,_,_,ctx,_,_⟩
  cases h
  rfl

theorem markDecided_of_some {t : TaskStruct TaskCtx} {tctx : TaskCtx} {slice : UInt64}
    (h : t.ctx = some tctx) :
    { t with
      slice := tctx.slice
      ctx := some { tctx with slice := translateSlice slice, hasSlice := true } } =
      markDecided slice t := by
  rcases t with ⟨_,_,_,_,_,ctx,_,_⟩
  cases h
  rfl

/-- The slices decided for `q` among the records, in the order they are consumed. -/
def decisionsFor (pids : PidTable) (q : Proc) (us : List DispatchedTask) : List UInt64 :=
  (us.filter (fun u => pids.holder u.pid = some q)).map DispatchedTask.slice

theorem mem_decisionsFor {pids : PidTable} {q : Proc} {us : List DispatchedTask} {d : UInt64} :
    d ∈ decisionsFor pids q us ↔ ∃ u ∈ us, pids.holder u.pid = some q ∧ u.slice = d := by
  simp [decisionsFor,and_assoc]

/-- The insertion a record leads to, relative to the state in which consuming starts. -/
structure InsertedFor (k : Kern TaskCtx) (u : DispatchedTask) (i : DsqInsert TaskCtx) : Prop where
  holder : k.pids.holder u.pid = some i.task
  dsq : i.dsq = .shared
  slice : i.slice = if (k.task i.task).ctx.isSome then translateSlice u.slice else sliceDfl
  clock : i.clock = k.globalVtime
  enabled : i.seen.enabled = (k.task i.task).enabled
  phase : i.seen.phase = (k.task i.task).phase

theorem exists_record {k : Kern TaskCtx} {us : List DispatchedTask} {is : List (DsqInsert TaskCtx)}
    {i : DsqInsert TaskCtx} (hall : List.Forall₂ (InsertedFor k) us is) (hi : i ∈ is) :
    ∃ u ∈ us, InsertedFor k u i := Runs.exists_entry (List.Forall₂.flip hall) hi

theorem inserted_pids {k : Kern TaskCtx} {us : List DispatchedTask} {is : List (DsqInsert TaskCtx)}
    (hall : List.Forall₂ (InsertedFor k) us is) :
    is.map (fun i => i.task.pid) = us.map DispatchedTask.pid := by
  induction hall with
  | nil => rfl
  | cons hfirst hall ih => rw [List.map_cons,List.map_cons,ih,k.pids.holder_pid _ _ hfirst.holder]

namespace KernelSide
variable {β : Type} {view : TaskStruct TaskCtx → β} (u : DispatchedTask) (idleCpu : Option ℕ)
  (k : Kern TaskCtx)

theorem applyDecision_cases :
    (k.pids.holder u.pid = none ∧ applyDecision u idleCpu k = k) ∨
    ∃ p slice, k.pids.holder u.pid = some p ∧
      slice = (if (k.task p).ctx.isSome then translateSlice u.slice else sliceDfl) ∧
      applyDecision u idleCpu k =
        ((k.modify p (markDecided u.slice)).scxBpfDsqInsertVtime p slice
          (lagClamp k.globalVtime (k.task p).dsqVtime)).kickIdleCpu p idleCpu := by
  unfold applyDecision
  cases hp : k.pids.holder u.pid with
  | none => exact Or.inl ⟨rfl,rfl⟩
  | some p =>
    refine Or.inr ⟨p,_,rfl,rfl,?_⟩
    dsimp only
    cases hctx : (k.task p).ctx with
    | none =>
      have hmark : k.modify p (fun t => { t with slice := sliceDfl }) =
          k.modify p (markDecided u.slice) := modify_congr (markDecided_of_none hctx)
      exact congrArg (fun k' => (k'.scxBpfDsqInsertVtime p sliceDfl
        (lagClamp k.globalVtime (k.task p).dsqVtime)).kickIdleCpu p idleCpu) hmark
    | some tctx =>
      have hmark : k.modify p (fun t => { t with
            slice := tctx.slice
            ctx := some { tctx with slice := translateSlice u.slice, hasSlice := true } }) =
          k.modify p (markDecided u.slice) := modify_congr (markDecided_of_some hctx)
      exact congrArg (fun k' => (k'.scxBpfDsqInsertVtime p (translateSlice u.slice)
        (lagClamp k.globalVtime (k.task p).dsqVtime)).kickIdleCpu p idleCpu) hmark

@[simp] theorem applyDecision_pids : (applyDecision u idleCpu k).pids = k.pids := by
  rcases applyDecision_cases u idleCpu k with ⟨-,h⟩ | ⟨p,slice,-,-,h⟩ <;> rw [h]
  rw [kickIdleCpu_pids]
  rfl

@[simp] theorem applyDecision_globalVtime : (applyDecision u idleCpu k).globalVtime = k.globalVtime := by
  rcases applyDecision_cases u idleCpu k with ⟨-,h⟩ | ⟨p,slice,-,-,h⟩ <;> rw [h]
  rw [kickIdleCpu_globalVtime]
  rfl

@[simp] theorem applyDecision_sharedDsq : (applyDecision u idleCpu k).sharedDsq = k.sharedDsq := by
  rcases applyDecision_cases u idleCpu k with ⟨-,h⟩ | ⟨p,slice,-,-,h⟩ <;> rw [h]
  rw [kickIdleCpu_sharedDsq]
  rfl

theorem applyDecision_same (hview : ∀ t s v d, view { t with
      slice := s, dsqVtime := v, ctx := t.ctx.map (fun c => c.decide d) } = view t) :
    Same view k (applyDecision u idleCpu k) := by
  have htimes : ∀ t s v, view { t with slice := s, dsqVtime := v } = view t := fun t s v =>
    (hview { t with slice := s, dsqVtime := v } s v 0).symm.trans (hview t s v 0)
  rcases applyDecision_cases u idleCpu k with ⟨-,h⟩ | ⟨p,slice,-,-,h⟩ <;> rw [h]
  · exact Same.rfl
  · refine Same.trans (Same.modify ?_) (Same.trans (scxBpfDsqInsertVtime_same _ p slice _ htimes)
      (Same.of_eq (kickIdleCpu_pids _ _ _) (kickIdleCpu_task _ _ _)))
    exact hview (k.task p) _ (k.task p).dsqVtime _

theorem applyDecision_task_of_ne {q : Proc} (hq : k.pids.holder u.pid ≠ some q) :
    (applyDecision u idleCpu k).task q = k.task q := by
  rcases applyDecision_cases u idleCpu k with ⟨-,h⟩ | ⟨p,slice,hp,-,h⟩ <;> rw [h]
  have hne : q ≠ p := by
    rintro rfl
    exact hq hp
  rw [kickIdleCpu_task,scxBpfDsqInsertVtime,modify_task_ne _ _ hne,record_task,
    modify_task_ne _ _ hne]

theorem applyDecision_ctx (q : Proc) :
    ((applyDecision u idleCpu k).task q).ctx =
      if k.pids.holder u.pid = some q then (k.task q).ctx.map (fun c => c.decide u.slice)
      else (k.task q).ctx := by
  split
  case isFalse hq => rw [applyDecision_task_of_ne u idleCpu k hq]
  case isTrue hq =>
    rcases applyDecision_cases u idleCpu k with ⟨hnone,-⟩ | ⟨p,slice,hp,-,h⟩
    · rw [hq] at hnone
      cases hnone
    · have hpq : p = q := Option.some.inj (hp.symm.trans hq)
      subst hpq
      rw [h,kickIdleCpu_task]
      simp [scxBpfDsqInsertVtime,markDecided]

theorem applyDecision_inserts :
    (applyDecision u idleCpu k).inserts = k.inserts ∧ k.pids.holder u.pid = none ∨
    ∃ i, (applyDecision u idleCpu k).inserts = k.inserts ++ [i] ∧ InsertedFor k u i := by
  rcases applyDecision_cases u idleCpu k with ⟨hnone,h⟩ | ⟨p,slice,hp,hslice,h⟩
  · rw [h]
    exact Or.inl ⟨rfl,hnone⟩
  · refine Or.inr ⟨⟨p,.shared,slice,some (lagClamp k.globalVtime (k.task p).dsqVtime),
      markDecided u.slice (k.task p),k.globalVtime⟩,?_,⟨hp,rfl,hslice,rfl,rfl,rfl⟩⟩
    rw [h,inserts_kickIdleCpu,inserts_scxBpfDsqInsertVtime,inserts_modify,modify_task_self]
    rfl

/-! ## The whole loop -/

def applyDecisions (pick : ℕ → Option ℕ) : ℕ → List DispatchedTask → Kern TaskCtx → Kern TaskCtx
  | _, [], k => k
  | n, u :: us, k => applyDecisions pick (n - 1) us (applyDecision u (pick (n - 1)) k)

section Loop
variable (pick : ℕ → Option ℕ)

theorem dequeueRounds_eq {rounds : ℕ} {s : KernelSide} (h : s.bss.link.dispatched.items.length ≤ rounds) :
    dequeueRounds pick rounds s =
      setLink (s.onKern (applyDecisions pick rounds s.bss.link.dispatched.items))
        { s.bss.link with dispatched := .empty } := by
  induction rounds generalizing s with
  | zero =>
    have hnil : s.bss.link.dispatched.items = [] := List.length_eq_zero_iff.mp (Nat.le_zero.mp h)
    have hempty : s.bss.link.dispatched = .empty := BoundedQueue.ext hnil
    rw [dequeueRounds,hnil,← hempty]
    rfl
  | succ rounds ih =>
    rw [dequeueRounds]
    cases hpop : s.bss.link.dispatched.pop with
    | none =>
      have hnil := BoundedQueue.pop_eq_none.mp hpop
      have hempty : s.bss.link.dispatched = .empty := BoundedQueue.ext hnil
      dsimp only
      rw [hnil,← hempty]
      rfl
    | some head =>
      obtain ⟨u,rest⟩ := head
      have hitems := BoundedQueue.pop_eq_some.mp hpop
      rw [hitems,List.length_cons] at h
      dsimp only
      rw [ih (Nat.le_of_succ_le_succ h),hitems]
      rfl

/-- The map holds no more records than the loop has rounds: it is emptied. -/
theorem dequeueTasksFromUserspace_eq (s : KernelSide) :
    dequeueTasksFromUserspace pick s =
      setLink (s.onKern (applyDecisions pick maxEnqueuedTasks s.bss.link.dispatched.items))
        { s.bss.link with dispatched := .empty } :=
  dequeueRounds_eq pick s.bss.link.dispatched.length_le

theorem applyDecisions_preserves {P : Kern TaskCtx → Prop} {us : List DispatchedTask}
    (hP : ∀ u ∈ us, ∀ idleCpu k, P k → P (applyDecision u idleCpu k)) (n : ℕ) {k : Kern TaskCtx}
    (hk : P k) : P (applyDecisions pick n us k) := by
  induction us generalizing n k with
  | nil => exact hk
  | cons u us ih =>
    exact ih (fun v hv => hP v (List.mem_cons_of_mem u hv)) (n - 1)
      (hP u List.mem_cons_self (pick (n - 1)) k hk)

variable (n : ℕ) (us : List DispatchedTask)

@[simp] theorem applyDecisions_pids : (applyDecisions pick n us k).pids = k.pids :=
  applyDecisions_preserves pick (P := fun k' => k'.pids = k.pids)
    (fun u _ i k' h => (applyDecision_pids u i k').trans h) n rfl

@[simp] theorem applyDecisions_globalVtime : (applyDecisions pick n us k).globalVtime = k.globalVtime :=
  applyDecisions_preserves pick (P := fun k' => k'.globalVtime = k.globalVtime)
    (fun u _ i k' h => (applyDecision_globalVtime u i k').trans h) n rfl

@[simp] theorem applyDecisions_sharedDsq : (applyDecisions pick n us k).sharedDsq = k.sharedDsq :=
  applyDecisions_preserves pick (P := fun k' => k'.sharedDsq = k.sharedDsq)
    (fun u _ i k' h => (applyDecision_sharedDsq u i k').trans h) n rfl

theorem applyDecisions_same
    (hview : ∀ t s v d, view { t with
      slice := s, dsqVtime := v, ctx := t.ctx.map (fun c => c.decide d) } = view t) :
    Same view k (applyDecisions pick n us k) :=
  applyDecisions_preserves pick (P := Same view k)
    (fun u _ i k' h => h.trans (applyDecision_same u i k' hview)) n Same.rfl

theorem applyDecisions_task_of_ne {q : Proc} (hq : ∀ u ∈ us, k.pids.holder u.pid ≠ some q) :
    (applyDecisions pick n us k).task q = k.task q := by
  have h := applyDecisions_preserves pick (P := fun k' => k'.pids = k.pids ∧ k'.task q = k.task q)
    (fun u hu i k' h => ⟨(applyDecision_pids u i k').trans h.1,
      (applyDecision_task_of_ne u i k' (by rw [h.1]; exact hq u hu)).trans h.2⟩) n ⟨rfl,rfl⟩
  exact h.2

theorem decisionsFor_cons (pids : PidTable) (q : Proc) (u : DispatchedTask) :
    decisionsFor pids q (u :: us) =
      if pids.holder u.pid = some q then u.slice :: decisionsFor pids q us
      else decisionsFor pids q us := by
  unfold decisionsFor
  rw [List.filter_cons]
  by_cases h : pids.holder u.pid = some q <;> simp [h]

theorem applyDecisions_ctx (q : Proc) :
    ((applyDecisions pick n us k).task q).ctx =
      match (decisionsFor k.pids q us).getLast? with
      | none => (k.task q).ctx
      | some d => (k.task q).ctx.map (fun c => c.decide d) := by
  induction us generalizing n k with
  | nil => rfl
  | cons u us ih =>
    rw [applyDecisions,ih,applyDecision_pids,applyDecision_ctx,decisionsFor_cons]
    by_cases hq : k.pids.holder u.pid = some q
    · simp only [if_pos hq,List.getLast?_cons]
      cases (decisionsFor k.pids q us).getLast? with
      | none => rfl
      | some d => simp [Function.comp_def]
    · simp only [if_neg hq]

theorem insertedFor_of_applyDecision {v : DispatchedTask} {i : DsqInsert TaskCtx}
    (h : InsertedFor (applyDecision u idleCpu k) v i) : InsertedFor k v i := by
  have henabled : Same TaskStruct.enabled k (applyDecision u idleCpu k) :=
    applyDecision_same u idleCpu k (fun _ _ _ _ => rfl)
  have hphase : Same TaskStruct.phase k (applyDecision u idleCpu k) :=
    applyDecision_same u idleCpu k (fun _ _ _ _ => rfl)
  have hsome : ((applyDecision u idleCpu k).task i.task).ctx.isSome = (k.task i.task).ctx.isSome := by
    rw [applyDecision_ctx]
    split
    case isTrue => exact Option.isSome_map
    case isFalse => rfl
  constructor
  · rw [← applyDecision_pids u idleCpu k]; exact h.holder
  · exact h.dsq
  · rw [h.slice,hsome]
  · rw [h.clock,applyDecision_globalVtime]
  · rw [h.enabled]; exact henabled.task i.task
  · rw [h.phase]; exact hphase.task i.task

theorem applyDecisions_inserts :
    ∃ is, (applyDecisions pick n us k).inserts = k.inserts ++ is ∧
      List.Forall₂ (InsertedFor k) (us.filter (fun u => (k.pids.holder u.pid).isSome)) is := by
  induction us generalizing n k with
  | nil => exact ⟨[],by simp [applyDecisions],List.Forall₂.nil⟩
  | cons u us ih =>
    obtain ⟨is,his,hall⟩ := ih (applyDecision u (pick (n - 1)) k) (n - 1)
    rw [applyDecision_pids] at hall
    have hall' : List.Forall₂ (InsertedFor k)
        (us.filter (fun u => (k.pids.holder u.pid).isSome)) is :=
      hall.imp (fun v i h => insertedFor_of_applyDecision u _ k h)
    rw [applyDecisions,List.filter_cons]
    rcases applyDecision_inserts u (pick (n - 1)) k with ⟨hsame,hnone⟩ | ⟨i,hone,hi⟩
    · refine ⟨is,by rw [his,hsame],?_⟩
      simpa [hnone] using hall'
    · refine ⟨i :: is,by rw [his,hone,List.append_assoc]; rfl,?_⟩
      simpa [hi.holder] using List.Forall₂.cons hi hall'

end Loop

end KernelSide
end ServerlessSched.UserAssigned
