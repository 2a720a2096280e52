import ServerlessSched.KernelAssigned.Bpf

/-! # The contexts of enabled tasks

A context is made when a task is enabled first and stays when the task is disabled. What it
says is compared with an account that an observer opens anew at every enabling.
-/
namespace ServerlessSched.KernelAssigned
open Kern Runs

abbrev Roll := Proc → Standing TaskCtx

def Roll.step (r : Roll) : KernelEvent → Roll
  | .spawn p cpu mm => Function.update r p ⟨0,cpu,mm,none,false⟩
  | .exec p mm => Function.update r p { r p with mm := mm }
  | .tick p ns => Function.update r p { r p with sumExecRuntime := (r p).sumExecRuntime + UInt64.ofNat ns }
  | .exit p => Function.update r p { r p with ctx := none, enabled := false }
  | .enable p alloc =>
    if (r p).ctx.isSome ∨ alloc = true then
      Function.update r p { r p with
        ctx := some ((r p).ctx.getD ⟨getTaskSlice (r p).mm,(r p).sumExecRuntime⟩)
        enabled := true }
    else r
  | .disable p => Function.update r p { r p with enabled := false }
  | .stopping p => Function.update r p { r p with
      ctx := (r p).ctx.map (fun tctx => { tctx with lastSumExecRuntime := (r p).sumExecRuntime }) }
  | _ => r

namespace KernelSide
variable {s t : KernelSide} {k k' : Kern TaskCtx} {p : Proc}

/-! ## The events on the roll -/

theorem selectCpu_same (p : Proc) (cpu : ℕ) (isIdle : Bool) (k : Kern TaskCtx) :
    Same TaskStruct.standing k (selectCpu p cpu isIdle k) := by
  unfold selectCpu
  split
  case isFalse => exact Same.rfl
  case isTrue =>
    cases (k.task p).ctx with
    | none => exact Same.record k _
    | some tctx => exact (scxBpfDsqInsert_same k p _ _ (fun _ _ => rfl)).trans (Same.record _ _)

theorem enqueue_same (p : Proc) (idleCpu : Option ℕ) (k : Kern TaskCtx) :
    Same TaskStruct.standing k (enqueue p idleCpu k) := by
  unfold enqueue
  cases (k.task p).ctx with
  | none => exact Same.record k _
  | some tctx => exact enqueueShared_same k p _ idleCpu (fun _ _ _ => rfl)

theorem dispatch_same (cpu : ℕ) (env : DispatchEnv) (k : Kern TaskCtx) :
    Same TaskStruct.standing k (dispatch cpu env k) := by
  unfold dispatch
  split
  case isTrue => exact Same.rfl
  case isFalse => exact scanSharedDsq_same (fun _ _ => rfl) cpu env.moves _ k

theorem stopping_roll (p : Proc) (k : Kern TaskCtx) :
    (stopping p k).roll = Roll.step k.roll (.stopping p) := by
  unfold stopping chargeStopping
  cases hctx : (k.task p).ctx with
  | none =>
    have hsame : { k.roll p with ctx := (k.roll p).ctx.map (fun tctx =>
        { tctx with lastSumExecRuntime := (k.roll p).sumExecRuntime }) } = k.roll p := by
      simp [Kern.roll,TaskStruct.standing,hctx]
    rw [Roll.step,hsame,Function.update_eq_self]
    rfl
  | some tctx =>
    refine (roll_modify k p _).trans (congrArg _ ?_)
    simp [Kern.roll,TaskStruct.standing,hctx]

theorem settle_roll (force : Bool) (k : Kern TaskCtx) : (k.settle force).roll = k.roll :=
  (settle_same (fun _ _ => rfl) force k).roll

theorem setPhase_roll (p : Proc) (phase : Phase) (k : Kern TaskCtx) : (Kern.setPhase p phase k).roll = k.roll :=
  (setPhase_same (fun _ _ => rfl) p phase k).roll

theorem exit_roll (p : Proc) (s : KernelSide) :
    (serverlessOps.perform s (.exit p)).kern.roll = Roll.step s.kern.roll (.exit p) := by
  unfold SchedExtOps.perform
  dsimp only
  cases hp : (s.kern.task p).enabled with
  | true =>
    rw [if_pos rfl]
    apply (reap_roll p _).trans
    have hleave : ((serverlessOps.disable p s).onKern (Kern.leave p)).kern.roll =
        Function.update s.kern.roll p { s.kern.roll p with enabled := false } := leave_roll p s.kern
    rw [hleave,Function.update_idem,Function.update_self]
    rfl
  | false =>
    rw [if_neg (by decide)]
    have hdisabled : ({ s.kern.roll p with ctx := none } : Standing TaskCtx) =
        { s.kern.roll p with ctx := none, enabled := false } := by
      simp [Kern.roll,TaskStruct.standing,hp]
    exact (reap_roll p s.kern).trans (congrArg _ hdisabled)

theorem enable_roll (p : Proc) (alloc : Bool) (s : KernelSide) :
    (serverlessOps.perform s (.enable p alloc)).kern.roll = Roll.step s.kern.roll (.enable p alloc) := by
  unfold SchedExtOps.perform Roll.step
  dsimp only
  rcases enable_cases p alloc s with ⟨hnone,halloc,hres⟩ | ⟨hstored,hres⟩
  · have hfails : (serverlessOps.enable p alloc s).2 < 0 :=
      lt_of_eq_of_lt (congrArg Prod.snd hres) (show -enomem < 0 by decide)
    have hrefused : ¬((s.kern.roll p).ctx.isSome ∨ alloc = true) := by
      simp [Kern.roll,TaskStruct.standing,hnone,halloc]
    rw [if_pos hfails,if_neg hrefused]
    have hsame : Same TaskStruct.standing s.kern (refuse p s.kern) :=
      Same.trans (Same.modify rfl) (Same.record _ _)
    exact (congrArg (fun u : KernelSide × ℤ => u.1.kern.roll) hres).trans hsame.roll
  · have hsucceeds : ¬(serverlessOps.enable p alloc s).2 < 0 :=
      not_lt_of_ge (le_of_eq (congrArg Prod.snd hres).symm)
    have hstored' : (s.kern.roll p).ctx.isSome ∨ alloc = true := hstored
    rw [if_neg hsucceeds,if_pos hstored']
    apply (setEnabled_roll p _).trans
    have henrol : (((serverlessOps.enable p alloc s).1.onKern (Kern.settle true))).kern.roll =
        Function.update s.kern.roll p (enrol s.kern.globalVtime (s.kern.task p)).standing :=
      ((settle_roll true _).trans (congrArg (fun u : KernelSide × ℤ => u.1.kern.roll) hres)).trans
        (roll_modify s.kern p _)
    rw [henrol,Function.update_idem,Function.update_self]
    rfl

theorem perform_roll (s : KernelSide) (e : KernelEvent) :
    (serverlessOps.perform s e).kern.roll = Roll.step s.kern.roll e := by
  cases e with
  | spawn p cpu mm => exact spawn_roll p s.kern cpu mm
  | exec p mm => exact exec_roll p s.kern mm
  | tick p ns => exact tick_roll p s.kern ns
  | exit p => exact exit_roll p s
  | enable p alloc => exact enable_roll p alloc s
  | disable p => exact leave_roll p s.kern
  | selectCpu p cpu isIdle => exact (settle_roll true _).trans (selectCpu_same p cpu isIdle s.kern).roll
  | enqueue p idleCpu =>
    exact ((settle_roll false _).trans (enqueue_same p idleCpu _).roll).trans (setPhase_roll p .withheld s.kern)
  | dispatch cpu env => exact (settle_roll false _).trans (dispatch_same cpu env s.kern).roll
  | running p => exact setPhase_roll p .running s.kern
  | stopping p => exact (setPhase_roll p .idle _).trans (stopping_roll p s.kern)
  | updateIdle cpu idle => rfl

theorem step_roll {e : KernelEvent} (h : serverlessOps.step s e = some t) :
    t.kern.roll = Roll.step s.kern.roll e := by
  obtain ⟨-,rfl⟩ := SchedExtOps.step_eq_some.mp h
  exact perform_roll (s.onKern Kern.clearCalls) e

section Inserts
variable {k : Kern TaskCtx} {i : DsqInsert TaskCtx}

theorem enqueue_inserts {idleCpu : Option ℕ} (hnone : k.inserts = [])
    (hi : i ∈ (enqueue p idleCpu k).inserts) :
    i.task = p ∧ ∃ tctx, (k.task p).ctx = some tctx ∧ i.slice = tctx.slice := by
  unfold enqueue at hi
  cases hctx : (k.task p).ctx with
  | none =>
    rw [hctx,inserts_scxBpfError,hnone] at hi
    cases hi
  | some tctx =>
    rw [hctx,inserts_enqueueShared,hnone] at hi
    cases List.mem_singleton.mp hi
    exact ⟨rfl,tctx,rfl,rfl⟩

theorem enable_inserts (p : Proc) (alloc : Bool) (s : KernelSide) :
    (enable p alloc s).1.kern.inserts = s.kern.inserts := by
  rcases enable_cases p alloc s with ⟨-,-,hres⟩ | ⟨-,hres⟩
  · exact (congrArg (fun u : KernelSide × ℤ => u.1.kern.inserts) hres).trans (inserts_scxBpfError _ _)
  · exact congrArg (fun u : KernelSide × ℤ => u.1.kern.inserts) hres

theorem dispatch_inserts (cpu : ℕ) (env : DispatchEnv) (k : Kern TaskCtx) :
    (dispatch cpu env k).inserts = k.inserts := by
  unfold dispatch
  split
  case isTrue => rfl
  case isFalse => exact inserts_scanSharedDsq _ _ _ _

theorem perform_inserts {e : KernelEvent} (hnone : s.kern.inserts = [])
    (hi : i ∈ (serverlessOps.perform s e).kern.inserts) :
    ((∃ cpu isIdle, e = .selectCpu i.task cpu isIdle) ∨ ∃ idleCpu, e = .enqueue i.task idleCpu) ∧
      ∃ tctx, (s.kern.task i.task).ctx = some tctx ∧ i.slice = tctx.slice := by
  have hempty : ∀ k : Kern TaskCtx, k.inserts = s.kern.inserts → i ∉ k.inserts := by
    intro k hk hi
    rw [hk,hnone] at hi
    cases hi
  cases e with
  | selectCpu p cpu isIdle =>
    obtain ⟨rfl,-,hctx⟩ := selectCpu_inserts (k := s.kern) hnone (by rwa [← inserts_settle true])
    exact ⟨Or.inl ⟨cpu,isIdle,rfl⟩,hctx⟩
  | enqueue p idleCpu =>
    have hmarked : (Kern.setPhase p .withheld s.kern).inserts = [] := hnone
    obtain ⟨rfl,tctx,hctx,hslice⟩ := enqueue_inserts hmarked (by rwa [← inserts_settle false])
    rw [Kern.setPhase,modify_task_self] at hctx
    exact ⟨Or.inr ⟨idleCpu,rfl⟩,tctx,hctx,hslice⟩
  | enable p alloc =>
    refine absurd hi (hempty _ ?_)
    unfold SchedExtOps.perform
    dsimp only
    split
    case isTrue => exact enable_inserts p alloc s
    case isFalse => exact (inserts_settle true _).trans (enable_inserts p alloc s)
  | dispatch cpu env =>
    exact absurd hi (hempty _ ((inserts_settle false _).trans (dispatch_inserts cpu env s.kern)))
  | stopping p => exact absurd hi (hempty _ (inserts_chargeStopping s.kern p))
  | exit p =>
    refine absurd hi (hempty _ ?_)
    unfold SchedExtOps.perform
    dsimp only
    split <;> rfl
  | _ => exact absurd hi (hempty _ rfl)

end Inserts

theorem step_stopping_vtime {tctx : TaskCtx} (h : serverlessOps.step s (.stopping p) = some t)
    (hctx : (s.kern.task p).ctx = some tctx) :
    (t.kern.task p).dsqVtime - (s.kern.task p).dsqVtime =
      (s.kern.task p).sumExecRuntime - tctx.lastSumExecRuntime := by
  obtain ⟨-,rfl⟩ := SchedExtOps.step_eq_some.mp h
  have hadded : ((Kern.setPhase p .idle (stopping p s.kern.clearCalls)).task p).dsqVtime =
      (s.kern.task p).dsqVtime + ((s.kern.task p).sumExecRuntime - tctx.lastSumExecRuntime) := by
    rw [Kern.setPhase,modify_task_self]
    exact chargeStopping_vtime (k := s.kern.clearCalls) hctx
  apply (congrArg (fun v => v - (s.kern.task p).dsqVtime) hadded).trans
  rw [UInt64.add_comm,UInt64.add_sub_cancel]

end KernelSide

/-! ## The accounts -/

/-- What the observer notes about a task: at each enabling the slice its command line calls for
and its runtime, at each stop the runtime again and the virtual time that was added. -/
structure Account where
  slice : UInt64
  base : UInt64
  settled : UInt64
  charged : ℕ

def audit (s : KernelSide) (e : KernelEvent) (t : KernelSide) (g : Proc → Account) : Proc → Account :=
  match e with
  | .enable p _ =>
    if (t.kern.task p).enabled then
      Function.update g p ⟨getTaskSlice (s.kern.task p).mm,(s.kern.task p).sumExecRuntime,
        (s.kern.task p).sumExecRuntime,0⟩
    else g
  | .stopping p => Function.update g p { g p with
      settled := (s.kern.task p).sumExecRuntime
      charged := (g p).charged + ((t.kern.task p).dsqVtime - (s.kern.task p).dsqVtime).toNat }
  | _ => g

/-- The context of an enabled task holds the slice computed when it was enabled and its runtime
at that time or at its last stop; the stops have added the runtime in between, no more and
no less; and what is inserted gets the slice computed. -/
structure FreshContexts (s : KernelSide) (g : Proc → Account) : Prop where
  tasks : ∀ p, (s.kern.task p).enabled = true →
    (s.kern.task p).ctx = some ⟨(g p).slice,(g p).settled⟩ ∧
      (g p).base.toNat + (g p).charged = (g p).settled.toNat
  inserted : ∀ i ∈ s.kern.inserts, i.slice = (g i.task).slice

/-- A task that brings a context along has not run since it was charged last, and is a short
job exactly if the context says so. -/
def NothingStale (s : KernelSide) : KernelEvent → Prop
  | .enable p _ => ∀ tctx, (s.kern.task p).ctx = some tctx →
      tctx.lastSumExecRuntime = (s.kern.task p).sumExecRuntime ∧
        (tctx.slice = sliceInf ↔ ShortJob (s.kern.task p).mm)
  | _ => True

/-- No context is ahead of its task, and each holds one of the two slices. -/
def Sane (r : Roll) : Prop := ∀ p tctx, (r p).ctx = some tctx →
  tctx.lastSumExecRuntime.toNat ≤ (r p).sumExecRuntime.toNat ∧
    (tctx.slice = sliceInf ∨ tctx.slice = sliceDfl)

variable {r : Roll} {s t : KernelSide} {g : Proc → Account} {p : Proc}

theorem Sane.update (hr : Sane r) {c : Standing TaskCtx} (hc : ∀ tctx, c.ctx = some tctx →
      tctx.lastSumExecRuntime.toNat ≤ c.sumExecRuntime.toNat ∧
        (tctx.slice = sliceInf ∨ tctx.slice = sliceDfl)) : Sane (Function.update r p c) := by
  intro q tctx hctx
  by_cases hq : q = p
  · subst hq
    rw [Function.update_self] at hctx ⊢
    exact hc tctx hctx
  · rw [Function.update_of_ne hq] at hctx ⊢
    exact hr q tctx hctx

theorem Sane.step {e : KernelEvent} (hr : Sane s.kern.roll) (h : serverlessOps.step s e = some t) :
    Sane t.kern.roll := by
  have hissues := (SchedExtOps.step_eq_some.mp h).1
  rw [KernelSide.step_roll h]
  cases e with
  | spawn p cpu mm => exact hr.update (fun tctx hctx => by cases hctx)
  | exec p mm => exact hr.update (hr p)
  | tick p ns =>
    refine hr.update (fun tctx hctx => ⟨(hr p tctx hctx).1.trans ?_,(hr p tctx hctx).2⟩)
    have hfits : (s.kern.task p).sumExecRuntime.toNat + ns < 2 ^ 64 := hissues.2
    change (s.kern.task p).sumExecRuntime.toNat ≤ ((s.kern.task p).sumExecRuntime + UInt64.ofNat ns).toNat
    exact toNat_le_add_ofNat hfits
  | exit p => exact hr.update (fun tctx hctx => by cases hctx)
  | enable p alloc =>
    unfold Roll.step
    dsimp only
    split
    case isFalse => exact hr
    case isTrue =>
      refine hr.update (fun tctx hctx => ?_)
      cases hold : (s.kern.roll p).ctx with
      | some old =>
        rw [hold] at hctx
        cases hctx
        exact hr p old hold
      | none =>
        rw [hold] at hctx
        cases hctx
        refine ⟨le_rfl,?_⟩
        rcases getTaskSlice_cases (s.kern.roll p).mm with ⟨-,hslice⟩ | ⟨-,hslice⟩
        · exact Or.inl hslice
        · exact Or.inr hslice
  | disable p => exact hr.update (hr p)
  | stopping p =>
    refine hr.update (fun tctx hctx => ?_)
    obtain ⟨old,hold,rfl⟩ := Option.map_eq_some_iff.mp hctx
    exact ⟨le_rfl,(hr p old hold).2⟩
  | _ => exact hr

/-- The account of a task agrees with what the roll says about it. -/
def Agrees (c : Standing TaskCtx) (a : Account) : Prop :=
  c.enabled = true → c.ctx = some ⟨a.slice,a.settled⟩ ∧ a.base.toNat + a.charged = a.settled.toNat

theorem agrees_enable {c : Standing TaskCtx} {slice : UInt64} (hsane : ∀ tctx, c.ctx = some tctx →
      tctx.slice = sliceInf ∨ tctx.slice = sliceDfl) (hslice : slice = getTaskSlice c.mm) :
    Agrees { c with ctx := some (c.ctx.getD ⟨slice,c.sumExecRuntime⟩), enabled := true }
        ⟨slice,c.sumExecRuntime,c.sumExecRuntime,0⟩ ↔
      ∀ tctx, c.ctx = some tctx → tctx.lastSumExecRuntime = c.sumExecRuntime ∧
        (tctx.slice = sliceInf ↔ ShortJob c.mm) := by
  have hne : sliceDfl ≠ sliceInf := by decide
  unfold Agrees
  cases hctx : c.ctx with
  | none => simp
  | some tctx =>
    have hsame : tctx.slice = slice ↔ (tctx.slice = sliceInf ↔ ShortJob c.mm) := by
      rw [hslice]
      rcases getTaskSlice_cases c.mm with ⟨hshort,hcall⟩ | ⟨hlong,hcall⟩ <;> rw [hcall]
      · simp [hshort]
      · rcases hsane tctx hctx with hinf | hdfl
        · simp [hinf,hlong,hne.symm]
        · simp [hdfl,hlong,hne]
    rcases tctx with ⟨held,last⟩
    simp only [Option.getD_some,Option.some.injEq,TaskCtx.mk.injEq,forall_true_left,forall_eq'] at hsame ⊢
    rw [hsame]
    simp [and_comm]

theorem agrees_step {e : KernelEvent} (hsane : Sane s.kern.roll) (hs : ∀ q, Agrees (s.kern.roll q) (g q))
    (h : serverlessOps.step s e = some t) :
    (∀ q, Agrees (t.kern.roll q) (audit s e t g q)) ↔ NothingStale s e := by
  obtain ⟨hissues,-⟩ := SchedExtOps.step_eq_some.mp h
  have hroll := KernelSide.step_roll h
  cases e with
  | enable p alloc =>
    have hnew : (s.kern.roll p).enabled = false := hissues.2
    have henabled : (t.kern.task p).enabled = (Roll.step s.kern.roll (.enable p alloc) p).enabled :=
      congrArg (fun r : Roll => (r p).enabled) hroll
    rw [hroll,audit,henabled]
    unfold Roll.step
    dsimp only
    split
    case isTrue =>
      rw [Function.update_self,if_pos rfl]
      exact (entries_update_iff hs).trans (agrees_enable (fun tctx hctx => (hsane p tctx hctx).2) rfl)
    case isFalse hrefused =>
      rw [hnew,if_neg Bool.false_ne_true]
      refine iff_of_true hs (fun tctx hctx => ?_)
      exact absurd (Or.inl (Option.isSome_iff_exists.mpr ⟨tctx,hctx⟩)) hrefused
  | stopping p =>
    refine iff_of_true ?_ trivial
    rw [hroll]
    refine (entries_update_iff hs).mpr (fun henabled => ?_)
    obtain ⟨hctx,hcharged⟩ := hs p henabled
    have hadded := KernelSide.step_stopping_vtime h hctx
    have hle : (g p).settled.toNat ≤ (s.kern.roll p).sumExecRuntime.toNat := (hsane p _ hctx).1
    have hdelta : ((t.kern.task p).dsqVtime - (s.kern.task p).dsqVtime).toNat =
        (s.kern.roll p).sumExecRuntime.toNat - (g p).settled.toNat := by
      rw [hadded]
      exact toNat_sub_of_toNat_le hle
    refine ⟨?_,?_⟩
    · rw [hctx]
      rfl
    · change (g p).base.toNat + ((g p).charged + _) = (s.kern.roll p).sumExecRuntime.toNat
      rw [hdelta]
      omega
  | spawn p cpu mm =>
    refine iff_of_true ?_ trivial
    rw [hroll]
    exact entries_update hs (fun henabled => by cases henabled)
  | exit p =>
    refine iff_of_true ?_ trivial
    rw [hroll]
    exact entries_update hs (fun henabled => by cases henabled)
  | disable p =>
    refine iff_of_true ?_ trivial
    rw [hroll]
    exact entries_update hs (fun henabled => by cases henabled)
  | exec p mm =>
    refine iff_of_true ?_ trivial
    rw [hroll]
    exact entries_update hs (hs p)
  | tick p ns =>
    refine iff_of_true ?_ trivial
    rw [hroll]
    exact entries_update hs (hs p)
  | _ =>
    refine iff_of_true ?_ trivial
    rw [hroll]
    exact hs

/-- What a step inserts has the slice of the account, whether or not contexts stay fresh. -/
theorem inserted_step {e : KernelEvent} (hs : FreshContexts s g) (h : serverlessOps.step s e = some t)
    {i : DsqInsert TaskCtx} (hi : i ∈ t.kern.inserts) : i.slice = (audit s e t g i.task).slice := by
  obtain ⟨hissues,rfl⟩ := SchedExtOps.step_eq_some.mp h
  obtain ⟨hevent,tctx,hctx,hslice⟩ := KernelSide.perform_inserts (inserts_clearCalls s.kern) hi
  have henabled : (s.kern.task i.task).enabled = true ∧
      audit s e (serverlessOps.perform (s.onKern Kern.clearCalls) e) g = g := by
    rcases hevent with ⟨cpu,isIdle,rfl⟩ | ⟨idleCpu,rfl⟩
    · exact ⟨hissues,rfl⟩
    · exact ⟨hissues,rfl⟩
  have hctx' : (s.kern.task i.task).ctx = some tctx := hctx
  rw [(hs.tasks i.task henabled.1).1] at hctx'
  cases hctx'
  rw [henabled.2]
  exact hslice

theorem freshContexts_step {e : KernelEvent} (hsane : Sane s.kern.roll) (hs : FreshContexts s g)
    (h : serverlessOps.step s e = some t) : FreshContexts t (audit s e t g) ↔ NothingStale s e := by
  rw [← agrees_step hsane hs.tasks h]
  exact ⟨fun ht => ht.tasks,fun ht => ⟨ht,fun i hi => inserted_step hs h hi⟩⟩

open KernelSide in
/-- In every run, whatever the accounts say at first: contexts are fresh throughout if and only
if no task is enabled with a stale one. -/
theorem fresh_contexts_iff (k : Kern TaskCtx) (g : Proc → Account) (es : List KernelEvent) :
    Always (withGhost serverlessOps.step audit) (fun p => FreshContexts p.1 p.2) (start k,g) es ↔
      Along (withGhost serverlessOps.step audit) (fun p e => NothingStale p.1 e) (start k,g) es := by
  refine always_iff_along (W := fun p : KernelSide × (Proc → Account) => Sane p.1.kern.roll)
    (fun p e q hp hq => hp.step (withGhost_eq_some.mp hq).1) (fun p e q hsane hp hq => ?_)
    (fun p tctx hctx => by cases hctx)
    ⟨fun p hp => (Bool.false_ne_true hp).elim,fun i hi => (List.not_mem_nil hi).elim⟩
  obtain ⟨hstep,hghost⟩ := withGhost_eq_some.mp hq
  rw [hghost]
  exact freshContexts_step hsane hp hstep

/-- PID 7 is enabled with the command line `f 30`, leaves the scheduler, runs for five
milliseconds elsewhere, becomes `f 40` and is enabled again, to run for one millisecond. -/
def enabledTwice : List KernelEvent :=
  [.spawn ⟨7,0⟩ 1 (.ofArea 4096 [102,0,51,48,0]),.enable ⟨7,0⟩ true,.disable ⟨7,0⟩,.tick ⟨7,0⟩ 5000000,
    .exec ⟨7,0⟩ (.ofArea 4096 [102,0,52,48,0]),.enable ⟨7,0⟩ true,.running ⟨7,0⟩,.tick ⟨7,0⟩ 1000000,
    .stopping ⟨7,0⟩]

open KernelSide in
/-- The context is still the first one: job 40 keeps the infinite slice of job 30, and the stop
charges six milliseconds. -/
theorem context_outlives_disable :
    ∃ s g, run (withGhost serverlessOps.step audit) (start Kern.fresh,fun _ => ⟨0,0,0,0⟩) enabledTwice =
        some (s,g) ∧ (s.kern.task ⟨7,0⟩).ctx = some ⟨sliceInf,6000000⟩ ∧
      (g ⟨7,0⟩).slice = sliceDfl ∧ (g ⟨7,0⟩).base = 5000000 ∧ (g ⟨7,0⟩).charged = 6000000 ∧
      ¬FreshContexts s g := by
  obtain ⟨p,hr,henabled,hctx,hslice,hbase,hcharged⟩ : ∃ p,
      run (withGhost serverlessOps.step audit) (start Kern.fresh,fun _ => ⟨0,0,0,0⟩) enabledTwice = some p ∧
      (p.1.kern.task ⟨7,0⟩).enabled = true ∧ (p.1.kern.task ⟨7,0⟩).ctx = some ⟨sliceInf,6000000⟩ ∧
      (p.2 ⟨7,0⟩).slice = sliceDfl ∧ (p.2 ⟨7,0⟩).base = 5000000 ∧ (p.2 ⟨7,0⟩).charged = 6000000 :=
    ⟨_,rfl,rfl,by decide +kernel,by decide +kernel,by decide +kernel,by decide +kernel⟩
  refine ⟨p.1,p.2,hr,hctx,hslice,hbase,hcharged,fun hfresh => ?_⟩
  have hsame := hctx.symm.trans (hfresh.tasks ⟨7,0⟩ henabled).1
  rw [hslice] at hsame
  have hheld : sliceInf = sliceDfl := congrArg TaskCtx.slice (Option.some.inj hsame)
  exact absurd hheld (by decide)

end ServerlessSched.KernelAssigned
