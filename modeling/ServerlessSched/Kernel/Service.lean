import ServerlessSched.Kernel.Affinity
import ServerlessSched.Kernel.Overtaking

/-! # What a waiting task is owed

The CPU time a task receives is in its virtual time as soon as it has stopped, so that a task
ahead of another has not received more than the distance between the two. And a dispatch
that may move a waiting task moves that task or one ahead of it.
-/
namespace ServerlessSched
open Runs

namespace KernelEvent

/-- The events with which `q` starts anew. -/
def Renews (q : Proc) : KernelEvent → Prop
  | .spawn p _ _ => p = q
  | .enable p _ => p = q
  | _ => False

/-- The CPU time that `q` receives. -/
def cpuTime (q : Proc) : KernelEvent → ℕ
  | .tick p ns => if p = q then ns else 0
  | _ => 0

/-- A dispatch that scans the shared queue for a CPU the kernel would move `p` to. -/
def offers (p : Proc) : KernelEvent → Bool
  | .dispatch cpu env => cpu ≠ 0 && env.moves p
  | _ => false

end KernelEvent

namespace TaskStruct
variable {C : Type}

/-- The runtime the next stop will charge. -/
def unsettled (last : C → UInt64) (t : TaskStruct C) : ℕ :=
  (t.ctx.map last).elim 0 (fun b => t.sumExecRuntime.toNat - b.toNat)

/-- The virtual time with what is still to be charged. -/
def accrued (last : C → UInt64) (t : TaskStruct C) : ℕ := t.dsqVtime.toNat + t.unsettled last

end TaskStruct

namespace Kern
variable {C : Type} {last : C → UInt64} {k k' k'' : Kern C} {e : KernelEvent}

/-- An event gives every task its CPU time, and takes nothing back but by starting it anew. -/
structure Credits (last : C → UInt64) (e : KernelEvent) (k k' : Kern C) : Prop where
  vtime_le : ∀ q, ¬e.Renews q → (k.task q).dsqVtime.toNat ≤ (k'.task q).dsqVtime.toNat
  enabled : ∀ q, ¬e.Renews q → (k'.task q).enabled = true → (k.task q).enabled = true
  accrued_le : ∀ q, ¬e.Renews q → (k'.task q).enabled = true →
    (k.task q).accrued last + e.cpuTime q ≤ (k'.task q).accrued last

/-- What an event charges to `q`. -/
def charge (last : C → UInt64) (k : Kern C) (q : Proc) : KernelEvent → ℕ
  | .stopping p => if p = q then (k.task q).unsettled last else 0
  | _ => 0

theorem credits_of_charge (hvtime : ∀ q, ¬e.Renews q →
      (k.task q).dsqVtime.toNat + k.charge last q e ≤ (k'.task q).dsqVtime.toNat)
    (hunsettled : ∀ q, ¬e.Renews q → (k'.task q).enabled = true → (k.task q).enabled = true ∧
      (k.task q).unsettled last + e.cpuTime q ≤ (k'.task q).unsettled last + k.charge last q e) :
    Credits last e k k' := by
  refine ⟨fun q hq => (Nat.le_add_right _ _).trans (hvtime q hq),fun q hq henabled => (hunsettled q hq henabled).1,
    fun q hq henabled => ?_⟩
  have hv := hvtime q hq
  have hu := (hunsettled q hq henabled).2
  unfold TaskStruct.accrued
  omega

/-- A stop charges what is unsettled, unless the virtual time wraps. -/
theorem chargeStopping_vtime_toNat {setLast : C → UInt64 → C} {p : Proc} {c : C} (hctx : (k.task p).ctx = some c)
    (hle : (last c).toNat ≤ (k.task p).sumExecRuntime.toNat) (hwrap : NoWrap last k (.stopping p)) :
    ((k.chargeStopping last setLast p).task p).dsqVtime.toNat =
      (k.task p).dsqVtime.toNat + (k.task p).unsettled last := by
  have hfits := hwrap c hctx
  have hunsettled : (k.task p).unsettled last = (k.task p).sumExecRuntime.toNat - (last c).toNat := by
    rw [TaskStruct.unsettled,hctx]
    rfl
  rw [toNat_sub_of_toNat_le hle] at hfits
  rw [chargeStopping_vtime hctx,UInt64.toNat_add,toNat_sub_of_toNat_le hle,hunsettled]
  omega

theorem enqueueShared_vtime_le (hclock : k.globalVtime.toNat < 2 ^ 63) (p : Proc)
    (hv : (k.task p).dsqVtime.toNat < 2 ^ 63) (slice : UInt64) (idleCpu : Option ℕ) (q : Proc) :
    (k.task q).dsqVtime.toNat ≤ ((k.enqueueShared p slice idleCpu).task q).dsqVtime.toNat := by
  rw [enqueueShared,kickIdleCpu_task,scxBpfDsqInsertVtime,modify_task]
  split
  case isFalse => exact le_rfl
  case isTrue hq =>
    subst hq
    exact (clamp_bounds (lagClamp_toNat hclock hv)).1

/-- The kernel does not start a waiting task anew. -/
theorem Orderly.not_renews (ho : Orderly k) (hissues : k.Issues e) {x : ℕ × Proc}
    (hx : x ∈ k.sharedDsq.entries) : ¬e.Renews x.2 := by
  have henabled := ho.waiting x hx
  have hlive : k.pids.holder x.2.pid = some x.2 := ho.live x.2 henabled
  cases e with
  | spawn p cpu mm =>
    rintro rfl
    cases hlive.symm.trans hissues
  | enable p alloc =>
    rintro rfl
    cases henabled.symm.trans hissues.2
  | _ => exact id

theorem Advances.steady (hadvances : Advances k k') (hcredits : Credits last e k k') (ho : Orderly k)
    (hissues : k.Issues e) : LaggedQueue.SteadyStep lagLimit.toNat k.lagged k'.lagged :=
  ⟨hadvances.step,fun x hx _ => hcredits.vtime_le x.2 (ho.not_renews hissues hx)⟩

/-! ## The scan -/

/-- Whoever could have been moved and is still there was behind the one that was. -/
theorem scanSharedDsq_ahead {cpu : ℕ} {moves : Proc → Bool} {d : ℕ × Proc} (hd : d ∈ k.sharedDsq.entries)
    (hmoves : moves d.2 = true) (hstays : d ∈ (scanSharedDsq cpu moves k.sharedOrder k).sharedDsq.entries) :
    ∃ x ∈ k.sharedDsq.entries, x ∉ (scanSharedDsq cpu moves k.sharedOrder k).sharedDsq.entries ∧
      StampedQueue.Ahead (fun p => (k.task p).dsqVtime.toNat) x d := by
  have hdorder : d ∈ k.sharedDsq.order (fun p => (k.task p).dsqVtime.toNat) := (StampedQueue.mem_order _).mpr hd
  have hfind : k.sharedOrder.find? moves =
      ((k.sharedDsq.order (fun p => (k.task p).dsqVtime.toNat)).find? (moves ∘ Prod.snd)).map Prod.snd :=
    List.find?_map
  rw [scanSharedDsq_sharedDsq] at hstays ⊢
  cases hfirst : (k.sharedDsq.order (fun p => (k.task p).dsqVtime.toNat)).find? (moves ∘ Prod.snd) with
  | none => exact absurd hmoves (List.find?_eq_none.mp hfirst d hdorder)
  | some x =>
    rw [hfind,hfirst] at hstays ⊢
    obtain ⟨-,hne⟩ := StampedQueue.mem_erase.mp hstays
    obtain ⟨-,before,after,horder,hbefore⟩ := List.find?_eq_some_iff_append.mp hfirst
    refine ⟨x,(StampedQueue.mem_order _).mp (List.mem_of_find?_eq_some hfirst),fun hx => ?_,?_⟩
    · exact (StampedQueue.mem_erase.mp hx).2 rfl
    · have hsorted := StampedQueue.order_pairwise (fun p => (k.task p).dsqVtime.toNat) k.sharedDsq
      rw [horder] at hdorder hsorted
      rcases List.mem_append.mp hdorder with hmem | hmem
      · exact absurd hmoves (by simpa using hbefore d hmem)
      · rcases List.mem_cons.mp hmem with rfl | hmem
        · exact absurd rfl hne
        · exact (List.pairwise_cons.mp (List.pairwise_append.mp hsorted).2.1).1 d hmem

end Kern

namespace SchedExtOps
open Kern
variable {C X : Type} {last : C → UInt64} {ops : SchedExtOps C X} {s t : Sched C X}

/-- On every CPU but the first, `dispatch` ends with a scan of the queue it has found. -/
def ScansLast (ops : SchedExtOps C X) : Prop := ∀ cpu env s, cpu ≠ 0 →
  ∃ k : Kern C, k.sharedDsq = s.kern.sharedDsq ∧
    (ops.dispatch cpu env s).kern = scanSharedDsq cpu env.moves k.sharedOrder k

theorem ScansLast.serves (hops : ScansLast ops) {e : KernelEvent} (h : ops.step s e = some t)
    (hcredits : Credits last e s.kern t.kern) {d : ℕ × Proc} (hoffers : e.offers d.2 = true)
    (hd : d ∈ s.kern.sharedDsq.entries) (hstays : d ∈ t.kern.sharedDsq.entries) :
    ∃ x ∈ s.kern.sharedDsq.entries, x ∉ t.kern.sharedDsq.entries ∧
      s.kern.lagged.key x.2 ≤ t.kern.lagged.key x.2 ∧ StampedQueue.Ahead t.kern.lagged.key x d := by
  cases e with
  | dispatch cpu env =>
    obtain ⟨-,rfl⟩ := step_eq_some.mp h
    obtain ⟨hcpu,hmoves⟩ : cpu ≠ 0 ∧ env.moves d.2 = true := by simpa [KernelEvent.offers] using hoffers
    obtain ⟨k,hdsq,hdispatch⟩ := hops cpu env (s.onKern Kern.clearCalls) hcpu
    have hdsq : k.sharedDsq = s.kern.sharedDsq := hdsq
    have hlanded := landed_settle false (ops.dispatch cpu env (s.onKern Kern.clearCalls)).kern
    rw [hdispatch] at hlanded
    have hperform : (ops.perform (s.onKern Kern.clearCalls) (.dispatch cpu env)).kern =
        (scanSharedDsq cpu env.moves k.sharedOrder k).settle false := congrArg (Kern.settle false) hdispatch
    have hvtime : ∀ q, ((ops.perform (s.onKern Kern.clearCalls) (.dispatch cpu env)).kern.task q).dsqVtime =
        (k.task q).dsqVtime := by
      intro q
      rw [hperform,hlanded.vtime,scanSharedDsq_vtime]
    have hkey : (ops.perform (s.onKern Kern.clearCalls) (.dispatch cpu env)).kern.lagged.key =
        fun p => (k.task p).dsqVtime.toNat := funext (fun q => congrArg UInt64.toNat (hvtime q))
    -- whatever lands after the scan has a stamp of its own
    have hold : ∀ y ∈ s.kern.sharedDsq.entries,
        y ∈ (ops.perform (s.onKern Kern.clearCalls) (.dispatch cpu env)).kern.sharedDsq.entries →
          y ∈ (scanSharedDsq cpu env.moves k.sharedOrder k).sharedDsq.entries := by
      intro y hy hafter
      rw [hperform] at hafter
      have hseq : (scanSharedDsq cpu env.moves k.sharedOrder k).sharedDsq.seq = s.kern.sharedDsq.seq := by
        rw [scanSharedDsq_sharedDsq,← hdsq]
        cases k.sharedOrder.find? env.moves <;> rfl
      have hstamp := s.kern.sharedDsq.stamp_le y hy
      exact (hlanded.entries y hafter).resolve_right (fun hnew => by omega)
    obtain ⟨x,hx,hgone,hahead⟩ := scanSharedDsq_ahead (hdsq ▸ hd) hmoves (hold d hd hstays)
    have hx : x ∈ s.kern.sharedDsq.entries := hdsq ▸ hx
    refine ⟨x,hx,fun hafter => hgone (hold x hx hafter),?_,hkey ▸ hahead⟩
    exact hcredits.vtime_le x.2 id
  | _ => cases hoffers

end SchedExtOps

/-! ## Runs -/

def cpuTimeOf (q : Proc) (es : List KernelEvent) : ℕ := (es.map (KernelEvent.cpuTime q)).sum

section Runs
variable {S E C : Type} (step : S → E → Option S) (kern : S → Kern C) (event : E → Option KernelEvent)
variable (last : C → UInt64) (P : S → E → Prop) (s₀ : S)

/-- A stretch of a run from `s₀`: it is in `s` after `es` and in `t` after `fs` more. -/
structure Stretch (es : List E) (s : S) (fs : List E) (t : S) : Prop where
  before : run step s₀ es = some s
  condBefore : Along step P s₀ es
  during : run step s fs = some t
  cond : Along step P s fs

/-- In every run of steps that meet `P`: while a task is not started anew, all CPU time it
receives is in its virtual time, save what its next stop will charge. Hence if `x` stands
ahead of `d` in the shared queue, then since any earlier moment, and since any earlier
insertion of its own, it has received no more than the virtual time of `d` leaves room for. -/
structure BoundedService : Prop where
  received : ∀ es s fs t, Stretch step P s₀ es s fs t → ∀ q, (∀ e ∈ fs.filterMap event, ¬e.Renews q) →
    ((kern t).task q).enabled = true → ((kern s).task q).accrued last + cpuTimeOf q (fs.filterMap event) ≤
      ((kern t).task q).accrued last
  ahead : ∀ es s fs t, Stretch step P s₀ es s fs t → ∀ x ∈ (kern t).sharedDsq.entries, ∀ d,
    StampedQueue.Ahead (kern t).lagged.key x d → (∀ e ∈ fs.filterMap event, ¬e.Renews x.2) →
      ((kern s).task x.2).accrued last + cpuTimeOf x.2 (fs.filterMap event) ≤
        ((kern t).task d.2).dsqVtime.toNat + ((kern t).task x.2).unsettled last
  inserted : ∀ es r e s fs t, Stretch step P s₀ es r (e :: fs) t → step r e = some s →
    ∀ y ∈ (kern s).sharedDsq.entries, y ∉ (kern r).sharedDsq.entries →
      ∀ x ∈ (kern t).sharedDsq.entries, ∀ d, x.2 = y.2 → StampedQueue.Ahead (kern t).lagged.key x d →
        (∀ e ∈ fs.filterMap event, ¬e.Renews y.2) →
          (kern r).globalVtime.toNat + cpuTimeOf y.2 (fs.filterMap event) ≤
            ((kern t).task d.2).dsqVtime.toNat + lagLimit.toNat + ((kern t).task y.2).unsettled last

/-- In every run of steps that meet `P`: once the clock is the lag limit past the virtual time
of a waiting task, there are no more dispatches that could have moved it than there are
tasks ahead of it, unless one of them has moved it. -/
def ServedInTurn : Prop :=
  ∀ es s fs t, Stretch step P s₀ es s fs t → ∀ d ∈ (kern s).sharedDsq.entries, d ∈ (kern t).sharedDsq.entries →
    ((kern t).task d.2).dsqVtime.toNat + lagLimit.toNat ≤ (kern s).globalVtime.toNat →
      (fs.filterMap event).countP (KernelEvent.offers d.2) ≤
        (LaggedQueue.rivals ((kern t).task d.2).dsqVtime.toNat d.1 (kern s).lagged).length

variable {step kern event last P s₀}

/-- What the rules need of one step, in the states that keep `I`. -/
structure CreditedStep (kern : S → Kern C) (event : E → Option KernelEvent) (last : C → UInt64) (s : S) (e : E)
    (t : S) : Prop where
  quiet : event e = none → kern t = kern s
  issues : ∀ ke, event e = some ke → (kern s).Issues ke
  advances : ∀ ke, event e = some ke → (kern s).Advances (kern t)
  credits : ∀ ke, event e = some ke → (kern s).Credits last ke (kern t)

namespace CreditedStep
variable {s t : S} {e : E}

theorem steady (h : CreditedStep kern event last s e t) (ho : (kern s).Orderly) :
    LaggedQueue.SteadyStep lagLimit.toNat (kern s).lagged (kern t).lagged := by
  cases he : event e with
  | none =>
    rw [h.quiet he]
    exact ⟨LaggedQueue.Step.refl _ _,fun _ _ _ => le_rfl⟩
  | some ke => exact (h.advances ke he).steady (h.credits ke he) ho (h.issues ke he)

theorem accrued_le (h : CreditedStep kern event last s e t) {q : Proc} (hold : ∀ ke, event e = some ke → ¬ke.Renews q)
    (henabled : ((kern t).task q).enabled = true) : ((kern s).task q).enabled = true ∧
      ((kern s).task q).accrued last + cpuTimeOf q (event e).toList ≤ ((kern t).task q).accrued last := by
  cases he : event e with
  | none =>
    rw [h.quiet he] at henabled ⊢
    exact ⟨henabled,le_rfl⟩
  | some ke =>
    have hcredits := h.credits ke he
    have hsum : cpuTimeOf q (some ke).toList = ke.cpuTime q := by simp [cpuTimeOf]
    rw [hsum]
    exact ⟨hcredits.enabled q (hold ke he) henabled,hcredits.accrued_le q (hold ke he) henabled⟩

end CreditedStep

theorem filterMap_cons_toList (e : E) (es : List E) :
    (e :: es).filterMap event = (event e).toList ++ es.filterMap event := by
  cases he : event e <;> simp [he]

section Rules
variable {I : S → Prop} (hI : ∀ s e t, I s → P s e → step s e = some t → I t)
variable (hstep : ∀ s e t, I s → P s e → step s e = some t → CreditedStep kern event last s e t)
include hI hstep

theorem accrued_le_of_run {s t : S} {fs : List E} (hs : I s) (hP : Along step P s fs) (hr : run step s fs = some t)
    {q : Proc} (hold : ∀ e ∈ fs.filterMap event, ¬e.Renews q) (henabled : ((kern t).task q).enabled = true) :
    ((kern s).task q).enabled = true ∧ ((kern s).task q).accrued last + cpuTimeOf q (fs.filterMap event) ≤
      ((kern t).task q).accrued last := by
  induction fs generalizing s with
  | nil =>
    cases hr
    exact ⟨henabled,le_rfl⟩
  | cons e fs ih =>
    obtain ⟨u,hu,hr⟩ := run_cons_eq_some.mp hr
    obtain ⟨hp,hP⟩ := hP u hu
    rw [filterMap_cons_toList] at hold ⊢
    obtain ⟨henabled,hrest⟩ := ih (hI s e u hs hp hu) hP hr (fun f hf => hold f (List.mem_append_right _ hf))
    have hnow : ∀ ke, event e = some ke → ¬ke.Renews q := by
      intro ke he
      apply hold ke
      simp [he]
    obtain ⟨henabled,hfirst⟩ := (hstep s e u hs hp hu).accrued_le hnow henabled
    have hsum : cpuTimeOf q ((event e).toList ++ fs.filterMap event) =
        cpuTimeOf q (event e).toList + cpuTimeOf q (fs.filterMap event) := by simp [cpuTimeOf]
    rw [hsum]
    exact ⟨henabled,by omega⟩

omit hstep in
theorem Stretch.kept {es fs : List E} {s t : S} (h₀ : I s₀) (h : Stretch step P s₀ es s fs t) : I s ∧ I t := by
  have hs : I s := always_iff_visited.mp (always_of_along hI h₀ h.condBefore) es s List.prefix_rfl h.before
  exact ⟨hs,always_iff_visited.mp (always_of_along hI hs h.cond) fs t List.prefix_rfl h.during⟩

variable (hO : ∀ s, I s → (kern s).Orderly)
include hO

theorem boundedService_of_credited (h₀ : I s₀) : BoundedService step kern event last P s₀ := by
  have hreceived : ∀ es s fs t, Stretch step P s₀ es s fs t → ∀ q, (∀ e ∈ fs.filterMap event, ¬e.Renews q) →
      ((kern t).task q).enabled = true → ((kern s).task q).accrued last + cpuTimeOf q (fs.filterMap event) ≤
        ((kern t).task q).accrued last := fun es s fs t h q hold henabled =>
    (accrued_le_of_run hI hstep (h.kept hI h₀).1 h.cond h.during hold henabled).2
  have hahead : ∀ es s fs t, Stretch step P s₀ es s fs t → ∀ x ∈ (kern t).sharedDsq.entries, ∀ d,
      StampedQueue.Ahead (kern t).lagged.key x d → (∀ e ∈ fs.filterMap event, ¬e.Renews x.2) →
        ((kern s).task x.2).accrued last + cpuTimeOf x.2 (fs.filterMap event) ≤
          ((kern t).task d.2).dsqVtime.toNat + ((kern t).task x.2).unsettled last := by
    intro es s fs t h x hx d hfirst hold
    have hle : ((kern t).task x.2).dsqVtime.toNat ≤ ((kern t).task d.2).dsqVtime.toNat := hfirst.le
    have henabled := (hO t (h.kept hI h₀).2).waiting x hx
    have := hreceived es s fs t h x.2 hold henabled
    have hsplit : ((kern t).task x.2).accrued last =
        ((kern t).task x.2).dsqVtime.toNat + ((kern t).task x.2).unsettled last := rfl
    omega
  refine ⟨hreceived,hahead,fun es r e s fs t h hs y hy hnew x hx d hxy hfirst hold => ?_⟩
  obtain ⟨hp,hP⟩ := h.cond s hs
  have hIr := (h.kept hI h₀).1
  have hlater : Stretch step P s₀ (es ++ [e]) s fs t := by
    obtain ⟨u,hu,hr⟩ := run_cons_eq_some.mp h.during
    cases hs.symm.trans hu
    refine ⟨by rw [run_append_of_run h.before,run_cons_of_step hs,run_nil],?_,hr,hP⟩
    exact along_append h.condBefore h.before (Along.cons hs hp trivial)
  have hnear : (kern r).lagged.clock ≤ (kern s).lagged.key y.2 + lagLimit.toNat :=
    (((hstep r e s hIr hp hs).steady (hO r hIr)).entry y hy).resolve_right (fun h => hnew h.1)
  have hnear : (kern r).globalVtime.toNat ≤ ((kern s).task y.2).dsqVtime.toNat + lagLimit.toNat := hnear
  have hbound := hahead _ s fs t hlater x hx d hfirst (by rwa [hxy])
  have hsplit : ((kern s).task y.2).accrued last =
      ((kern s).task y.2).dsqVtime.toNat + ((kern s).task y.2).unsettled last := rfl
  rw [hxy] at hbound
  omega

theorem servedInTurn_of_credited (h₀ : I s₀) (hserves : ∀ s e t ke, I s → P s e → step s e = some t →
      event e = some ke → ∀ d : ℕ × Proc, ke.offers d.2 = true → d ∈ (kern s).sharedDsq.entries →
        d ∈ (kern t).sharedDsq.entries → ∃ x ∈ (kern s).sharedDsq.entries, x ∉ (kern t).sharedDsq.entries ∧
          (kern s).lagged.key x.2 ≤ (kern t).lagged.key x.2 ∧ StampedQueue.Ahead (kern t).lagged.key x d) :
    ServedInTurn step kern event P s₀ := by
  intro es s fs t h d hd hdt hclock
  rw [List.countP_filterMap]
  refine LaggedQueue.countP_serves_le (fun s => (kern s).lagged) (I := I) hI
    (fun s e t hs hp ht => (hstep s e t hs hp ht).steady (hO s hs)) ?_ (h.kept hI h₀).1 h.cond h.during hd hdt hclock
  intro s e t hs hp ht hoffers hds hdt
  cases he : event e with
  | none =>
    rw [he] at hoffers
    cases hoffers
  | some ke =>
    rw [he] at hoffers
    exact hserves s e t ke hs hp ht he d hoffers hds hdt

end Rules
end Runs
end ServerlessSched
