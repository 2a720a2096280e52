import ServerlessSched.Kernel.VirtualTime
import Mathlib.Algebra.Order.Ring.Nat

/-! # Bounded overtaking in the shared queue

The events of every scheduler whose callbacks keep to virtual time advance the clock and the
shared queue together, so that a task the clock has left behind is not overtaken any more.
-/
namespace ServerlessSched
open Runs

namespace Kern
variable {C : Type} {k₀ k k' : Kern C} {p : Proc}

/-! ## Tasks that come and go -/

theorem Orderly.leave (ho : Orderly k) (p : Proc) : Orderly (Kern.leave p k) := by
  have htask : ∀ q, (Kern.leave p k).task q =
      if q = p then { k.task p with enabled := false, phase := .idle } else k.task q :=
    fun q => modify_task k p q (fun t => { t with enabled := false, phase := .idle })
  refine ⟨ho.clock_lt,fun q => ?_,fun e he => ?_,fun q hq => ?_,fun q hq => ?_⟩
  · rw [htask]
    split
    case isTrue => exact ho.vtime_lt p
    case isFalse => exact ho.vtime_lt q
  · obtain ⟨hold,hne⟩ := StampedQueue.mem_erase.mp he
    rw [htask,if_neg hne]
    exact ho.waiting e hold
  · rw [htask] at hq ⊢
    split at hq
    case isTrue => cases hq
    case isFalse hne => rw [if_neg hne]; exact ho.withheld q hq
  · rw [htask] at hq
    split at hq
    case isTrue => cases hq
    case isFalse => exact ho.live q hq

theorem step_leave (p : Proc) (k : Kern C) :
    LaggedQueue.Step lagLimit.toNat k.lagged (Kern.leave p k).lagged := by
  have hvtime : Same TaskStruct.dsqVtime k
      (k.modify p (fun t => { t with enabled := false, phase := .idle })) := Same.modify rfl
  have hentries : ∀ e ∈ (Kern.leave p k).sharedDsq.entries, e ∈ k.sharedDsq.entries := fun e he =>
    (StampedQueue.mem_erase.mp he).1
  refine ⟨le_rfl,le_rfl,fun e he => Or.inr ⟨hentries e he,?_⟩,fun e he => Or.inl (hentries e he)⟩
  exact (congrArg UInt64.toNat (hvtime.task e.2)).ge

theorem Orderly.reap (ho : Orderly k) (hlive : k.pids.Live p) (hp : (k.task p).enabled = false) :
    Orderly (Kern.reap p k) := by
  have hsame : Same TaskStruct.ranked k (k.modify p (fun t => { t with ctx := none })) := Same.modify rfl
  have ho' : Orderly (k.modify p (fun t => { t with ctx := none })) := ho.frame rfl rfl hsame
  refine ⟨ho'.clock_lt,ho'.vtime_lt,ho'.waiting,ho'.withheld,fun q hq => ?_⟩
  have henabled : (k.task q).enabled = true := ((hsame.map Prod.fst).task q).symm.trans hq
  have hne : q.pid ≠ p.pid := by
    intro hpid
    rw [(ho.live q henabled).unique hlive hpid,hp] at henabled
    cases henabled
  exact (Function.update_of_ne hne _ _).trans (ho.live q henabled)

theorem lagged_reap (p : Proc) (k : Kern C) : (Kern.reap p k).lagged = k.lagged := by
  have hsame : Same TaskStruct.dsqVtime k (k.modify p (fun t => { t with ctx := none })) := Same.modify rfl
  exact lagged_congr rfl rfl hsame.task

theorem Orderly.spawn (ho : Orderly k) (hfree : k.pids.holder p.pid = none) (cpu : ℕ) (mm : Mm) :
    Orderly (Kern.spawn p cpu mm k) ∧
      LaggedQueue.Step lagLimit.toNat k.lagged (Kern.spawn p cpu mm k).lagged := by
  have hdead : ∀ q, (k.task q).enabled = true → q.pid ≠ p.pid := by
    intro q hq hpid
    have hlive : k.pids.holder q.pid = some q := ho.live q hq
    rw [hpid,hfree] at hlive
    cases hlive
  have htask : ∀ q, (Kern.spawn p cpu mm k).task q =
      if q = p then ⟨0,0,0,cpu,mm,none,false,.idle⟩ else k.task q :=
    fun q => modify_task k p q (fun _ => ⟨0,0,0,cpu,mm,none,false,.idle⟩)
  have hother : ∀ q, (k.task q).enabled = true → (Kern.spawn p cpu mm k).task q = k.task q := by
    intro q hq
    have hne : q ≠ p := by
      rintro rfl
      exact hdead q hq rfl
    rw [htask,if_neg hne]
  have hcases : ∀ q, (Kern.spawn p cpu mm k).task q = k.task q ∨
      (Kern.spawn p cpu mm k).task q = ⟨0,0,0,cpu,mm,none,false,.idle⟩ := by
    intro q
    rw [htask]
    split
    case isTrue => exact Or.inr rfl
    case isFalse => exact Or.inl rfl
  constructor
  · refine ⟨ho.clock_lt,fun q => ?_,fun e he => ?_,fun q hq => ?_,fun q hq => ?_⟩
    · rcases hcases q with h | h <;> rw [h]
      · exact ho.vtime_lt q
      · exact Nat.two_pow_pos 63
    · rw [hother e.2 (ho.waiting e he)]
      exact ho.waiting e he
    · rcases hcases q with h | h <;> rw [h] at hq ⊢
      · exact ho.withheld q hq
      · cases hq
    · rcases hcases q with h | h <;> rw [h] at hq
      · exact (Function.update_of_ne (hdead q hq) _ _).trans (ho.live q hq)
      · cases hq
  · refine ⟨le_rfl,le_rfl,fun e he => Or.inr ⟨he,?_⟩,fun e he => Or.inl he⟩
    have hkept := hother e.2 (ho.waiting e he)
    exact (congrArg (fun t => t.dsqVtime.toNat) hkept).ge

/-! ## Events -/

/-- The time charged at a stop does not carry the virtual time to `2 ^ 63`. -/
def NoWrap (last : C → UInt64) (k : Kern C) : KernelEvent → Prop
  | .stopping p => ∀ c, (k.task p).ctx = some c →
      (k.task p).dsqVtime.toNat + ((k.task p).sumExecRuntime - last c).toNat < 2 ^ 63
  | _ => True

/-- What an event does to the clock and the shared queue. -/
structure Advances (k k' : Kern C) : Prop where
  orderly : Orderly k'
  step : LaggedQueue.Step lagLimit.toNat k.lagged k'.lagged
  inTime : ∀ i ∈ k'.inserts, i.dsq = .shared → i.InTime

theorem Timely.advances (h : Timely k₀ k) (ho : Orderly k₀) : Advances k₀ k :=
  ⟨h.orderly ho,h.step,fun i hi hdsq => (h.inserted i hi hdsq).1⟩

theorem Timely.advances_settle (h : Timely k₀ k) (ho : Orderly k₀) {force : Bool} (hforce : force = true →
      ∀ i ∈ k.inserts, i.dsq ≠ .shared) : Advances k₀ (k.settle force) :=
  ⟨(h.orderly ho).settle (fun hf i hi hdsq => absurd hdsq (hforce hf i hi)),h.step_settle force,
    fun i hi hdsq => (h.inserted i (by rwa [← inserts_settle force]) hdsq).1⟩

end Kern

namespace SchedExtOps
open Kern
variable {C X : Type} {last : C → UInt64} {ops : SchedExtOps C X} {s t : Sched C X}

/-- The callbacks keep to virtual time: each is timely, `selectCpu` leaves the shared queue
alone and `enable` inserts nobody else into it. -/
structure KeepsTime (last : C → UInt64) (ops : SchedExtOps C X) : Prop where
  selectCpu : ∀ p cpu isIdle (s : Sched C X), Orderly s.kern → s.kern.inserts = [] →
    Timely s.kern (ops.selectCpu p cpu isIdle s).kern ∧
      ∀ i ∈ (ops.selectCpu p cpu isIdle s).kern.inserts, i.dsq ≠ .shared
  enqueue : ∀ p idleCpu (s : Sched C X), Orderly s.kern → s.kern.inserts = [] →
    Timely s.kern (ops.enqueue p idleCpu s).kern
  dispatch : ∀ cpu env (s : Sched C X), Orderly s.kern → s.kern.inserts = [] →
    Timely s.kern (ops.dispatch cpu env s).kern
  running : ∀ p (s : Sched C X), Orderly s.kern → s.kern.inserts = [] → Timely s.kern (ops.running p s).kern
  stopping : ∀ p (s : Sched C X), Orderly s.kern → s.kern.inserts = [] →
    NoWrap last s.kern (.stopping p) → Timely s.kern (ops.stopping p s).kern
  updateIdle : ∀ cpu idle (s : Sched C X), Orderly s.kern → s.kern.inserts = [] →
    Timely s.kern (ops.updateIdle cpu idle s).kern
  enable : ∀ p alloc (s : Sched C X), Orderly s.kern → s.kern.inserts = [] →
    Timely s.kern (ops.enable p alloc s).1.kern ∧
      ∀ i ∈ (ops.enable p alloc s).1.kern.inserts, i.dsq = .shared → i.task = p
  disable : ∀ p (s : Sched C X), Orderly s.kern → s.kern.inserts = [] → Timely s.kern (ops.disable p s).kern

theorem KeepsTime.leave (hops : KeepsTime last ops) (p : Proc) (ho : Orderly s.kern)
    (hnone : s.kern.inserts = []) : Advances s.kern (Kern.leave p (ops.disable p s).kern) := by
  have h := hops.disable p s ho hnone
  exact ⟨(h.orderly ho).leave p,h.step.trans (step_leave p _),
    fun i hi hdsq => (h.inserted i hi hdsq).1⟩

theorem KeepsTime.exit (hops : KeepsTime last ops) {p : Proc} (ho : Orderly s.kern)
    (hnone : s.kern.inserts = []) (hlive : s.kern.pids.Live p) :
    Advances s.kern (ops.perform s (.exit p)).kern := by
  have hreap : ∀ k, Advances s.kern k → k.pids = s.kern.pids → (k.task p).enabled = false →
      Advances s.kern (Kern.reap p k) := by
    intro k hk hpids hp
    have hlive' : k.pids.Live p := by rw [hpids]; exact hlive
    exact ⟨hk.orderly.reap hlive' hp,(lagged_reap p k).symm ▸ hk.step,hk.inTime⟩
  unfold SchedExtOps.perform
  dsimp only
  cases hp : (s.kern.task p).enabled with
  | true =>
    have hleft : ((Kern.leave p (ops.disable p s).kern).task p).enabled = false :=
      congrArg TaskStruct.enabled (modify_task_self (ops.disable p s).kern p
        (fun t => { t with enabled := false, phase := .idle }))
    rw [if_pos rfl]
    exact hreap _ (hops.leave p ho hnone) (hops.disable p s ho hnone).enabled.pids hleft
  | false => exact hreap _ ((Kern.Timely.refl ho hnone).advances ho) rfl hp

theorem KeepsTime.enables (hops : KeepsTime last ops) {p : Proc} (alloc : Bool) (ho : Orderly s.kern)
    (hnone : s.kern.inserts = []) (hlive : s.kern.pids.Live p) :
    Advances s.kern (ops.perform s (.enable p alloc)).kern := by
  obtain ⟨henable,htask⟩ := hops.enable p alloc s ho hnone
  unfold SchedExtOps.perform
  dsimp only
  split
  case isTrue => exact henable.advances ho
  case isFalse =>
    have hlive' : (ops.enable p alloc s).1.kern.pids.Live p := by
      rw [henable.enabled.pids]
      exact hlive
    have hview : ∀ k : Kern C, (Kern.setEnabled p k).lagged = k.lagged := by
      intro k
      have hsame : Same TaskStruct.dsqVtime k (Kern.setEnabled p k) := Same.modify rfl
      exact lagged_congr rfl rfl hsame.task
    refine ⟨(henable.orderly ho).settle_enable hlive' htask,?_,fun i hi hdsq => ?_⟩
    · exact (hview _).symm ▸ henable.step_settle true
    · rw [Sched.onKern_kern,inserts_setEnabled,Sched.onKern_kern,inserts_settle] at hi
      exact (henable.inserted i hi hdsq).1

theorem KeepsTime.perform (hops : KeepsTime last ops) {e : KernelEvent} (ho : Orderly s.kern)
    (hnone : s.kern.inserts = []) (hissues : s.kern.Issues e) (hwrap : NoWrap last s.kern e) :
    Advances s.kern (ops.perform s e).kern := by
  have hstart := Kern.Timely.refl ho hnone
  cases e with
  | spawn p cpu mm =>
    obtain ⟨horderly,hstep⟩ := ho.spawn hissues cpu mm
    refine ⟨horderly,hstep,fun i hi => ?_⟩
    have hi : i ∈ s.kern.inserts := hi
    rw [hnone] at hi
    cases hi
  | exec p mm =>
    have hexec : Timely s.kern (Kern.exec p mm s.kern) :=
      hstart.frame rfl rfl rfl (exec_same (fun _ _ => rfl) p mm s.kern)
    exact hexec.advances ho
  | tick p ns =>
    have htick : Timely s.kern (Kern.tick p ns s.kern) :=
      hstart.frame rfl rfl rfl (tick_same (fun _ _ => rfl) p ns s.kern)
    exact htick.advances ho
  | exit p => exact hops.exit ho hnone hissues
  | enable p alloc => exact hops.enables alloc ho hnone hissues.1
  | disable p => exact hops.leave p ho hnone
  | selectCpu p cpu isIdle =>
    obtain ⟨hselect,hlocal⟩ := hops.selectCpu p cpu isIdle s ho hnone
    exact hselect.advances_settle ho (fun _ => hlocal)
  | enqueue p idleCpu =>
    have hmarked : Orderly (s.onKern (Kern.setPhase p .withheld)).kern := ho.setPhase (fun _ => hissues)
    have henqueue := hops.enqueue p idleCpu _ hmarked hnone
    have hadvances := henqueue.advances_settle hmarked (fun (hf : false = true) => by cases hf)
    exact ⟨hadvances.orderly,lagged_setPhase p .withheld s.kern ▸ hadvances.step,hadvances.inTime⟩
  | dispatch cpu env =>
    exact (hops.dispatch cpu env s ho hnone).advances_settle ho (fun hf => by cases hf)
  | running p =>
    have hmarked : Orderly (s.onKern (Kern.setPhase p .running)).kern := ho.setPhase (fun hf => by cases hf)
    have hadvances := (hops.running p _ hmarked hnone).advances hmarked
    exact ⟨hadvances.orderly,lagged_setPhase p .running s.kern ▸ hadvances.step,hadvances.inTime⟩
  | stopping p =>
    have hadvances := (hops.stopping p s ho hnone hwrap).advances ho
    refine ⟨hadvances.orderly.setPhase (fun hf => by cases hf),?_,hadvances.inTime⟩
    exact (lagged_setPhase p .idle _).symm ▸ hadvances.step
  | updateIdle cpu idle => exact (hops.updateIdle cpu idle s ho hnone).advances ho

theorem KeepsTime.step (hops : KeepsTime last ops) {e : KernelEvent} (ho : Orderly s.kern)
    (hwrap : NoWrap last s.kern e) (h : ops.step s e = some t) : Advances s.kern t.kern := by
  obtain ⟨hissues,rfl⟩ := step_eq_some.mp h
  have hcleared : Orderly (s.onKern Kern.clearCalls).kern := ho.frame rfl rfl (Same.of_eq rfl rfl)
  have hlagged : (s.onKern Kern.clearCalls).kern.lagged = s.kern.lagged :=
    lagged_congr rfl rfl (fun _ => rfl)
  have hissues' : (s.onKern Kern.clearCalls).kern.Issues e := by cases e <;> exact hissues
  have hwrap' : NoWrap last (s.onKern Kern.clearCalls).kern e := by cases e <;> exact hwrap
  have hadvances := hops.perform hcleared (inserts_clearCalls s.kern) hissues' hwrap'
  exact ⟨hadvances.orderly,hlagged ▸ hadvances.step,hadvances.inTime⟩

end SchedExtOps

/-! ## Runs -/

section Runs
variable {S E C : Type} (step : S → E → Option S) (kern : S → Kern C) (P : S → E → Prop) (s₀ : S)

/-- In every run of steps that meet `P`: the clock never goes back, insertions into the shared
queue are in time, and once the clock is the lag limit past the virtual time of a waiting
task, nothing inserted from then on is ordered ahead of it. -/
structure BoundedOvertaking : Prop where
  clock_le : ∀ es s e t, run step s₀ es = some s → Along step P s₀ es → P s e → step s e = some t →
    (kern s).globalVtime ≤ (kern t).globalVtime
  inTime : ∀ es s, run step s₀ es = some s → Along step P s₀ es →
    ∀ i ∈ (kern s).inserts, i.dsq = .shared → i.InTime
  not_ahead : ∀ es s fs t, run step s₀ es = some s → Along step P s₀ es → Along step P s fs →
    run step s fs = some t → ∀ v, ∀ d ∈ (kern s).sharedDsq.entries, ((kern t).task d.2).dsqVtime = v →
      v.toNat + lagLimit.toNat ≤ (kern s).globalVtime.toNat →
      ∀ e ∈ (kern t).sharedDsq.entries, (kern s).sharedDsq.seq < e.1 →
        ¬StampedQueue.Ahead (fun p => ((kern t).task p).dsqVtime.toNat) e d

/-- What runs maintain: an orderly kernel whose last callback inserted in time. -/
structure Kern.Punctual (k : Kern C) : Prop where
  orderly : k.Orderly
  inTime : ∀ i ∈ k.inserts, i.dsq = .shared → i.InTime

variable {step kern P s₀}

/-- The rule: it is enough that every step from an orderly state advances, unless it leaves
the kernel alone. -/
theorem boundedOvertaking_of_advances (h₀ : (kern s₀).Punctual)
    (h : ∀ s e t, (kern s).Orderly → P s e → step s e = some t →
      kern t = kern s ∨ (kern s).Advances (kern t)) : BoundedOvertaking step kern P s₀ := by
  have hkeeps : ∀ s e t, (kern s).Punctual → P s e → step s e = some t → (kern t).Punctual := by
    intro s e t hs hP ht
    rcases h s e t hs.orderly hP ht with hsame | hadvances
    · exact hsame ▸ hs
    · exact ⟨hadvances.orderly,hadvances.inTime⟩
  have hstep : ∀ s e t, (kern s).Punctual → P s e → step s e = some t →
      LaggedQueue.Step lagLimit.toNat (kern s).lagged (kern t).lagged := by
    intro s e t hs hP ht
    rcases h s e t hs.orderly hP ht with hsame | hadvances
    · exact hsame ▸ LaggedQueue.Step.refl _ _
    · exact hadvances.step
  have hpunctual : ∀ es s, run step s₀ es = some s → Along step P s₀ es → (kern s).Punctual := by
    intro es s hr hP
    exact always_iff_visited.mp (always_of_along (P := fun s => (kern s).Punctual) hkeeps h₀ hP) es s
      List.prefix_rfl hr
  refine ⟨fun es s e t hr hP he ht => ?_,fun es s hr hP => (hpunctual es s hr hP).inTime,
    fun es s fs t hr hP hPfs hrfs v d hd hv hlag e he hnew => ?_⟩
  · exact UInt64.le_iff_toNat_le.mpr (hstep s e t (hpunctual es s hr hP) he ht).clock_le
  · exact LaggedQueue.no_overtaking (fun s => (kern s).lagged) (I := fun s => (kern s).Punctual) hkeeps hstep
      (hpunctual es s hr hP) hPfs hrfs hd hlag (congrArg UInt64.toNat hv) he hnew

end Runs
end ServerlessSched
