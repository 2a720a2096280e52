import Mathlib.Data.Finset.Card
import ServerlessSched.KernelAssigned.Handover
import ServerlessSched.KernelAssigned.Main

/-! # What the statistics line counts

The BPF component counts the tasks it has enabled and disabled, each modulo `2 ^ 64`. A task
that exits is disabled first, and so the difference that the program prints once a second is the
number of tasks under the scheduler. A task whose storage is refused is not counted; the kernel
disables it like any other, so that the numbers are right only as long as no storage is refused.
-/
namespace ServerlessSched.KernelAssigned
open Kern Runs

/-- The counters move with the tasks that are enabled. -/
def Bss.step (r : Roll) (b : Bss) : KernelEvent → Bss
  | .enable p alloc =>
    if (r p).ctx.isSome ∨ alloc = true then { b with nrEnabled := b.nrEnabled + 1 } else b
  | .disable _ => { b with nrDisabled := b.nrDisabled + 1 }
  | .exit p => if (r p).enabled = true then { b with nrDisabled := b.nrDisabled + 1 } else b
  | _ => b

def pidsStep (pids : PidTable) : KernelEvent → PidTable
  | .spawn p _ _ => pids.add p
  | .exit p => pids.remove p.pid
  | _ => pids

namespace KernelSide
variable {s t : KernelSide} {e : KernelEvent} {p q : Proc}

theorem perform_bss (s : KernelSide) (e : KernelEvent) :
    (serverlessOps.perform s e).bss = s.bss.step s.kern.roll e := by
  cases e with
  | exit p =>
    unfold SchedExtOps.perform Bss.step
    dsimp only
    by_cases henabled : (s.kern.roll p).enabled = true
    · have htask : (s.kern.task p).enabled = true := henabled
      rw [if_pos henabled,if_pos htask]
      rfl
    · have htask : ¬(s.kern.task p).enabled = true := henabled
      rw [if_neg henabled,if_neg htask]
      rfl
  | enable p alloc =>
    unfold SchedExtOps.perform Bss.step
    dsimp only
    rcases enable_cases p alloc s with ⟨hnone,halloc,hres⟩ | ⟨hok,hres⟩
    · have hfails : (serverlessOps.enable p alloc s).2 < 0 :=
        lt_of_eq_of_lt (congrArg Prod.snd hres) (show -enomem < 0 by decide)
      have hrefused : ¬((s.kern.roll p).ctx.isSome ∨ alloc = true) := by
        simp [Kern.roll,TaskStruct.standing,hnone,halloc]
      rw [if_pos hfails,if_neg hrefused]
      exact congrArg (fun u : KernelSide × ℤ => u.1.bss) hres
    · have hsucceeds : ¬(serverlessOps.enable p alloc s).2 < 0 :=
        not_lt_of_ge (le_of_eq (congrArg Prod.snd hres).symm)
      have hstored : (s.kern.roll p).ctx.isSome ∨ alloc = true := hok
      rw [if_neg hsucceeds,if_pos hstored]
      exact congrArg (fun u : KernelSide × ℤ => u.1.bss) hres
  | _ => rfl

theorem perform_pids (s : KernelSide) (e : KernelEvent) :
    (serverlessOps.perform s e).kern.pids = pidsStep s.kern.pids e := by
  have hsettled : ∀ (force : Bool) (k : Kern TaskCtx), Same TaskStruct.standing s.kern k →
      (k.settle force).pids = s.kern.pids :=
    fun force k h => (h.trans (settle_same (fun _ _ => rfl) force k)).pids
  cases e with
  | exit p =>
    unfold SchedExtOps.perform
    dsimp only
    split <;> rfl
  | enable p alloc =>
    have henable : (serverlessOps.enable p alloc s).1.kern.pids = s.kern.pids := (enable_phase p alloc s).pids
    unfold SchedExtOps.perform
    dsimp only
    split
    case isTrue => exact henable
    case isFalse =>
      have hsettle : Same TaskStruct.cpu (serverlessOps.enable p alloc s).1.kern _ := settle_same (fun _ _ => rfl) true _
      exact hsettle.pids.trans henable
  | selectCpu p cpu isIdle => exact hsettled true _ (selectCpu_same p cpu isIdle s.kern)
  | enqueue p idleCpu =>
    have hphase : Same TaskStruct.standing s.kern (Kern.setPhase p .withheld s.kern) := setPhase_same (fun _ _ => rfl) p _ _
    exact hsettled false _ (hphase.trans (enqueue_same p idleCpu _))
  | dispatch cpu env => exact hsettled false _ (dispatch_same cpu env s.kern)
  | stopping p =>
    have hstop : Same TaskStruct.phase s.kern (stopping p s.kern) := chargeStopping_same (fun _ _ _ _ => rfl) s.kern p
    exact hstop.pids
  | _ => rfl

/-! ## The balance of the counters -/

/-- The enabled tasks are alive, and they are as many as the counters are apart. -/
structure Counted (s : KernelSide) (tasks : Finset Proc) : Prop where
  live : ∀ p ∈ tasks, s.kern.pids.Live p
  enabled : ∀ p, p ∈ tasks ↔ (s.kern.roll p).enabled = true
  balance : s.bss.nrEnabled = s.bss.nrDisabled + UInt64.ofNat tasks.card

theorem counted_start (k : Kern TaskCtx) : Counted (start k) ∅ := by
  refine ⟨fun p hp => absurd hp (Finset.notMem_empty p),fun p => ?_,rfl⟩
  exact iff_of_false (Finset.notMem_empty p) Bool.false_ne_true

variable {tasks : Finset Proc}

theorem Counted.of_quiet (hs : Counted s tasks) (hlive : ∀ q ∈ tasks, s.kern.pids.Live q → t.kern.pids.Live q)
    (henabled : ∀ q, (t.kern.roll q).enabled = (s.kern.roll q).enabled) (hbss : t.bss = s.bss) : Counted t tasks := by
  refine ⟨fun q hq => hlive q hq (hs.live q hq),fun q => ?_,by rw [hbss]; exact hs.balance⟩
  rw [henabled]
  exact hs.enabled q

/-- A task that is enabled is counted once more than before. -/
theorem Counted.insert (hs : Counted s tasks) (hp : (s.kern.roll p).enabled = false) (hlive : s.kern.pids.Live p)
    (hpids : t.kern.pids = s.kern.pids) (hself : (t.kern.roll p).enabled = true)
    (hother : ∀ q, q ≠ p → (t.kern.roll q).enabled = (s.kern.roll q).enabled)
    (hbss : t.bss = { s.bss with nrEnabled := s.bss.nrEnabled + 1 }) : Counted t (Insert.insert p tasks) := by
  have hnew : p ∉ tasks := by
    rw [hs.enabled,hp]
    exact Bool.false_ne_true
  refine ⟨fun q hq => ?_,fun q => ?_,?_⟩
  · rw [hpids]
    rcases Finset.mem_insert.mp hq with rfl | hq
    · exact hlive
    · exact hs.live q hq
  · by_cases hqp : q = p
    · subst hqp
      exact iff_of_true (Finset.mem_insert_self q tasks) hself
    · rw [hother q hqp,Finset.mem_insert,or_iff_right hqp]
      exact hs.enabled q
  · rw [hbss,Finset.card_insert_of_notMem hnew]
    dsimp only
    rw [hs.balance,UInt64.ofNat_add,UInt64.add_assoc]
    rfl

/-- A task that is no longer enabled is counted as disabled. -/
theorem Counted.erase (hs : Counted s tasks) (hp : (s.kern.roll p).enabled = true)
    (hlive : ∀ q, q ≠ p → s.kern.pids.Live q → t.kern.pids.Live q) (hself : (t.kern.roll p).enabled = false)
    (hother : ∀ q, q ≠ p → (t.kern.roll q).enabled = (s.kern.roll q).enabled)
    (hbss : t.bss = { s.bss with nrDisabled := s.bss.nrDisabled + 1 }) : Counted t (tasks.erase p) := by
  have hmem : p ∈ tasks := (hs.enabled p).mpr hp
  refine ⟨fun q hq => ?_,fun q => ?_,?_⟩
  · obtain ⟨hqp,hq⟩ := Finset.mem_erase.mp hq
    exact hlive q hqp (hs.live q hq)
  · by_cases hqp : q = p
    · subst hqp
      refine iff_of_false (Finset.notMem_erase q tasks) ?_
      rw [hself]
      exact Bool.false_ne_true
    · rw [hother q hqp,Finset.mem_erase,and_iff_right hqp]
      exact hs.enabled q
  · have hcard : UInt64.ofNat tasks.card = 1 + UInt64.ofNat (tasks.erase p).card := by
      rw [← Finset.card_erase_add_one hmem,UInt64.ofNat_add,UInt64.add_comm]
      rfl
    rw [hbss]
    dsimp only
    rw [hs.balance,hcard,UInt64.add_assoc]

theorem Counted.step (hs : Counted s tasks) (h : serverlessOps.step s e = some t) : ∃ after, Counted t after := by
  obtain ⟨hissues,rfl⟩ := SchedExtOps.step_eq_some.mp h
  have hroll : (serverlessOps.perform (s.onKern clearCalls) e).kern.roll = Roll.step s.kern.roll e := perform_roll _ e
  have hbss : (serverlessOps.perform (s.onKern clearCalls) e).bss = s.bss.step s.kern.roll e := perform_bss _ e
  have hpids : (serverlessOps.perform (s.onKern clearCalls) e).kern.pids = pidsStep s.kern.pids e := perform_pids _ e
  generalize serverlessOps.perform (s.onKern clearCalls) e = t at hroll hbss hpids ⊢
  have hself : ∀ p c, t.kern.roll = Function.update s.kern.roll p c → t.kern.roll p = c := fun p c hc => by
    rw [hc,Function.update_self]
  have hother : ∀ p c, t.kern.roll = Function.update s.kern.roll p c →
      ∀ q, q ≠ p → (t.kern.roll q).enabled = (s.kern.roll q).enabled := fun p c hc q hq => by
    rw [hc,Function.update_of_ne hq]
  have hkept : ∀ p c, t.kern.roll = Function.update s.kern.roll p c → c.enabled = (s.kern.roll p).enabled →
      ∀ q, (t.kern.roll q).enabled = (s.kern.roll q).enabled := by
    intro p c hc henabled q
    by_cases hq : q = p
    · subst hq
      rw [hself q c hc,henabled]
    · exact hother p c hc q hq
  have halive : t.kern.pids = s.kern.pids → ∀ q ∈ tasks, s.kern.pids.Live q → t.kern.pids.Live q := by
    intro hsame q _ hq
    rw [hsame]
    exact hq
  cases e with
  | spawn p cpu mm =>
    have hfree : s.kern.pids.holder p.pid = none := hissues
    have hne : ∀ q, s.kern.pids.Live q → q.pid ≠ p.pid := by
      intro q hq heq
      have hholder : s.kern.pids.holder q.pid = some q := hq
      rw [heq,hfree] at hholder
      cases hholder
    have hnew : (s.kern.roll p).enabled = false := by
      by_contra henabled
      exact hne p (hs.live p ((hs.enabled p).mpr (Bool.not_eq_false _ ▸ henabled))) rfl
    refine ⟨tasks,hs.of_quiet (fun q _ hq => ?_) (hkept p _ hroll hnew.symm) hbss⟩
    rw [hpids]
    exact (Function.update_of_ne (hne q hq) _ _).trans hq
  | exec p mm => exact ⟨tasks,hs.of_quiet (halive hpids) (hkept p _ hroll rfl) hbss⟩
  | tick p ns => exact ⟨tasks,hs.of_quiet (halive hpids) (hkept p _ hroll rfl) hbss⟩
  | stopping p => exact ⟨tasks,hs.of_quiet (halive hpids) (hkept p _ hroll rfl) hbss⟩
  | exit p =>
    have hlive : ∀ q, q ≠ p → s.kern.pids.Live q → t.kern.pids.Live q := by
      intro q hqp hq
      have hne : q.pid ≠ p.pid := fun heq => hqp (hq.unique hissues heq)
      rw [hpids]
      exact (Function.update_of_ne hne _ _).trans hq
    cases henabled : (s.kern.roll p).enabled with
    | true => exact ⟨_,hs.erase henabled hlive (by rw [hself p _ hroll]) (hother p _ hroll) (hbss.trans (if_pos henabled))⟩
    | false =>
      have hnone : p ∉ tasks := by
        rw [hs.enabled,henabled]
        exact Bool.false_ne_true
      have hunchanged : t.bss = s.bss := hbss.trans (if_neg (by rw [henabled]; exact Bool.false_ne_true))
      exact ⟨tasks,hs.of_quiet (fun q hq => hlive q (ne_of_mem_of_not_mem hq hnone)) (hkept p _ hroll henabled.symm) hunchanged⟩
  | enable p alloc =>
    by_cases hok : (s.kern.roll p).ctx.isSome ∨ alloc = true
    · have hroll' := hroll.trans (if_pos hok)
      exact ⟨_,hs.insert hissues.2 hissues.1 hpids (by rw [hself p _ hroll']) (hother p _ hroll') (hbss.trans (if_pos hok))⟩
    · have hroll' := hroll.trans (if_neg hok)
      exact ⟨tasks,hs.of_quiet (halive hpids) (fun q => by rw [hroll']) (hbss.trans (if_neg hok))⟩
  | disable p =>
    exact ⟨_,hs.erase hissues (fun q _ hq => by rw [hpids]; exact hq) (by rw [hself p _ hroll]) (hother p _ hroll) hbss⟩
  | _ => exact ⟨tasks,hs.of_quiet (halive hpids) (fun q => by rw [hroll]; rfl) hbss⟩

end KernelSide

end ServerlessSched.KernelAssigned
