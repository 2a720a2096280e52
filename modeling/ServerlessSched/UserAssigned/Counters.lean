import ServerlessSched.UserAssigned.DecisionStream
import ServerlessSched.UserAssigned.MainLoop

/-! # The counters of pending work

`update_idle` wakes the daemon for what two counters show: the records in the map and the
tasks on the daemon's list. Only the second one is ever counted.
-/
namespace ServerlessSched.UserAssigned
open Runs

namespace Daemon
variable {pidMax : ℕ} {d d' : Daemon} {pid : ℕ}

/-- The number of listed tasks is the one the daemon keeps. -/
structure Counted (pidMax : ℕ) (d : Daemon) : Prop where
  consistent : d.Consistent
  inRange : ∀ pid ∈ d.dispatchHead, pid < pidMax
  count : d.nrCurrEnqueued = UInt64.ofNat d.dispatchHead.length

theorem counted_start : start.Counted pidMax := ⟨consistent_start,fun _ h => (List.not_mem_nil h).elim,rfl⟩

theorem Counted.length_le (hd : d.Counted pidMax) : d.dispatchHead.length ≤ pidMax := by
  have hsub : d.dispatchHead ⊆ List.range pidMax := fun pid hpid => List.mem_range.mpr (hd.inRange pid hpid)
  have hperm := (hd.consistent.nodup.subperm hsub).length_le
  rwa [List.length_range] at hperm

theorem Counted.append (hd : d.Counted pidMax) (hacc : d.Accepts pidMax pid) {slice : UInt64}
    (hlist : d'.dispatchHead = d.dispatchHead ++ [pid])
    (htasks : d'.tasks = Function.update d.tasks pid ⟨slice,true⟩)
    (hcount : d'.nrCurrEnqueued = d.nrCurrEnqueued + 1) : d'.Counted pidMax := by
  refine ⟨hd.consistent.append hacc.2 hlist htasks,fun n hn => ?_,?_⟩
  · rw [hlist] at hn
    rcases List.mem_append.mp hn with hn | hn
    · exact hd.inRange n hn
    · rw [List.mem_singleton.mp hn]
      exact hacc.1
  · rw [hcount,hd.count,hlist,List.length_append]
    exact (UInt64.ofNat_add _ 1).symm

theorem Counted.tail {rest : List ℕ} (hd : d.Counted pidMax) (hhead : d.dispatchHead = pid :: rest)
    (hlist : d'.dispatchHead = rest)
    (htasks : d'.tasks = Function.update d.tasks pid { d.tasks pid with isQueued := false })
    (hcount : d'.nrCurrEnqueued = d.nrCurrEnqueued - 1) : d'.Counted pidMax := by
  refine ⟨hd.consistent.tail hhead hlist htasks,fun n hn => hd.inRange n ?_,?_⟩
  · rw [hlist] at hn
    rw [hhead]
    exact List.mem_cons_of_mem pid hn
  · rw [hcount,hd.count,hlist,hhead,List.length_cons,UInt64.ofNat_add]
    exact UInt64.add_sub_cancel _ _

theorem Counted.frame (hd : d.Counted pidMax) (hlist : d'.dispatchHead = d.dispatchHead)
    (htasks : d'.tasks = d.tasks) (hcount : d'.nrCurrEnqueued = d.nrCurrEnqueued) : d'.Counted pidMax := by
  refine ⟨⟨?_,?_⟩,?_,?_⟩
  · rw [hlist,htasks]; exact hd.consistent.queued_iff
  · rw [hlist]; exact hd.consistent.nodup
  · rw [hlist]; exact hd.inRange
  · rw [hlist,hcount]; exact hd.count

end Daemon

namespace MainLoop
variable {cfg : LoopConfig} {s t : MainLoop}

/-- Between two completed steps of the main loop, or blocked. -/
def between : LoopPc → Bool
  | .top | .batch 0 | .check | .wait => true
  | .drain | .batch (_ + 1) | .exited => false

def Resting (s : MainLoop) : Prop := (∀ cpu, s.duty cpu = none) ∧ between s.pc = true

/-- The records in the map wait beside an empty list. -/
def Unshown (s : MainLoop) : Prop := s.daemon.dispatchHead = [] ∧ s.link.enqueued.items ≠ []

/-- No callback ends between the daemon's steps, and no batch ends between callbacks, while
records wait that the list does not stand for. -/
def ShownByList (s : MainLoop) : LoopEvent → Prop
  | .setNeeded cpu | .sendWake cpu => (∀ c, c ≠ cpu → s.duty c = none) → between s.pc = true → ¬Unshown s
  | .daemon _ _ => (∃ i, s.pc = .batch i) → (∀ c, s.duty c = none) → ¬Unshown s
  | _ => True

/-- What the counters are in every reachable state: one of them stays at zero. -/
structure Accounted (cfg : LoopConfig) (s : MainLoop) : Prop where
  settled : Settled cfg s
  counted : s.daemon.Counted cfg.pidMax
  queued : s.link.nrUserspaceQueued = 0
  scheduled : between s.pc = true → s.link.nrUserspaceScheduled = UInt64.ofNat s.daemon.dispatchHead.length

theorem accounted_start : Accounted cfg start :=
  ⟨settled_start,Daemon.counted_start,rfl,fun _ => rfl⟩

theorem shownByList_of_pc {pc : LoopPc} {file : Option (List UInt8)} {ok : Bool} (hpc : s.pc = pc)
    (hne : ∀ i, pc ≠ .batch i) : ShownByList s (.daemon file ok) := by
  rintro ⟨i,hi⟩
  exact absurd (hpc.symm.trans hi) (hne i)

theorem not_resting {pc : LoopPc} (hpc : t.pc = pc) (hmoving : between pc = false) : ¬Resting t := by
  rintro ⟨-,hrest⟩
  rw [hpc,hmoving] at hrest
  cases hrest

/-- When the callback on a CPU ends, the machine rests if no other one is in progress. -/
theorem resting_setDuty_iff {l : Link} (cpu : ℕ) (hmap : l.enqueued = s.link.enqueued) :
    (Resting ((s.setLink l).setDuty cpu none) → ¬Unshown ((s.setLink l).setDuty cpu none)) ↔
      ((∀ c, c ≠ cpu → s.duty c = none) → between s.pc = true → ¬Unshown s) := by
  have hrest : Resting ((s.setLink l).setDuty cpu none) ↔
      (∀ c, c ≠ cpu → s.duty c = none) ∧ between s.pc = true := by
    refine and_congr_left' ⟨fun h c hc => ?_,fun h c => ?_⟩
    · have hduty := h c
      simpa [setDuty,setLink,hc] using hduty
    · by_cases hc : c = cpu
      · simp [setDuty,hc]
      · simpa [setDuty,setLink,hc] using h c hc
  have hunshown : Unshown ((s.setLink l).setDuty cpu none) ↔ Unshown s := by
    unfold Unshown
    rw [← hmap]
    rfl
  rw [hrest,hunshown,and_imp]

/-- The daemon counts its list at the end of the drain loop and of the batch loop, and touches
the map in the drain loop alone, which it leaves when the map is empty. -/
theorem Accounted.daemonStep {file : Option (List UInt8)} {ok : Bool} (hs : Accounted cfg s)
    (h : DaemonStepped cfg file ok s t) : Accounted cfg t ∧ ((Resting s → ¬Unshown s) →
      ((Resting t → ¬Unshown t) ↔ ShownByList s (.daemon file ok))) := by
  have hsettled := (hs.settled.daemonStep h).1
  cases h with
  | leave hpc _ =>
    have hshown : ShownByList s (.daemon file ok) := shownByList_of_pc hpc (fun i hi => by cases hi)
    exact ⟨⟨hsettled,hs.counted,hs.queued,fun hmoving => by cases hmoving⟩,
      fun _ => iff_of_true (fun hrest => absurd hrest (not_resting rfl rfl)) hshown⟩
  | look hpc _ =>
    have hshown : ShownByList s (.daemon file ok) := shownByList_of_pc hpc (fun i hi => by cases hi)
    exact ⟨⟨hsettled,hs.counted,hs.queued,fun hmoving => by cases hmoving⟩,
      fun _ => iff_of_true (fun hrest => absurd hrest (not_resting rfl rfl)) hshown⟩
  | drained hpc hempty =>
    have hshown : ShownByList s (.daemon file ok) := shownByList_of_pc hpc (fun i hi => by cases hi)
    exact ⟨⟨hsettled,hs.counted,rfl,fun _ => hs.counted.count⟩,
      fun _ => iff_of_true (fun _ hunshown => hunshown.2 hempty) hshown⟩
  | outOfRange _ hhead hbig => exact absurd (hs.settled.head_lt hhead) (Nat.not_lt.mpr hbig)
  | known hpc _ _ =>
    have hshown : ShownByList s (.daemon file ok) := shownByList_of_pc hpc (fun i hi => by cases hi)
    exact ⟨⟨hsettled,hs.counted,hs.queued,fun hmoving => by cases hmoving⟩,
      fun _ => iff_of_true (fun hrest => absurd hrest (not_resting rfl rfl)) hshown⟩
  | accept hpc _ hacc hlist htasks hcount _ =>
    have hshown : ShownByList s (.daemon file ok) := shownByList_of_pc hpc (fun i hi => by cases hi)
    exact ⟨⟨hsettled,hs.counted.append hacc hlist htasks hcount,hs.queued,fun hmoving => by cases hmoving⟩,
      fun _ => iff_of_true (fun hrest => absurd hrest (not_resting rfl rfl)) hshown⟩
  | batchDone hpc _ =>
    refine ⟨⟨hsettled,hs.counted,hs.queued,fun _ => hs.counted.count⟩,fun _ => ?_⟩
    exact ⟨fun h _ hduty => h ⟨hduty,rfl⟩,fun h hrest => h ⟨_,hpc⟩ hrest.1⟩
  | pushFailed hpc _ =>
    refine ⟨⟨hsettled,hs.counted.frame rfl rfl rfl,hs.queued,fun _ => hs.counted.count⟩,fun _ => ?_⟩
    exact ⟨fun h _ hduty => h ⟨hduty,rfl⟩,fun h hrest => h ⟨_,hpc⟩ hrest.1⟩
  | dispatched _ hhead _ =>
    refine ⟨⟨hsettled,hs.counted.tail hhead rfl rfl rfl,hs.queued,fun hmoving => by cases hmoving⟩,?_⟩
    refine fun _ => iff_of_true (fun hrest => absurd hrest (not_resting rfl rfl)) ?_
    rintro - - ⟨hnil,-⟩
    rw [hhead] at hnil
    cases hnil
  | block hpc hlist =>
    have hshown : ShownByList s (.daemon file ok) := shownByList_of_pc hpc (fun i hi => by cases hi)
    have hrest : between s.pc = true := by rw [hpc]; rfl
    have hcounted : Daemon.Counted cfg.pidMax { s.daemon with nrCurrEnqueued := 0 } :=
      ⟨⟨hs.counted.consistent.queued_iff,hs.counted.consistent.nodup⟩,hs.counted.inRange,by rw [hlist]; rfl⟩
    exact ⟨⟨hsettled,hcounted,hs.queued,fun _ => hs.scheduled hrest⟩,
      fun hseen => iff_of_true (fun h => hseen ⟨h.1,hrest⟩) hshown⟩
  | again hpc _ =>
    have hshown : ShownByList s (.daemon file ok) := shownByList_of_pc hpc (fun i hi => by cases hi)
    have hrest : between s.pc = true := by rw [hpc]; rfl
    exact ⟨⟨hsettled,hs.counted,hs.queued,fun _ => hs.scheduled hrest⟩,
      fun hseen => iff_of_true (fun h => hseen ⟨h.1,hrest⟩) hshown⟩
  | wake hpc _ =>
    have hshown : ShownByList s (.daemon file ok) := shownByList_of_pc hpc (fun i hi => by cases hi)
    have hrest : between s.pc = true := by rw [hpc]; rfl
    exact ⟨⟨hsettled,hs.counted,hs.queued,fun _ => hs.scheduled hrest⟩,
      fun hseen => iff_of_true (fun h => hseen ⟨h.1,hrest⟩) hshown⟩

/-! ## All steps -/

theorem Accounted.frame (hs : Accounted cfg s) (hsettled : Settled cfg t) (hdaemon : t.daemon = s.daemon)
    (hqueued : t.link.nrUserspaceQueued = s.link.nrUserspaceQueued)
    (hscheduled : t.link.nrUserspaceScheduled = s.link.nrUserspaceScheduled)
    (hpc : between t.pc = between s.pc) : Accounted cfg t := by
  refine ⟨hsettled,?_,hqueued.trans hs.queued,fun hrest => ?_⟩
  · rw [hdaemon]; exact hs.counted
  · rw [hscheduled,hdaemon]; exact hs.scheduled (hpc ▸ hrest)

theorem between_of_signal (h : Stepped cfg s .signal t) : between t.pc = between s.pc := by
  cases h
  cases s.pc <;> rfl

theorem Accounted.step {e : LoopEvent} (hs : Accounted cfg s) (he : PidInRange cfg s e)
    (h : Stepped cfg s e t) : Accounted cfg t ∧ ((Resting s → ¬Unshown s) →
      ((Resting t → ¬Unshown t) ↔ ShownByList s e)) := by
  have hsettled := (hs.settled.step he h).1
  cases h with
  | pushFailed _ _ => exact ⟨hs,fun hseen => iff_of_true hseen trivial⟩
  | @push cpu _ _ _ _ =>
    refine ⟨hs.frame hsettled rfl rfl rfl rfl,fun _ => iff_of_true (fun hrest => ?_) trivial⟩
    have hraised := hrest.1 cpu
    simp [setDuty] at hraised
  | setNeeded _ => exact ⟨hs.frame hsettled rfl rfl rfl rfl,fun _ => resting_setDuty_iff _ rfl⟩
  | @clear cpu _ _ =>
    refine ⟨hs.frame hsettled rfl rfl rfl rfl,fun _ => iff_of_true (fun hrest => ?_) trivial⟩
    have hsending := hrest.1 cpu
    simp [setDuty] at hsending
  | testOnly _ _ => exact ⟨hs.frame hsettled rfl rfl rfl rfl,fun hseen => iff_of_true hseen trivial⟩
  | sendWake _ => exact ⟨hs.frame hsettled rfl rfl rfl rfl,fun _ => resting_setDuty_iff _ rfl⟩
  | noDecision _ => exact ⟨hs,fun hseen => iff_of_true hseen trivial⟩
  | popDecision _ => exact ⟨hs.frame hsettled rfl rfl rfl rfl,fun hseen => iff_of_true hseen trivial⟩
  | updateIdle _ => exact ⟨hs.frame hsettled rfl rfl rfl rfl,fun hseen => iff_of_true hseen trivial⟩
  | updateIdleOnly _ => exact ⟨hs,fun hseen => iff_of_true hseen trivial⟩
  | daemon h => exact hs.daemonStep h
  | signal =>
    have hpc := between_of_signal (@Stepped.signal cfg s)
    refine ⟨⟨hsettled,?_,hs.queued,fun hrest => hs.scheduled (hpc ▸ hrest)⟩,
      fun hseen => iff_of_true (fun hrest => hseen ⟨hrest.1,hpc ▸ hrest.2⟩) trivial⟩
    exact ⟨⟨hs.counted.consistent.queued_iff,hs.counted.consistent.nodup⟩,hs.counted.inRange,hs.counted.count⟩

/-! ## All runs -/

end MainLoop
end ServerlessSched.UserAssigned
