import ServerlessSched.Kernel.Frames

/-! # The CPUs a task may run on

The masks of allowed CPUs and the set of idle CPUs are the kernel's; no callback keeps
them. What a dispatch owes the waiting tasks under given masks, and which CPU an insertion
has to wake.
-/
namespace ServerlessSched

/-- The masks `cpus_ptr` of all tasks. -/
abbrev CpuMasks := Proc → ℕ → Bool

structure MoveRequest where
  task : Proc
  cpu : ℕ
  moved : Bool
deriving DecidableEq

namespace Kern
variable {C : Type} {mask : CpuMasks} {cpu : ℕ} {k k' : Kern C} {p : Proc}

def moveRequests (k : Kern C) : List MoveRequest :=
  k.calls.filterMap (fun c => match c with | .move p cpu moved => some ⟨p,cpu,moved⟩ | _ => none)

def kickedCpus (k : Kern C) : List ℕ :=
  k.calls.filterMap (fun c => match c with | .kick cpu _ => some cpu | _ => none)

/-- The first task in queue order that may run on the CPU. -/
def nextAllowed (mask : CpuMasks) (cpu : ℕ) (k : Kern C) : Option Proc :=
  k.sharedOrder.find? (fun p => mask p cpu)

/-- From `k` to `k'` the kernel was asked for nothing a mask forbids, the next allowed task
went to the CPU, and the others wait on in their order. A request outside the mask of its
task makes the kernel abort the scheduler. -/
structure RespectsAffinity (mask : CpuMasks) (cpu : ℕ) (k k' : Kern C) : Prop where
  asked : ∃ asked, k'.moveRequests = k.moveRequests ++ asked ∧ (∀ m ∈ asked, mask m.task m.cpu = true) ∧
    asked.filter MoveRequest.moved = (k.nextAllowed mask cpu).toList.map (fun p => ⟨p,cpu,true⟩)
  rest : k'.sharedOrder = k.sharedOrder.filter (fun p => k.nextAllowed mask cpu ≠ some p)

/-! ## The queue in the order of the loop -/

theorem mem_sharedOrder : p ∈ k.sharedOrder ↔ p ∈ k.sharedDsq.waiting := by
  simp [sharedOrder,StampedQueue.mem_waiting,StampedQueue.mem_order]

theorem sharedOrder_ne_nil : k.sharedOrder ≠ [] ↔ k.sharedDsq.entries ≠ [] := by
  unfold sharedOrder StampedQueue.order
  rw [ne_eq,ne_eq,List.map_eq_nil_iff,← List.length_eq_zero_iff,List.length_insertionSort,
    List.length_eq_zero_iff]

theorem sharedOrder_congr (hdsq : k'.sharedDsq = k.sharedDsq)
    (hvtime : ∀ q ∈ k.sharedDsq.waiting, (k'.task q).dsqVtime = (k.task q).dsqVtime) :
    k'.sharedOrder = k.sharedOrder := by
  unfold sharedOrder
  rw [hdsq]
  apply congrArg (List.map Prod.snd)
  apply StampedQueue.order_congr
  exact fun e he => congrArg UInt64.toNat (hvtime e.2 (List.mem_map_of_mem he))

theorem sharedOrder_erase (hdsq : k'.sharedDsq = k.sharedDsq.erase p)
    (hvtime : ∀ q, (k'.task q).dsqVtime = (k.task q).dsqVtime) :
    k'.sharedOrder = k.sharedOrder.filter (fun q => q ≠ p) := by
  unfold sharedOrder
  rw [hdsq,funext (fun q => congrArg UInt64.toNat (hvtime q)),StampedQueue.order_erase,List.filter_map]
  rfl

/-- No allowed task waits with a lower virtual time. -/
theorem nextAllowed_eq_some (h : k.nextAllowed mask cpu = some p) :
    mask p cpu = true ∧ p ∈ k.sharedDsq.waiting ∧
      ∀ q ∈ k.sharedDsq.waiting, mask q cpu = true → (k.task p).dsqVtime ≤ (k.task q).dsqVtime := by
  obtain ⟨hp,before,after,horder,hbefore⟩ := List.find?_eq_some_iff_append.mp h
  have hsorted : k.sharedOrder.Pairwise (fun a b => (k.task a).dsqVtime ≤ (k.task b).dsqVtime) :=
    List.pairwise_map.mpr ((StampedQueue.order_pairwise _ k.sharedDsq).imp (fun h => h.le))
  refine ⟨hp,mem_sharedOrder.mp (List.mem_of_find?_eq_some h),fun q hq hmask => ?_⟩
  have hmem := mem_sharedOrder.mpr hq
  rw [horder] at hmem hsorted
  rcases List.mem_append.mp hmem with hmem | hmem
  · exact absurd hmask (by simpa using hbefore q hmem)
  · rcases List.mem_cons.mp hmem with rfl | hmem
    · exact UInt64.le_refl _
    · exact (List.pairwise_cons.mp (List.pairwise_append.mp hsorted).2.1).1 q hmem

theorem nextAllowed_eq_none :
    k.nextAllowed mask cpu = none ↔ ∀ q ∈ k.sharedDsq.waiting, mask q cpu = false := by
  simp [nextAllowed,mem_sharedOrder]

/-! ## The loop -/

/-- What the loop asks of the kernel: every task up to the first one that moves. -/
def scanRequests (cpu : ℕ) (moves : Proc → Bool) : List Proc → List MoveRequest
  | [] => []
  | p :: ps => ⟨p,cpu,moves p⟩ :: if moves p then [] else scanRequests cpu moves ps

@[simp] theorem moveRequests_modify (f : TaskStruct C → TaskStruct C) :
    (k.modify p f).moveRequests = k.moveRequests := rfl

theorem moveRequests_advanceClock (v : UInt64) : (k.advanceClock v).moveRequests = k.moveRequests := by
  unfold advanceClock
  split <;> rfl

theorem advanceClock_sharedDsq (v : UInt64) : (k.advanceClock v).sharedDsq = k.sharedDsq := by
  unfold advanceClock
  split <;> rfl

theorem moveRequests_scxBpfDsqMove (k : Kern C) (p : Proc) (cpu : ℕ) (moved : Bool) :
    (k.scxBpfDsqMove p cpu moved).moveRequests = k.moveRequests ++ [⟨p,cpu,moved⟩] := by
  cases moved <;> simp [scxBpfDsqMove,moveRequests]

theorem scxBpfDsqMove_sharedDsq (k : Kern C) (p : Proc) (cpu : ℕ) (moved : Bool) :
    (k.scxBpfDsqMove p cpu moved).sharedDsq = if moved then k.sharedDsq.erase p else k.sharedDsq := by
  cases moved <;> rfl

theorem moveRequests_scanSharedDsq (cpu : ℕ) (moves : Proc → Bool) (ps : List Proc) (k : Kern C) :
    (scanSharedDsq cpu moves ps k).moveRequests = k.moveRequests ++ scanRequests cpu moves ps := by
  induction ps generalizing k with
  | nil => exact (List.append_nil _).symm
  | cons p ps ih =>
    rw [scanSharedDsq,scanRequests]
    cases moves p with
    | true => simp [moveRequests_scxBpfDsqMove,moveRequests_advanceClock]
    | false => simp [ih,moveRequests_scxBpfDsqMove,moveRequests_advanceClock]

theorem scanSharedDsq_sharedDsq (cpu : ℕ) (moves : Proc → Bool) (ps : List Proc) (k : Kern C) :
    (scanSharedDsq cpu moves ps k).sharedDsq = (ps.find? moves).elim k.sharedDsq k.sharedDsq.erase := by
  induction ps generalizing k with
  | nil => rfl
  | cons p ps ih =>
    rw [scanSharedDsq]
    cases hp : moves p with
    | true => simp [hp,scxBpfDsqMove_sharedDsq,advanceClock_sharedDsq]
    | false => simp [hp,ih,scxBpfDsqMove_sharedDsq,advanceClock_sharedDsq]

theorem scanSharedDsq_vtime (cpu : ℕ) (moves : Proc → Bool) (ps : List Proc) (k : Kern C) (q : Proc) :
    ((scanSharedDsq cpu moves ps k).task q).dsqVtime = (k.task q).dsqVtime :=
  Same.task (scanSharedDsq_same (fun _ _ => rfl) cpu moves ps k) q

/-- The task at the head of the queue is asked for first, whatever its mask says. -/
theorem head_allowed {moves : Proc → Bool}
    (h : RespectsAffinity mask cpu k (scanSharedDsq cpu moves k.sharedOrder k)) :
    ∀ p ∈ k.sharedOrder.head?, mask p cpu = true := by
  intro p hp
  obtain ⟨ps,hps⟩ := List.head?_eq_some_iff.mp hp
  obtain ⟨asked,hasked,hmask,-⟩ := h.asked
  rw [moveRequests_scanSharedDsq] at hasked
  have hfirst : asked = scanRequests cpu moves k.sharedOrder := (List.append_cancel_left hasked).symm
  apply hmask ⟨p,cpu,moves p⟩
  rw [hfirst,hps,scanRequests]
  exact List.mem_cons_self

/-- Under a kernel that moves what a mask allows, the loop is right exactly when the head of
the queue may run on the CPU. -/
theorem respectsAffinity_scan_iff {moves : Proc → Bool}
    (hmoves : ∀ p ∈ k.sharedOrder, mask p cpu = true → moves p = true) :
    RespectsAffinity mask cpu k (scanSharedDsq cpu moves k.sharedOrder k) ↔
      ∀ p ∈ k.sharedOrder.head?, mask p cpu = true := by
  refine ⟨head_allowed,fun hhead => ?_⟩
  have hvtime := scanSharedDsq_vtime cpu moves k.sharedOrder k
  have hdsq := scanSharedDsq_sharedDsq cpu moves k.sharedOrder k
  cases horder : k.sharedOrder with
  | nil =>
    have hnext : k.nextAllowed mask cpu = none := by rw [nextAllowed,horder,List.find?_nil]
    refine ⟨⟨[],by rw [moveRequests_scanSharedDsq]; rfl,fun _ hm => (List.not_mem_nil hm).elim,?_⟩,?_⟩
    · simp [hnext]
    · rw [horder] at hdsq hvtime
      rw [sharedOrder_congr hdsq (fun q _ => hvtime q),horder]
      rfl
  | cons p ps =>
    have hp : mask p cpu = true := hhead p (by rw [horder]; rfl)
    have hmoved : moves p = true := hmoves p (by rw [horder]; exact List.mem_cons_self) hp
    have hnext : k.nextAllowed mask cpu = some p := by simp [nextAllowed,horder,hp]
    rw [horder] at hdsq hvtime
    rw [List.find?_cons_of_pos hmoved] at hdsq
    refine ⟨⟨[⟨p,cpu,true⟩],?_,?_,?_⟩,?_⟩
    · simp [moveRequests_scanSharedDsq,scanRequests,hmoved]
    · simpa using hp
    · simp [hnext]
    · rw [sharedOrder_erase hdsq hvtime]
      simp [hnext,eq_comm]

/-! ## The wakeup after an insertion -/

/-- An answer `scx_bpf_pick_idle_cpu` can give for a task while these CPUs are idle. -/
def IdlePick (mask : CpuMasks) (idle : ℕ → Bool) (p : Proc) : Option ℕ → Prop
  | some cpu => mask p cpu = true ∧ idle cpu = true
  | none => ∀ cpu, mask p cpu = true → idle cpu = false

def InsertsShared (p : Proc) (k k' : Kern C) : Prop :=
  ∃ i, k'.inserts = k.inserts ++ [i] ∧ i.task = p ∧ i.dsq = .shared

/-- Some CPU that `serves` the shared queue may run the task, and an idle one of them, if
there is any, is the one that is kicked. -/
structure WakesServer (serves : ℕ → Prop) (mask : CpuMasks) (idle : ℕ → Bool) (p : Proc) (k k' : Kern C) :
    Prop where
  served : ∃ cpu, mask p cpu = true ∧ serves cpu
  woken : (∃ cpu, mask p cpu = true ∧ serves cpu ∧ idle cpu = true) →
    ∃ cpu, k'.kickedCpus = k.kickedCpus ++ [cpu] ∧ mask p cpu = true ∧ serves cpu ∧ idle cpu = true

/-- The task may run elsewhere than on CPU 0, and CPU 0 is picked only if it alone is idle. -/
def SparesCpuZero (mask : CpuMasks) (idle : ℕ → Bool) (p : Proc) (idleCpu : Option ℕ) : Prop :=
  (∃ cpu, mask p cpu = true ∧ cpu ≠ 0) ∧
    (idleCpu = some 0 → ∀ cpu, mask p cpu = true → cpu ≠ 0 → idle cpu = false)

theorem kickedCpus_scxBpfDsqInsertVtime (slice v : UInt64) :
    (k.scxBpfDsqInsertVtime p slice v).kickedCpus = k.kickedCpus := by
  simp [scxBpfDsqInsertVtime,kickedCpus]

theorem kickedCpus_kickIdleCpu_some (k : Kern C) (p : Proc) (cpu : ℕ) :
    (k.kickIdleCpu p (some cpu)).kickedCpus = k.kickedCpus ++ [cpu] := by
  simp [kickIdleCpu,scxBpfKickCpu,kickedCpus]

/-- The kernel's pick is kicked unseen, so everything turns on CPU 0. -/
theorem wakesServer_iff {serves : ℕ → Prop} {idle : ℕ → Bool} {idleCpu : Option ℕ}
    (hserves : ∀ cpu, serves cpu ↔ cpu ≠ 0) (hpick : IdlePick mask idle p idleCpu)
    (hkicked : ∀ cpu, idleCpu = some cpu → k'.kickedCpus = k.kickedCpus ++ [cpu]) :
    WakesServer serves mask idle p k k' ↔ SparesCpuZero mask idle p idleCpu := by
  constructor
  · rintro ⟨⟨cpu,hmask,hserved⟩,hwoken⟩
    refine ⟨⟨cpu,hmask,(hserves cpu).mp hserved⟩,fun hzero other hother hne => ?_⟩
    by_contra hidle
    obtain ⟨kicked,hk,-,hk0,-⟩ :=
      hwoken ⟨other,hother,(hserves other).mpr hne,Bool.eq_true_of_not_eq_false hidle⟩
    rw [hkicked 0 hzero] at hk
    have : 0 = kicked := by simpa using hk
    exact (hserves kicked).mp hk0 this.symm
  · rintro ⟨⟨cpu,hmask,hne⟩,hzero⟩
    refine ⟨⟨cpu,hmask,(hserves cpu).mpr hne⟩,?_⟩
    rintro ⟨other,hother,hserved,hidle⟩
    cases idleCpu with
    | none => exact absurd hidle (by simpa using hpick other hother)
    | some picked =>
      refine ⟨picked,hkicked picked rfl,hpick.1,(hserves picked).mpr ?_,hpick.2⟩
      rintro rfl
      have := hzero rfl other hother ((hserves other).mp hserved)
      rw [hidle] at this
      cases this

end Kern

namespace SchedExtOps
variable {C X : Type}

/-- A dispatch on the CPU asks for some task whenever one waits. -/
def Scans (ops : SchedExtOps C X) (cpu : ℕ) : Prop := ∀ env s, s.kern.sharedDsq.entries ≠ [] →
  (ops.dispatch cpu env s).kern.moveRequests ≠ s.kern.moveRequests

end SchedExtOps
end ServerlessSched
