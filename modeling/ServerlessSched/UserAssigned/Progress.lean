import ServerlessSched.UserAssigned.Batch
import ServerlessSched.UserAssigned.MainLoop

/-! # Batches and progress

With nothing new to do, the main loop hands over what it lists and blocks, unless the option
`-b` was read as zero: then it goes round without moving a task.
-/
namespace ServerlessSched.UserAssigned
open Runs

/-- `batch_size` after `-b optarg`. -/
def batchSizeOption (optarg : List UInt8) : UInt32 := (CString.strtoul optarg).toUInt32

namespace LoopEvent

def isDaemon : LoopEvent → Bool
  | .daemon _ _ => true
  | _ => false

def isPush : LoopEvent → Bool
  | .push _ _ => true
  | _ => false

end LoopEvent

namespace MainLoop
variable {cfg : LoopConfig} {s t : MainLoop} {file : Option (List UInt8)} {ok : Bool}

theorem daemonStep_enabled (file : Option (List UInt8)) (ok : Bool) (hwait : s.pc ≠ .wait)
    (hexited : s.pc ≠ .exited) : ∃ t, s.daemonStep cfg file ok = some t := by
  unfold daemonStep
  cases hpc : s.pc with
  | top => exact ⟨_,rfl⟩
  | drain =>
    dsimp only
    rcases s.user.drainRound cfg.pidMax file with ⟨u,goesOn⟩
    cases goesOn <;> exact ⟨_,rfl⟩
  | batch i =>
    dsimp only
    rcases s.user.dispatchRound ok with ⟨u,goesOn⟩
    split
    · cases goesOn <;> exact ⟨_,rfl⟩
    · exact ⟨_,rfl⟩
  | check =>
    dsimp only
    split <;> exact ⟨_,rfl⟩
  | wait => exact absurd hpc hwait
  | exited => exact absurd hpc hexited

/-! ## Towards the empty list -/

/-- No records arrive, no signal comes, and the map of decisions has room when it is used. -/
def Unhindered (s : MainLoop) : LoopEvent → Prop
  | .push _ _ | .signal => False
  | .daemon _ ok => (∃ i, s.pc = .batch i) → ok = true ∧ s.link.dispatched.HasRoom
  | _ => True

structure Emptying (cfg : LoopConfig) (s : MainLoop) : Prop where
  settled : Settled cfg s
  running : s.daemon.exitReq = false
  inLoop : s.pc ≠ .exited

/-- Bounds the steps of the daemon until it blocks: a task handed over pays for an iteration. -/
def rank (s : MainLoop) : ℕ :=
  match s.pc with
  | .top => 5 * s.daemon.dispatchHead.length + 6 * s.link.enqueued.items.length + 4
  | .drain => 5 * s.daemon.dispatchHead.length + 6 * s.link.enqueued.items.length + 3
  | .batch 0 => 5 * s.daemon.dispatchHead.length + 6 * s.link.enqueued.items.length + 2
  | .batch (_ + 1) => 5 * s.daemon.dispatchHead.length + 6 * s.link.enqueued.items.length + 6
  | .check =>
    if s.daemon.dispatchHead = [] then 6 * s.link.enqueued.items.length + 1
    else 5 * s.daemon.dispatchHead.length + 6 * s.link.enqueued.items.length + 5
  | .wait | .exited => 0

theorem rank_batch_ge (i : ℕ) (hpc : s.pc = .batch i) :
    5 * s.daemon.dispatchHead.length + 6 * s.link.enqueued.items.length + 2 ≤ rank s := by
  unfold rank
  rw [hpc]
  cases i with
  | zero => simp
  | succ i => simp

theorem Emptying.daemonStep (hb : cfg.batchSize ≠ 0) (hs : Emptying cfg s)
    (hroom : Unhindered s (.daemon file ok)) (h : DaemonStepped cfg file ok s t) :
    Emptying cfg t ∧ (s.pc ≠ .wait → rank t + 1 ≤ rank s) := by
  have hsettled := (hs.settled.daemonStep h).1
  cases h with
  | leave _ hexit => rw [hs.running] at hexit; cases hexit
  | look hpc _ =>
    refine ⟨⟨hsettled,hs.running,by simp⟩,fun _ => ?_⟩
    simp [rank,hpc,daemon,link]
  | drained hpc _ =>
    refine ⟨⟨hsettled,hs.running,by simp⟩,fun _ => ?_⟩
    simp [rank,hpc,daemon,link]
  | outOfRange _ hhead hbig => exact absurd (hs.settled.head_lt hhead) (Nat.not_lt.mpr hbig)
  | known hpc hhead _ =>
    refine ⟨⟨hsettled,hs.running,by simp⟩,fun _ => ?_⟩
    have hlen := congrArg List.length hhead
    simp only [rank,hpc,daemon,link,List.length_cons] at hlen ⊢
    omega
  | accept hpc hhead _ hlist _ _ hexit =>
    refine ⟨⟨hsettled,hexit.trans hs.running,by simp⟩,fun _ => ?_⟩
    have hlen := congrArg List.length hhead
    have hlist := congrArg List.length hlist
    simp only [rank,hpc,daemon,link,List.length_cons,List.length_append,List.length_nil] at hlen hlist ⊢
    omega
  | @batchDone i hpc hdone =>
    refine ⟨⟨hsettled,hs.running,by simp⟩,fun _ => ?_⟩
    by_cases hnil : s.daemon.dispatchHead = []
    · have hrank := rank_batch_ge i hpc
      simp only [rank,daemon,link,UserSide.endBatch] at hrank hnil ⊢
      simp only [hnil,if_true] at hrank ⊢
      omega
    · -- the batch is over, and it was not the empty one
      cases i with
      | zero =>
        refine absurd (hdone (Nat.pos_of_ne_zero fun h => hb ?_)) hnil
        exact UInt32.toNat_inj.mp h
      | succ i =>
        simp only [daemon] at hnil
        simp [rank,hpc,daemon,link,UserSide.endBatch,hnil]
  | pushFailed hpc hfailed =>
    obtain ⟨hok,hroom⟩ := hroom ⟨_,hpc⟩
    rcases hfailed with hfailed | hfull
    · rw [hok] at hfailed; cases hfailed
    · exact absurd hroom hfull
  | @dispatched i _ _ _ hpc hhead _ =>
    refine ⟨⟨hsettled,hs.running,by simp⟩,fun _ => ?_⟩
    have hrank := rank_batch_ge i hpc
    have hlen := congrArg List.length hhead
    generalize hold : rank s = old at hrank ⊢
    simp only [rank,daemon,link,List.length_cons] at hrank hlen ⊢
    omega
  | block hpc hlist =>
    refine ⟨⟨hsettled,hs.running,by simp⟩,fun _ => ?_⟩
    simp [rank,hpc,hlist]
  | again hpc hlist =>
    refine ⟨⟨hsettled,hs.running,by simp⟩,fun _ => ?_⟩
    simp only [daemon] at hlist
    simp [rank,hpc,hlist,daemon,link]
  | wake hpc _ =>
    refine ⟨⟨hsettled,hs.running,by simp⟩,fun hwait => absurd hpc hwait⟩

/-- The callbacks that run do not change what the bound is made of. -/
theorem Emptying.step {e : LoopEvent} (hb : cfg.batchSize ≠ 0) (hs : Emptying cfg s)
    (he : Unhindered s e) (h : step cfg s e = some t) : Emptying cfg t ∧
      (s.pc ≠ .wait → rank t + (if e.isDaemon then 1 else 0) ≤ rank s + if false then 1 else 0) := by
  have hrange : PidInRange cfg s e := by
    cases e with
    | push _ _ => exact he.elim
    | _ => trivial
  have hsettled := (hs.settled.step hrange (step_stepped h)).1
  cases step_stepped h with
  | pushFailed _ _ => exact he.elim
  | push _ _ => exact he.elim
  | signal => exact he.elim
  | daemon hd => simpa [LoopEvent.isDaemon] using hs.daemonStep hb he hd
  | noDecision _ => exact ⟨hs,fun _ => le_rfl⟩
  | updateIdleOnly _ => exact ⟨hs,fun _ => le_rfl⟩
  | _ => exact ⟨⟨hsettled,hs.running,hs.inLoop⟩,fun _ => le_rfl⟩

/-- From an iteration on, the daemon can always go on until it blocks, and after a bounded
number of its steps it has blocked with an empty list. -/
structure ComesToRest (cfg : LoopConfig) (s : MainLoop) : Prop where
  enabled : ∀ es t, run (step cfg) s es = some t → Along (step cfg) Unhindered s es → t.pc ≠ .wait →
    ∀ file ok, ∃ u, t.daemonStep cfg file ok = some u
  bounded : ∃ steps, ∀ es t, run (step cfg) s es = some t → Along (step cfg) Unhindered s es →
    steps ≤ es.countP LoopEvent.isDaemon →
    ∃ fs u, fs <+: es ∧ run (step cfg) s fs = some u ∧ u.pc = .wait ∧ u.daemon.dispatchHead = []

/-- Whatever the daemon lists at the head of its loop, it comes to rest. -/
def Progresses (cfg : LoopConfig) : Prop :=
  ∀ s, s.pc = .top → s.daemon.exitReq = false → (∀ pid ∈ s.link.enqueued.items, pid < cfg.pidMax) →
    ComesToRest cfg s

theorem progresses_of_batchSize (hb : cfg.batchSize ≠ 0) : Progresses cfg := by
  intro s hpc hexit hpids
  have hs : Emptying cfg s := by
    refine ⟨⟨hpids,fun hwait => ?_⟩,hexit,by simp [hpc]⟩
    rw [hpc] at hwait
    cases hwait
  have hkept : ∀ es t, run (step cfg) s es = some t → Along (step cfg) Unhindered s es → Emptying cfg t := by
    intro es t hr halong
    have hall := always_of_along (fun s e t hs he h => (Emptying.step hb hs he h).1) hs halong
    exact always_iff_visited.mp hall es t List.prefix_rfl hr
  refine ⟨fun es t hr halong hwait file ok => ?_,rank s,fun es t hr halong hsteps => ?_⟩
  · exact daemonStep_enabled file ok hwait (hkept es t hr halong).inLoop
  · by_contra hnever
    have hawake : Along (step cfg) (fun u _ => u.pc ≠ .wait) s es := by
      refine along_iff_taken.mpr fun fs e u v hfs hr' hv hwait => hnever ?_
      have hpart : fs <+: es := (List.prefix_append fs [e]).trans hfs
      have halong' : Along (step cfg) Unhindered s fs :=
        along_iff_taken.mpr fun gs e' u v hgs => along_iff_taken.mp halong gs e' u v (hgs.trans hpart)
      exact ⟨fs,u,hpart,hr',hwait,(hkept fs u hr' halong').settled.listEmpty hwait⟩
    obtain ⟨ht,hpaid⟩ := run_potential (m := rank) (p := LoopEvent.isDaemon) (q := fun _ => false)
      (fun s e t hs he h => by
        obtain ⟨ht,hrank⟩ := Emptying.step hb hs he.1 h
        exact ⟨ht,hrank he.2⟩) hs (halong.and hawake) hr
    have hzero : rank t = 0 := by
      have hnone : es.countP (fun _ => false) = 0 := List.countP_eq_zero.mpr (by simp)
      omega
    have hwait : t.pc = .wait := by
      unfold rank at hzero
      cases htpc : t.pc with
      | wait => rfl
      | exited => exact absurd htpc ht.inLoop
      | batch i => cases i <;> simp [htpc] at hzero
      | check =>
        simp only [htpc] at hzero
        split at hzero <;> omega
      | _ => simp [htpc] at hzero
    exact hnever ⟨es,t,List.prefix_rfl,hr,hwait,ht.settled.listEmpty hwait⟩

/-! ## The batch of size zero -/

/-- A daemon with a task to hand over, nothing else to do, and every opportunity to do it. -/
structure Spinning (s : MainLoop) : Prop where
  listed : s.daemon.dispatchHead ≠ []
  running : s.daemon.exitReq = false
  noRecords : s.link.enqueued.items = []
  room : s.link.dispatched.HasRoom
  awake : s.pc = .top ∨ s.pc = .drain ∨ (∃ i, s.pc = .batch i) ∨ s.pc = .check

theorem Spinning.step (hb : cfg.batchSize = 0) (hs : Spinning s) :
    ∃ t, MainLoop.step cfg s (.daemon none true) = some t ∧ Spinning t := by
  have hbatch : ∀ i, ¬i < cfg.batchSize.toNat := by simp [hb]
  simp only [MainLoop.step,MainLoop.daemonStep]
  rcases hs.awake with hpc | hpc | ⟨i,hpc⟩ | hpc
  · rw [hpc,hs.running]
    exact ⟨_,rfl,hs.listed,hs.running,hs.noRecords,hs.room,Or.inr (Or.inl rfl)⟩
  · have hpop : s.user.link.enqueued.pop = none := BoundedQueue.pop_eq_none.mpr hs.noRecords
    rw [hpc,UserSide.drainRound,hpop]
    exact ⟨_,rfl,hs.listed,hs.running,hs.noRecords,hs.room,Or.inr (Or.inr (Or.inl ⟨0,rfl⟩))⟩
  · simp only [hpc]
    rw [if_neg (hbatch i)]
    exact ⟨_,rfl,hs.listed,hs.running,hs.noRecords,hs.room,Or.inr (Or.inr (Or.inr rfl))⟩
  · simp only [hpc]
    rw [if_neg hs.listed]
    exact ⟨_,rfl,hs.listed,hs.running,hs.noRecords,hs.room,Or.inl rfl⟩

theorem Spinning.run (hb : cfg.batchSize = 0) (hs : Spinning s) (steps : ℕ) :
    (∃ t, run (MainLoop.step cfg) s (List.replicate steps (.daemon none true)) = some t ∧ Spinning t) ∧
      Along (MainLoop.step cfg) Unhindered s (List.replicate steps (.daemon none true)) ∧
      Always (MainLoop.step cfg) Spinning s (List.replicate steps (.daemon none true)) := by
  induction steps generalizing s with
  | zero => exact ⟨⟨s,rfl,hs⟩,trivial,hs⟩
  | succ steps ih =>
    obtain ⟨t,ht,hspin⟩ := hs.step hb
    obtain ⟨⟨u,hu,hlast⟩,halong,halways⟩ := ih hspin
    rw [List.replicate_succ]
    refine ⟨⟨u,?_,hlast⟩,Along.cons ht (fun _ => ⟨rfl,hs.room⟩) halong,hs,fun v hv => ?_⟩
    · rw [run_cons_of_step ht]
      exact hu
    · cases ht.symm.trans hv
      exact halways

theorem Spinning.not_comesToRest (hb : cfg.batchSize = 0) (hs : Spinning s) : ¬ComesToRest cfg s := by
  intro h
  obtain ⟨steps,hsteps⟩ := h.bounded
  obtain ⟨⟨t,ht,-⟩,halong,halways⟩ := hs.run hb steps
  obtain ⟨fs,u,hfs,hu,hwait,-⟩ := hsteps _ t ht halong (by simp [List.countP_replicate,LoopEvent.isDaemon])
  have hspin := (always_iff_visited.mp halways fs u hfs hu).awake
  simp [hwait] at hspin

/-- PID 0 is listed, and nothing else is. -/
def onlyZeroListed : MainLoop where
  user := ⟨.start,{ Daemon.start with
    tasks := Function.update Daemon.start.tasks 0 ⟨0,true⟩
    dispatchHead := [0]
    nrKernelToUserEnqueues := 1
    nrCurrEnqueued := 1 }⟩
  pc := .top
  duty _ := none

theorem spinning_onlyZeroListed : Spinning onlyZeroListed :=
  ⟨List.cons_ne_nil 0 [],rfl,rfl,by decide,Or.inl rfl⟩

end MainLoop

/-! ## Iterations as calls -/

/-- Drain and batch shorten every list that is not empty. -/
def Shortens (batchSize : UInt32) : Prop :=
  ∀ (pidMax : ℕ) (files : ℕ → Option (List UInt8)) (rounds : ℕ) (s : UserSide),
    s.link.enqueued.items = [] → s.link.dispatched.HasRoom → s.daemon.dispatchHead ≠ [] →
    ((s.drainEnqueuedMap pidMax files (rounds + 1)).dispatchBatch batchSize
      fun _ => true).daemon.dispatchHead.length < s.daemon.dispatchHead.length

theorem drainEnqueuedMap_of_empty (pidMax : ℕ) (files : ℕ → Option (List UInt8)) (rounds : ℕ) {s : UserSide}
    (hempty : s.link.enqueued.items = []) : s.drainEnqueuedMap pidMax files (rounds + 1) =
      ⟨{ s.link with
        nrUserspaceQueued := 0
        nrUserspaceScheduled := s.daemon.nrCurrEnqueued },s.daemon⟩ := by
  unfold UserSide.drainEnqueuedMap UserSide.drainRound
  rw [BoundedQueue.pop_eq_none.mpr hempty]

theorem shortens_iff (batchSize : UInt32) : Shortens batchSize ↔ batchSize ≠ 0 := by
  constructor
  · rintro h rfl
    have hshort := h 1 (fun _ => none) 0 MainLoop.onlyZeroListed.user rfl (by decide) (List.cons_ne_nil 0 [])
    rw [drainEnqueuedMap_of_empty 1 _ 0 rfl] at hshort
    exact absurd hshort (Nat.lt_irrefl 1)
  · intro hb pidMax files rounds s hempty hroom hlist
    rw [drainEnqueuedMap_of_empty pidMax files rounds hempty]
    generalize hdrained : (⟨{ s.link with
        nrUserspaceQueued := 0
        nrUserspaceScheduled := s.daemon.nrCurrEnqueued },s.daemon⟩ : UserSide) = u
    have hlisted : u.daemon.dispatchHead = s.daemon.dispatchHead := by rw [← hdrained]
    have hmap : u.link.dispatched = s.link.dispatched := by rw [← hdrained]
    rw [(UserSide.dispatchBatch_transferred batchSize u).1.list,List.length_drop,hlisted]
    have hpos : 0 < batchSize.toNat := Nat.pos_of_ne_zero fun h => hb (UInt32.toNat_inj.mp h)
    have hlen : 0 < s.daemon.dispatchHead.length := List.length_pos_iff.mpr hlist
    unfold UserSide.moved UserSide.capacity
    unfold BoundedQueue.HasRoom at hroom
    rw [hlisted,hmap]
    omega

/-- The option string decides: the loop makes progress unless the number in it saturates no
`unsigned long` and is a multiple of 2 ^ 32. -/
theorem batchSizeOption_progress (pidMax : ℕ) (optarg : List UInt8) :
    (MainLoop.Progresses ⟨pidMax,batchSizeOption optarg⟩ ∧ Shortens (batchSizeOption optarg) ↔
      2 ^ 64 ≤ CString.magnitude optarg ∨ ¬2 ^ 32 ∣ CString.magnitude optarg) ∧
    (MainLoop.Progresses ⟨pidMax,batchSizeOption optarg⟩ ↔ Shortens (batchSizeOption optarg)) := by
  have hzero := CString.strtoul_toUInt32_eq_zero_iff optarg
  have hprogress : MainLoop.Progresses ⟨pidMax,batchSizeOption optarg⟩ ↔ batchSizeOption optarg ≠ 0 := by
    refine ⟨fun h hb => ?_,fun hb => MainLoop.progresses_of_batchSize hb⟩
    exact MainLoop.spinning_onlyZeroListed.not_comesToRest hb
      (h MainLoop.onlyZeroListed rfl rfl fun pid hpid => absurd hpid List.not_mem_nil)
  have hshort := shortens_iff (batchSizeOption optarg)
  refine ⟨?_,hprogress.trans hshort.symm⟩
  rw [hprogress,hshort,and_self,← Nat.not_lt,← not_and_or]
  exact not_congr hzero

/-- `-b 0`, `-b abc` and `-b 4294967296` are all accepted; with PID 7 listed the daemon then
goes round for ever. -/
theorem batchSizeOption_stuck :
    batchSizeOption [48] = 0 ∧ batchSizeOption [97,98,99] = 0 ∧
    batchSizeOption [52,50,57,52,57,54,55,50,57,54] = 0 ∧
    ∃ s, run (MainLoop.step ⟨32768,batchSizeOption [48]⟩) MainLoop.start
        [.daemon none true,.push 0 7,.daemon none true,.daemon none true,.daemon none true,.daemon none true] = some s ∧
      s.pc = .top ∧ s.daemon.dispatchHead = [7] ∧ ¬MainLoop.ComesToRest ⟨32768,batchSizeOption [48]⟩ s := by
  refine ⟨by decide,by decide,by decide,_,rfl,rfl,rfl,?_⟩
  apply MainLoop.Spinning.not_comesToRest (by decide)
  exact ⟨List.cons_ne_nil 7 [],rfl,rfl,by decide,Or.inl rfl⟩

end ServerlessSched.UserAssigned
