import ServerlessSched.UserAssigned.Progress
import Mathlib.Data.Finset.Card

/-! # A request to exit, and the blocking poll

`exit_req` is tested at the head of the main loop only. A request that comes later in the
iteration is lost on a daemon that then finds its list empty: it blocks, without a timeout.
-/
namespace ServerlessSched.UserAssigned
open Runs

namespace MainLoop
variable {cfg : LoopConfig} {s t : MainLoop} {file : Option (List UInt8)} {ok : Bool}

/-- The PIDs this drain will list, if nothing more arrives: those not listed yet, up to the
first record that ends the drain. -/
def awaited (cfg : LoopConfig) (s : MainLoop) : Finset ℕ :=
  (s.link.enqueued.items.takeWhile (fun pid => pid < cfg.pidMax)).toFinset.filter
    (fun pid => (s.daemon.tasks pid).isQueued = false)

/-- The loop is left, or gone round once more: more is listed than this iteration can still
hand over. -/
def GoesRound (cfg : LoopConfig) (s : MainLoop) : Prop :=
  match s.pc with
  | .top | .exited => True
  | .drain => cfg.batchSize.toNat < s.daemon.dispatchHead.length + (awaited cfg s).card
  | .batch i => cfg.batchSize.toNat - i < s.daemon.dispatchHead.length
  | .check => 0 < s.daemon.dispatchHead.length
  | .wait => False

/-- The event requests the exit, and does not just end a blocked poll. -/
def Requests (cfg : LoopConfig) (s : MainLoop) : LoopEvent → Prop
  | .signal => s.pc ≠ .wait
  | .daemon _ _ => s.pc = .drain ∧ ∃ pid ∈ s.link.enqueued.items.head?, cfg.pidMax ≤ pid
  | _ => False

def InTime (cfg : LoopConfig) (s : MainLoop) (e : LoopEvent) : Prop :=
  s.daemon.exitReq = false → Requests cfg s e → GoesRound cfg s

/-! ## Records in the map -/

theorem awaited_of_nil (h : s.link.enqueued.items = []) : awaited cfg s = ∅ := by
  simp [awaited,h]

theorem awaited_of_out_of_range {pid : ℕ} {rest : List ℕ} (h : s.link.enqueued.items = pid :: rest)
    (hbig : cfg.pidMax ≤ pid) : awaited cfg s = ∅ := by
  have hstop : ¬pid < cfg.pidMax := Nat.not_lt.mpr hbig
  simp [awaited,h,hstop]

/-- A record of a listed PID is not awaited. -/
theorem awaited_of_known {pid : ℕ} (h : s.link.enqueued.items = pid :: t.link.enqueued.items)
    (hsmall : pid < cfg.pidMax) (hqueued : (s.daemon.tasks pid).isQueued = true)
    (htasks : t.daemon.tasks = s.daemon.tasks) : awaited cfg t = awaited cfg s := by
  simp [awaited,h,hsmall,htasks,hqueued,Finset.filter_insert]

theorem awaited_of_accepted {pid : ℕ} {slice : UInt64} (h : s.link.enqueued.items = pid :: t.link.enqueued.items)
    (hacc : s.daemon.Accepts cfg.pidMax pid)
    (htasks : t.daemon.tasks = Function.update s.daemon.tasks pid ⟨slice,true⟩) :
    (awaited cfg s).card = (awaited cfg t).card + 1 := by
  have hnew : pid ∉ awaited cfg t := by simp [awaited,htasks]
  rw [← Finset.card_insert_of_notMem hnew]
  congr 1
  ext n
  by_cases hn : n = pid
  · subst hn
    simp [awaited,h,hacc.1,hacc.2]
  · simp [awaited,h,hacc.1,htasks,hn]

/-- What arrives at the end of the map keeps the awaited records awaited. -/
theorem awaited_subset {pid : ℕ} (h : t.link.enqueued.items = s.link.enqueued.items ++ [pid])
    (htasks : t.daemon.tasks = s.daemon.tasks) : awaited cfg s ⊆ awaited cfg t := by
  have hpart : s.link.enqueued.items.takeWhile (fun pid => decide (pid < cfg.pidMax)) <+:
      t.link.enqueued.items.takeWhile (fun pid => decide (pid < cfg.pidMax)) := by
    rw [h,List.takeWhile_append]
    split
    case isTrue hall =>
      have hsame := List.takeWhile_prefix (fun pid => decide (pid < cfg.pidMax)) |>.eq_of_length hall
      rw [hsame]
      exact List.prefix_append _ _
    case isFalse => exact List.prefix_rfl
  intro n hn
  simp only [awaited,Finset.mem_filter,List.mem_toFinset,htasks] at hn ⊢
  exact ⟨hpart.subset hn.1,hn.2⟩

theorem GoesRound.frame (hs : GoesRound cfg s) (hpc : t.pc = s.pc)
    (hlist : t.daemon.dispatchHead = s.daemon.dispatchHead) (hsub : awaited cfg s ⊆ awaited cfg t) :
    GoesRound cfg t := by
  unfold GoesRound at hs ⊢
  rw [hpc,hlist]
  cases hpc' : s.pc with
  | drain =>
    simp only [hpc'] at hs
    exact Nat.lt_of_lt_of_le hs (Nat.add_le_add_left (Finset.card_le_card hsub) _)
  | wait => simp only [hpc'] at hs
  | batch i => simpa only [hpc'] using hs
  | check => simpa only [hpc'] using hs
  | _ => trivial

theorem pc_of_signal (h : Stepped cfg s .signal t) (hpc : s.pc ≠ .wait) : t.pc = s.pc := by
  cases h
  cases hpc' : s.pc with
  | wait => exact absurd hpc' hpc
  | _ => rfl

theorem GoesRound.awake (hs : GoesRound cfg s) : s.pc ≠ .wait := by
  intro hpc
  unfold GoesRound at hs
  simp only [hpc] at hs

/-! ## With a request in time -/

/-- Bounds the steps of the daemon from the request to the end of the loop. -/
def stepsToExit (cfg : LoopConfig) (s : MainLoop) : ℕ :=
  match s.pc with
  | .drain => s.link.enqueued.items.length + cfg.batchSize.toNat + 4
  | .batch i => cfg.batchSize.toNat - i + 3
  | .check => 2
  | .top => 1
  | .wait | .exited => 0

theorem batch_lt {i j : ℕ} (h : s.daemonStep cfg file ok = some t) (hpc : s.pc = .batch i)
    (hpc' : t.pc = .batch j) : i < cfg.batchSize.toNat := by
  by_contra hi
  simp only [daemonStep,hpc,if_neg hi,Option.some.injEq] at h
  subst h
  cases hpc'

/-- The request stays, and so does the surplus on the list until the loop goes round. -/
theorem GoesRound.daemonStep (hs : GoesRound cfg s) (hexit : s.daemon.exitReq = true)
    (h : s.daemonStep cfg file ok = some t) : GoesRound cfg t ∧ t.daemon.exitReq = true ∧
      stepsToExit cfg t + 1 ≤ stepsToExit cfg s := by
  unfold GoesRound at hs
  cases daemonStep_stepped h with
  | leave hpc _ => exact ⟨trivial,hexit,by simp [stepsToExit,hpc]⟩
  | look _ hno => rw [hexit] at hno; cases hno
  | drained hpc hempty =>
    simp only [hpc,awaited_of_nil hempty] at hs
    refine ⟨?_,hexit,by simp [stepsToExit,hpc]⟩
    simpa [GoesRound,daemon] using hs
  | outOfRange hpc hhead hbig =>
    simp only [hpc,awaited_of_out_of_range hhead hbig] at hs
    refine ⟨?_,rfl,by simp [stepsToExit,hpc]⟩
    simpa [GoesRound,daemon] using hs
  | @known pid rest hpc hhead hqueued =>
    simp only [hpc] at hs
    have hlen := congrArg List.length hhead
    refine ⟨?_,hexit,?_⟩
    · simp only [GoesRound]
      by_cases hsmall : pid < cfg.pidMax
      · have hsame := @awaited_of_known cfg s
          { s with user := ⟨{ s.link with enqueued := rest },s.daemon⟩, pc := .drain } pid hhead hsmall hqueued rfl
        exact Nat.lt_of_lt_of_le hs (Nat.add_le_add_left (congrArg Finset.card hsame).ge _)
      · have hnone := awaited_of_out_of_range hhead (Nat.not_lt.mp hsmall)
        rw [hnone] at hs
        exact Nat.lt_of_lt_of_le hs (Nat.add_le_add_left (Nat.zero_le _) _)
    · simp only [stepsToExit,hpc,link,List.length_cons] at hlen ⊢
      omega
  | @accept pid rest d hpc hhead hacc hlist htasks _ hkept =>
    simp only [hpc] at hs
    have hlen := congrArg List.length hhead
    refine ⟨?_,hkept.trans hexit,?_⟩
    · simp only [GoesRound]
      rw [awaited_of_accepted (t := { s with user := ⟨{ s.link with enqueued := rest },d⟩, pc := .drain })
        hhead hacc htasks] at hs
      have hlisted := congrArg List.length hlist
      rw [List.length_append,List.length_singleton] at hlisted
      have hsum : ∀ c, s.daemon.dispatchHead.length + (c + 1) ≤ d.dispatchHead.length + c := by omega
      exact Nat.lt_of_lt_of_le hs (hsum _)
    · simp only [stepsToExit,hpc,link,List.length_cons] at hlen ⊢
      omega
  | batchDone hpc _ =>
    simp only [hpc] at hs
    exact ⟨Nat.lt_of_le_of_lt (Nat.zero_le _) hs,hexit,by simp [stepsToExit,hpc]⟩
  | pushFailed hpc _ =>
    simp only [hpc] at hs
    exact ⟨Nat.lt_of_le_of_lt (Nat.zero_le _) hs,hexit,by simp [stepsToExit,hpc]⟩
  | dispatched hpc hhead _ =>
    simp only [hpc] at hs
    have hlt := batch_lt h hpc rfl
    have hlen := congrArg List.length hhead
    refine ⟨?_,hexit,?_⟩
    · simp only [GoesRound,daemon,List.length_cons] at hs hlen ⊢
      omega
    · simp only [stepsToExit,hpc]
      omega
  | block hpc hlist =>
    simp only [hpc,hlist] at hs
    exact absurd hs (Nat.lt_irrefl 0)
  | again hpc _ => exact ⟨trivial,hexit,by simp [stepsToExit,hpc]⟩
  | wake hpc _ =>
    simp only [hpc] at hs

/-- Callbacks do not take away from the surplus, and a record they push costs one more step. -/
theorem GoesRound.step {e : LoopEvent} (hs : GoesRound cfg s) (hexit : s.daemon.exitReq = true)
    (h : step cfg s e = some t) : (GoesRound cfg t ∧ t.daemon.exitReq = true) ∧
      stepsToExit cfg t + (if e.isDaemon then 1 else 0) ≤ stepsToExit cfg s + if e.isPush then 1 else 0 := by
  cases step_stepped h with
  | daemon _ =>
    obtain ⟨ht,hkept,hsteps⟩ := hs.daemonStep hexit h
    exact ⟨⟨ht,hkept⟩,by simpa [LoopEvent.isDaemon,LoopEvent.isPush] using hsteps⟩
  | pushFailed _ _ => exact ⟨⟨hs,hexit⟩,by simp [LoopEvent.isDaemon]⟩
  | @push cpu pid q _ hpush =>
    obtain ⟨-,hitems⟩ := BoundedQueue.push_eq_some.mp hpush
    refine ⟨⟨?_,hexit⟩,?_⟩
    · exact hs.frame rfl rfl (awaited_subset hitems rfl)
    · have hlen := congrArg List.length hitems
      simp only [List.length_append,List.length_singleton] at hlen
      unfold stepsToExit
      cases hpc : s.pc with
      | drain =>
        simp only [setDuty,setLink,link,hpc,LoopEvent.isDaemon,LoopEvent.isPush] at hlen ⊢
        simp only [Bool.false_eq_true,if_false,if_true]
        omega
      | _ => simp [setDuty,setLink,hpc,LoopEvent.isDaemon,LoopEvent.isPush]
  | signal =>
    have hpc := pc_of_signal (@Stepped.signal cfg s) hs.awake
    refine ⟨⟨hs.frame hpc rfl (Finset.Subset.refl _),rfl⟩,?_⟩
    unfold stepsToExit
    rw [hpc]
    exact le_rfl
  | _ => exact ⟨⟨hs,hexit⟩,le_rfl⟩

/-- A request in time finds the loop on its way to its head. -/
theorem InTime.step {e : LoopEvent} (hs : s.daemon.exitReq = true → GoesRound cfg s) (he : InTime cfg s e)
    (h : step cfg s e = some t) (hexit : t.daemon.exitReq = true) : GoesRound cfg t := by
  cases hbefore : s.daemon.exitReq with
  | true => exact ((hs hbefore).step hbefore h).1.1
  | false =>
    cases step_stepped h with
    | signal =>
      by_cases hpc : s.pc = .wait
      · simp [GoesRound,hpc]
      · have hround := he hbefore hpc
        exact hround.frame (pc_of_signal (@Stepped.signal cfg s) hpc) rfl (Finset.Subset.refl _)
    | daemon hd =>
      cases hd with
      | outOfRange hpc hhead hbig =>
        have hround := he hbefore ⟨hpc,_,by simp [hhead],hbig⟩
        unfold GoesRound at hround
        simp only [hpc,awaited_of_out_of_range hhead hbig] at hround
        simpa [GoesRound,daemon] using hround
      | accept _ _ _ _ _ _ hkept =>
        have hraised := hkept.symm.trans hexit
        rw [hbefore] at hraised
        cases hraised
      | leave _ hraised => rw [hbefore] at hraised; cases hraised
      | _ =>
        have hraised : s.daemon.exitReq = true := hexit
        rw [hbefore] at hraised
        cases hraised
    | _ =>
      have hraised : s.daemon.exitReq = true := hexit
      rw [hbefore] at hraised
      cases hraised

/-! ## With a request too late -/

/-- The daemon can come to block with the exit requested. -/
def Blocks (cfg : LoopConfig) (s : MainLoop) : Prop :=
  ∃ es t, run (step cfg) s es = some t ∧ t.pc = .wait ∧ t.daemon.exitReq = true

theorem Blocks.of_step {e : LoopEvent} (h : step cfg s e = some t) (ht : Blocks cfg t) : Blocks cfg s := by
  obtain ⟨es,u,hr,hwait⟩ := ht
  exact ⟨e :: es,u,(run_cons_of_step h es).trans hr,hwait⟩

theorem blocks_of_check (hexit : s.daemon.exitReq = true) (hpc : s.pc = .check)
    (hnil : s.daemon.dispatchHead = []) : Blocks cfg s := by
  have hstep : step cfg s (.daemon none true) = some { s with
      user := { s.user with daemon := { s.daemon with nrCurrEnqueued := 0 } }, pc := .wait } := by
    simp only [step,daemonStep,hpc]
    rw [if_pos hnil]
  exact ⟨[.daemon none true],_,run_cons_of_step hstep [],rfl,hexit⟩

/-- Decisions are consumed: the map gets room. -/
theorem popDecision_room (cfg : LoopConfig) (s : MainLoop) : ∃ t, step cfg s .popDecision = some t ∧
    t.link.dispatched.HasRoom ∧ t.daemon = s.daemon ∧ t.pc = s.pc := by
  cases hpop : s.link.dispatched.pop with
  | none =>
    refine ⟨s,by simp [step,hpop],?_,rfl,rfl⟩
    unfold BoundedQueue.HasRoom
    rw [BoundedQueue.pop_eq_none.mp hpop]
    decide
  | some head =>
    obtain ⟨d,rest⟩ := head
    refine ⟨s.setLink { s.link with dispatched := rest },by simp [step,hpop],?_,rfl,rfl⟩
    have hitems := congrArg List.length (BoundedQueue.pop_eq_some.mp hpop)
    have hle := s.link.dispatched.length_le
    rw [hitems,List.length_cons] at hle
    exact hle

/-- By induction on the list: each round hands over one task, after a decision was consumed. -/
theorem blocks_of_batch {i : ℕ} (hexit : s.daemon.exitReq = true) (hpc : s.pc = .batch i)
    (hlen : s.daemon.dispatchHead.length ≤ cfg.batchSize.toNat - i) : Blocks cfg s := by
  generalize hlist : s.daemon.dispatchHead = l at hlen
  induction l generalizing s i with
  | nil =>
    obtain ⟨t,ht⟩ := @daemonStep_enabled cfg s none true (by simp [hpc]) (by simp [hpc])
    apply Blocks.of_step (e := .daemon none true) ht
    cases daemonStep_stepped ht with
    | batchDone _ _ => exact blocks_of_check hexit rfl hlist
    | pushFailed _ _ => exact blocks_of_check hexit rfl hlist
    | dispatched _ hhead _ => rw [hlist] at hhead; cases hhead
    | _ hpc' => rw [hpc] at hpc'; cases hpc'
  | cons pid rest ih =>
    obtain ⟨u,hu,hroom,hdaemon,hupc⟩ := popDecision_room cfg s
    apply Blocks.of_step hu
    rw [← hdaemon] at hexit hlist
    rw [List.length_cons] at hlen
    have hpc' : u.pc = .batch i := hupc.trans hpc
    obtain ⟨t,ht⟩ := @daemonStep_enabled cfg u none true (by simp [hpc']) (by simp [hpc'])
    apply Blocks.of_step (e := .daemon none true) ht
    cases daemonStep_stepped ht with
    | batchDone hi hdone =>
      cases hpc'.symm.trans hi
      rw [hlist] at hdone
      cases hdone (by omega)
    | pushFailed _ hfailed =>
      rcases hfailed with hfailed | hfull
      · cases hfailed
      · exact absurd hroom hfull
    | dispatched hi hhead _ =>
      cases hpc'.symm.trans hi
      rw [hlist] at hhead
      cases hhead
      exact ih hexit rfl rfl (by omega)
    | _ hother => rw [hpc'] at hother; cases hother

/-- By induction on the records in the map. -/
theorem blocks_of_drain (hexit : s.daemon.exitReq = true) (hpc : s.pc = .drain)
    (hlen : s.daemon.dispatchHead.length + (awaited cfg s).card ≤ cfg.batchSize.toNat) : Blocks cfg s := by
  generalize hitems : s.link.enqueued.items = records
  induction records generalizing s with
  | nil =>
    rw [awaited_of_nil hitems] at hlen
    have hpop : s.user.link.enqueued.pop = none := BoundedQueue.pop_eq_none.mpr hitems
    have hstep : step cfg s (.daemon none true) = some { s with
        user := ⟨{ s.link with
          nrUserspaceQueued := 0
          nrUserspaceScheduled := s.daemon.nrCurrEnqueued },s.daemon⟩
        pc := .batch 0 } := by
      simp only [step,daemonStep,hpc,UserSide.drainRound,hpop]
      rfl
    exact Blocks.of_step hstep (blocks_of_batch hexit rfl hlen)
  | cons pid records ih =>
    rcases UserSide.drainRound_cases cfg.pidMax none s.user with
      ⟨hempty,-⟩ | ⟨n,rest,hhead,⟨hbig,hr⟩ | ⟨hsmall,hqueued,hr⟩ | ⟨hacc,d,hr,hlist,htasks,-,hkept⟩⟩
    · cases hitems.symm.trans hempty
    all_goals
      cases hitems.symm.trans hhead
    · have hstep : step cfg s (.daemon none true) = some { s with
          user := ⟨{ s.user.link with enqueued := rest },{ s.user.daemon with exitReq := true }⟩
          pc := .batch 0 } := by
        simp only [step,daemonStep,hpc,hr]
      rw [awaited_of_out_of_range hhead hbig] at hlen
      exact Blocks.of_step hstep (blocks_of_batch rfl rfl hlen)
    · have hstep : step cfg s (.daemon none true) = some { s with
          user := ⟨{ s.user.link with enqueued := rest },s.user.daemon⟩ } := by
        simp only [step,daemonStep,hpc,hr]
      refine Blocks.of_step hstep (ih hexit hpc ?_ rfl)
      rw [← awaited_of_known (t := { s with user := ⟨{ s.user.link with enqueued := rest },s.user.daemon⟩ })
        hhead hsmall hqueued rfl] at hlen
      exact hlen
    · have hstep : step cfg s (.daemon none true) = some { s with
          user := ⟨{ s.user.link with enqueued := rest },d⟩ } := by
        simp only [step,daemonStep,hpc,hr]
      refine Blocks.of_step hstep (ih (hkept.trans hexit) hpc ?_ rfl)
      rw [awaited_of_accepted (t := { s with user := ⟨{ s.user.link with enqueued := rest },d⟩ })
        hhead hacc htasks] at hlen
      have hlisted : d.dispatchHead.length = s.daemon.dispatchHead.length + 1 := by
        rw [hlist,List.length_append]
        rfl
      change d.dispatchHead.length + _ ≤ _
      rw [hlisted]
      omega

theorem blocks_of_not_goesRound (hexit : s.daemon.exitReq = true) (hpc : s.pc ≠ .wait)
    (hround : ¬GoesRound cfg s) : Blocks cfg s := by
  unfold GoesRound at hround
  cases hpc' : s.pc with
  | drain =>
    simp only [hpc',Nat.not_lt] at hround
    exact blocks_of_drain hexit hpc' hround
  | batch i =>
    simp only [hpc',Nat.not_lt] at hround
    exact blocks_of_batch hexit hpc' hround
  | check =>
    simp only [hpc',Nat.not_lt,Nat.le_zero,List.length_eq_zero_iff] at hround
    exact blocks_of_check hexit hpc' hround
  | wait => exact absurd hpc' hpc
  | _ => simp [hpc'] at hround

/-- A request that does not come in time can be lost. -/
theorem blocks_of_not_inTime {e : LoopEvent} (he : ¬InTime cfg s e) (h : step cfg s e = some t) :
    Blocks cfg t := by
  obtain ⟨hbefore,he⟩ := Classical.not_imp.mp he
  obtain ⟨hreq,hround⟩ := Classical.not_imp.mp he
  cases e with
  | signal =>
    cases h
    have hpc := pc_of_signal (@Stepped.signal cfg s) hreq
    refine blocks_of_not_goesRound rfl (by rw [hpc]; exact hreq) fun hafter => hround ?_
    exact hafter.frame hpc.symm rfl (Finset.Subset.refl _)
  | daemon file ok =>
    obtain ⟨hpc,pid,hpid,hbig⟩ := hreq
    rcases UserSide.drainRound_cases cfg.pidMax file s.user with
      ⟨hempty,-⟩ | ⟨n,rest,hhead,⟨_,hr⟩ | ⟨hsmall,-,-⟩ | ⟨hacc,-⟩⟩
    · have hnone : s.link.enqueued.items = [] := hempty
      simp [hnone] at hpid
    all_goals
      have hfirst : s.link.enqueued.items = n :: rest.items := hhead
      simp only [hfirst,List.head?_cons,Option.mem_def,Option.some.injEq] at hpid
      subst hpid
    · simp only [step,daemonStep,hpc,hr,Option.some.injEq] at h
      subst h
      unfold GoesRound at hround
      simp only [hpc,awaited_of_out_of_range hfirst hbig,Finset.card_empty,Nat.not_lt] at hround
      exact blocks_of_batch rfl rfl hround
    · exact absurd hsmall (Nat.not_lt.mpr hbig)
    · exact absurd hacc.1 (Nat.not_lt.mpr hbig)
  | _ => exact hreq.elim

/-! ## All runs -/

/-- If every request to exit comes in time, the daemon never blocks once the exit is requested,
and leaves the loop after a number of its own steps that only the records pushed meanwhile can
raise. After any other request it can block. -/
theorem exit_heeded {es : List LoopEvent} (hr : run (step cfg) start es = some s) :
    (Along (step cfg) (InTime cfg) start es → s.daemon.exitReq = true → s.pc ≠ .wait ∧
      ∀ fs t, run (step cfg) s fs = some t → t.pc ≠ .wait ∧
        (t.pc ≠ .exited → ∀ file ok, ∃ u, t.daemonStep cfg file ok = some u) ∧
        (stepsToExit cfg s + fs.countP LoopEvent.isPush ≤ fs.countP LoopEvent.isDaemon → t.pc = .exited)) ∧
    ∀ e t, ¬InTime cfg s e → step cfg s e = some t → Blocks cfg t := by
  refine ⟨fun hintime hexit => ?_,fun e t => blocks_of_not_inTime⟩
  have hs : GoesRound cfg s := by
    have hall := always_of_along (P := fun s => s.daemon.exitReq = true → GoesRound cfg s)
      (fun s e t hs he h => he.step hs h) (fun hno => by cases hno) hintime
    exact always_iff_visited.mp hall es s List.prefix_rfl hr hexit
  refine ⟨hs.awake,fun fs t hfs => ?_⟩
  obtain ⟨⟨ht,-⟩,hsteps⟩ := run_potential (m := stepsToExit cfg) (p := LoopEvent.isDaemon) (q := LoopEvent.isPush)
    (fun s e t hs _ h => GoesRound.step hs.1 hs.2 h) ⟨hs,hexit⟩
    (along_of_forall (C := fun _ _ => True) fun _ _ _ => trivial) hfs
  refine ⟨ht.awake,fun hexited file ok => daemonStep_enabled file ok ht.awake hexited,fun hlong => ?_⟩
  have hzero : stepsToExit cfg t = 0 := by omega
  unfold stepsToExit at hzero
  cases hpc : t.pc with
  | exited => rfl
  | wait => exact absurd hpc ht.awake
  | _ => simp [hpc] at hzero

/-- The signal comes while the daemon looks into the empty map, or a record is out of range: in
both cases it blocks with the exit requested. -/
theorem exit_unheeded :
    (∃ s, run (step ⟨32768,8⟩) start
        [.daemon none true,.signal,.daemon none true,.daemon none true,.daemon none true] = some s ∧
      s.pc = .wait ∧ s.daemon.exitReq = true ∧ ∀ file ok, s.daemonStep ⟨32768,8⟩ file ok = none) ∧
    ∃ s, run (step ⟨32768,8⟩) start
        [.push 0 40000,.setNeeded 0,.daemon none true,.daemon none true,.daemon none true,.daemon none true] = some s ∧
      s.pc = .wait ∧ s.daemon.exitReq = true ∧ ∀ file ok, s.daemonStep ⟨32768,8⟩ file ok = none :=
  ⟨⟨_,rfl,rfl,rfl,fun _ _ => rfl⟩,_,rfl,rfl,rfl,fun _ _ => rfl⟩

/-- The signal comes at the head of the loop, with a task listed: one step later the loop is left. -/
theorem exit_heeded_top : ∃ s, run (step ⟨32768,1⟩) start
      [.push 0 7,.setNeeded 0,.push 0 9,.daemon none true,.daemon none true,.daemon none true,.daemon none true,
        .daemon none true,.daemon none true,.daemon none true,.signal] = some s ∧ s.daemon.dispatchHead = [9] ∧
    ∀ fs t, run (step ⟨32768,1⟩) s fs = some t →
      1 + fs.countP LoopEvent.isPush ≤ fs.countP LoopEvent.isDaemon → t.pc = .exited := by
  refine ⟨_,rfl,rfl,fun fs t hfs => ?_⟩
  refine (((@exit_heeded ⟨32768,1⟩ _ [.push 0 7,.setNeeded 0,.push 0 9,.daemon none true,.daemon none true,
    .daemon none true,.daemon none true,.daemon none true,.daemon none true,.daemon none true,.signal]
    rfl).1 ?_ rfl).2 fs t hfs).2.2
  have hquiet : ∀ s : MainLoop, (s.pc = .drain → s.link.enqueued.items = [7,9] ∨ s.link.enqueued.items = [9] ∨
      s.link.enqueued.items = []) → InTime ⟨32768,1⟩ s (.daemon none true) := by
    rintro s hitems - ⟨hpc,pid,hpid,hbig⟩
    rcases hitems hpc with h | h | h
    all_goals
      simp only [h,List.head?_cons,List.head?_nil,Option.mem_def,Option.some.injEq,reduceCtorEq] at hpid
    all_goals
      subst hpid
      exact absurd hbig (by decide)
  have hfree : ∀ s e, (∀ l, ¬Requests l s e) → InTime ⟨32768,1⟩ s e := fun s e h _ hreq => (h _ hreq).elim
  refine .cons rfl (hfree _ _ fun _ h => h) (.cons rfl (hfree _ _ fun _ h => h) (.cons rfl (hfree _ _ fun _ h => h)
    (.cons rfl (hquiet _ fun h => by cases h) (.cons rfl (hquiet _ fun _ => Or.inl rfl)
    (.cons rfl (hquiet _ fun _ => Or.inr (Or.inl rfl)) (.cons rfl (hquiet _ fun _ => Or.inr (Or.inr rfl))
    (.cons rfl (hquiet _ fun h => by cases h) (.cons rfl (hquiet _ fun h => by cases h)
    (.cons rfl (hquiet _ fun h => by cases h) (.cons rfl (fun _ _ => trivial) trivial))))))))))

end MainLoop
end ServerlessSched.UserAssigned
