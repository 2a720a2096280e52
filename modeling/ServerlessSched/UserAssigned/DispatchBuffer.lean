import ServerlessSched.UserAssigned.Insertions
import ServerlessSched.UserAssigned.Machine

/-! # The kernel's dispatch buffer

One `dispatch` consumes every decision that has piled up since the last one, while the
kernel's buffer takes a fixed number of insertions for each call.
-/
namespace ServerlessSched.UserAssigned
open Runs

namespace Machine
variable {cfg : Config} {s t : Machine}

/-- A dispatch asks for no more insertions than the kernel's buffer holds. -/
def FitsBuffer (cfg : Config) (s : Machine) : MachineEvent → Prop
  | .kernel (.dispatch cpu env) => ∀ t, step cfg s (.kernel (.dispatch cpu env)) = some t →
      t.kern.inserts.length ≤ (serverlessOps cfg.userschedPid).batchLimit
  | _ => True

/-- The decisions in the second map whose PID is in use. -/
def usableDecisions (s : Machine) : List DispatchedTask :=
  s.link.dispatched.items.filter (fun u => (s.kern.pids.holder u.pid).isSome)

/-- At each dispatch at most 32 decisions for PIDs in use are waiting; at most 31 when the
daemon is needed and alive. -/
def FewWaiting (cfg : Config) (s : Machine) : MachineEvent → Prop
  | .kernel (.dispatch _ _) =>
    s.usableDecisions.length + (if s.link.userschedNeeded ∧
      (s.kern.pids.holder cfg.userschedPid).isSome then 1 else 0) ≤ 32
  | _ => True

theorem dispatch_inserts_length {cpu : ℕ} {env : DispatchEnv}
    (h : step cfg s (.kernel (.dispatch cpu env)) = some t) :
    t.kern.inserts.length = s.usableDecisions.length + (if s.link.userschedNeeded ∧
      (s.kern.pids.holder cfg.userschedPid).isSome then 1 else 0) := by
  obtain ⟨is,his,hall⟩ := KernelSide.step_dispatch_inserts (step_kernel h).1
  change t.sched.kern.inserts.length = _
  rw [his,List.length_append,KernelSide.daemonInsert_length,← hall.length_eq,Nat.add_comm]
  rfl

theorem fitsBuffer_iff (cfg : Config) (s : Machine) (e : MachineEvent) :
    FitsBuffer cfg s e ↔ FewWaiting cfg s e := by
  unfold FitsBuffer FewWaiting
  split
  case h_1 cpu env =>
    obtain ⟨t,ht,-⟩ : ∃ t, step cfg s (.kernel (.dispatch cpu env)) = some t ∧ _ :=
      step_of_issues trivial
    constructor
    · intro h
      have hfits := h t ht
      rwa [dispatch_inserts_length ht] at hfits
    · intro h u hu
      rw [dispatch_inserts_length hu]
      exact h
  case h_2 => exact Iff.rfl

end Machine

/-- In every run: no dispatch overflows the kernel's buffer if and only if no more decisions
than that wait at any dispatch. -/
theorem dispatch_fits_buffer_iff (cfg : Config) (k : Kern TaskCtx) (es : List MachineEvent) :
    Along (Machine.step cfg) (Machine.FitsBuffer cfg) (Machine.start k) es ↔
      Along (Machine.step cfg) (Machine.FewWaiting cfg) (Machine.start k) es :=
  ⟨Along.mono (fun s e => (Machine.fitsBuffer_iff cfg s e).mp),
    Along.mono (fun s e => (Machine.fitsBuffer_iff cfg s e).mpr)⟩

namespace Machine
variable {cfg : Config}

theorem drain_all {pids : List ℕ} {s : Machine} (hd : s.daemon.Consistent)
    (hitems : s.link.enqueued.items = pids) (hnodup : (s.daemon.dispatchHead ++ pids).Nodup)
    (hbound : ∀ n ∈ pids, n < cfg.pidMax) :
    ∃ t, run (step cfg) s (List.replicate pids.length (.drain false)) = some t ∧ t.kern = s.kern ∧
      t.link.dispatched = s.link.dispatched ∧ t.daemon.dispatchHead = s.daemon.dispatchHead ++ pids := by
  induction pids generalizing s with
  | nil => exact ⟨s,rfl,rfl,rfl,(List.append_nil _).symm⟩
  | cons n pids ih =>
    obtain ⟨r,hr⟩ : ∃ r, step cfg s (.drain false) = some r := ⟨_,rfl⟩
    have hkern : r.kern = s.kern := step_user (fun k h => by cases h) hr
    have hnew : n ∉ s.daemon.dispatchHead := fun hmem =>
      (List.disjoint_of_nodup_append hnodup) hmem List.mem_cons_self
    have hacc := (hd.accepts_iff (hbound n List.mem_cons_self)).mpr hnew
    have hconsistent : r.daemon.Consistent := by
      cases hr
      exact UserSide.drainRound_consistent hd
    rcases step_drain_cases hr with ⟨hempty,-,-⟩ | ⟨m,rest,hhead,hb,hcase⟩
    · rw [hempty] at hitems
      cases hitems
    obtain ⟨rfl,hrest⟩ := List.cons.inj (hitems.symm.trans hhead)
    have henq : r.link.enqueued = rest := congrArg Board.enqueued hb
    have hdisp : r.link.dispatched = s.link.dispatched := congrArg Board.dispatched hb
    rcases hcase with ⟨hbig,-⟩ | ⟨-,hq,-⟩ | ⟨-,hlist,-,-⟩
    · exact absurd (hbound n List.mem_cons_self) (Nat.not_lt.mpr hbig)
    · rw [hacc.2] at hq
      cases hq
    · obtain ⟨t,ht,htk,htd,htl⟩ := ih hconsistent (by rw [henq,hrest])
        (by rw [hlist,List.append_assoc]; exact hnodup)
        (fun k hk => hbound k (List.mem_cons_of_mem n hk))
      refine ⟨t,?_,htk.trans hkern,htd.trans hdisp,by rw [htl,hlist,List.append_assoc]; rfl⟩
      rw [List.length_cons,List.replicate_succ,run_cons_of_step hr,ht]

theorem dispatch_all {pids : List ℕ} {s : Machine} (hlist : s.daemon.dispatchHead = pids)
    (hroom : s.link.dispatched.items.length + pids.length ≤ maxEnqueuedTasks) :
    ∃ t, run (step cfg) s (List.replicate pids.length (.dispatch true)) = some t ∧ t.kern = s.kern ∧
      t.link.dispatched.items.map DispatchedTask.pid =
        s.link.dispatched.items.map DispatchedTask.pid ++ pids := by
  induction pids generalizing s with
  | nil => exact ⟨s,rfl,rfl,(List.append_nil _).symm⟩
  | cons n pids ih =>
    obtain ⟨r,hr⟩ : ∃ r, step cfg s (.dispatch true) = some r := ⟨_,rfl⟩
    have hkern : r.kern = s.kern := step_user (fun k h => by cases h) hr
    rw [List.length_cons] at hroom
    rcases step_dispatch_cases hr with ⟨hnil | hfails | hfull,-⟩ | ⟨m,rest,q,hhead,hq,hb,hrest,-,-⟩
    · rw [hlist] at hnil
      cases hnil
    · cases hfails
    · exact absurd (show s.link.dispatched.items.length < maxEnqueuedTasks by omega) hfull
    · obtain ⟨rfl,rfl⟩ := List.cons.inj (hlist.symm.trans hhead)
      have hdisp : r.link.dispatched = q := congrArg Board.dispatched hb
      obtain ⟨t,ht,htk,htp⟩ := ih hrest (by rw [hdisp,hq,List.length_append,List.length_singleton]; omega)
      refine ⟨t,?_,htk.trans hkern,?_⟩
      · rw [List.length_cons,List.replicate_succ,run_cons_of_step hr,ht]
      · rw [htp,hdisp,hq,List.map_append,List.append_assoc]
        rfl

theorem decisions_pile_up {n : ℕ} (hn : n ≤ maxEnqueuedTasks) :
    ∃ s, run (step demoConfig) (start Kern.fresh) (burst n ++ List.replicate n (.drain false) ++
      List.replicate n (.dispatch true)) = some s ∧ s.usableDecisions.length = n := by
  obtain ⟨r,hr,hafter⟩ := burst_run hn
  have hstart : r.daemon.Consistent ∧ r.daemon.dispatchHead = [] := by
    rw [hafter.daemon]
    exact ⟨Daemon.consistent_start,rfl⟩
  have hlen : ((List.range n).map (fun i => i + 2)).length = n := by simp
  have hnodup : ((List.range n).map (fun i => i + 2)).Nodup :=
    List.nodup_range.map (fun i j h => Nat.add_right_cancel h)
  have hbound : ∀ m ∈ (List.range n).map (fun i => i + 2), m < demoConfig.pidMax := by
    intro m hm
    obtain ⟨i,hi,rfl⟩ := List.mem_map.mp hm
    have hmax : maxEnqueuedTasks + 2 < demoConfig.pidMax := by decide
    have := List.mem_range.mp hi
    omega
  obtain ⟨q,hq,hqk,hqd,hql⟩ := drain_all hstart.1 hafter.enqueued
    (by rw [hstart.2]; exact hnodup) hbound
  rw [hlen] at hq
  rw [hstart.2,List.nil_append] at hql
  have hnone : q.link.dispatched.items = [] := by
    rw [hqd]
    exact hafter.dispatched
  obtain ⟨s,hs,hsk,hsp⟩ : ∃ t, run (step demoConfig) q (List.replicate
      ((List.range n).map (fun i => i + 2)).length (.dispatch true)) = some t ∧ t.kern = q.kern ∧ _ :=
    dispatch_all hql (by rw [hnone,hlen]; simpa using hn)
  rw [hlen] at hs
  rw [hnone,List.map_nil,List.nil_append] at hsp
  refine ⟨s,by rw [List.append_assoc,run_append_of_run hr,run_append_of_run hq,hs],?_⟩
  have hall : s.usableDecisions = s.link.dispatched.items := by
    refine List.filter_eq_self.mpr (fun u hu => ?_)
    have hpid : u.pid ∈ (List.range n).map (fun i => i + 2) := by
      rw [← hsp]
      exact List.mem_map_of_mem hu
    obtain ⟨i,hi,hiu⟩ := List.mem_map.mp hpid
    have hholder : s.kern.pids.holder u.pid = some (worker i) := by
      rw [hsk,hqk,← hiu]
      exact hafter.holder i (List.mem_range.mp hi)
    rw [hholder]
    rfl
  rw [hall,← List.length_map (f := DispatchedTask.pid),hsp,hlen]

end Machine

open Machine in
/-- Thirty-three tasks arrive, the daemon handles their records and the next dispatch asks for
more than 32 insertions. -/
theorem dispatch_overflows_buffer :
    ∃ s t, run (step demoConfig) (start Kern.fresh) (burst 33 ++ List.replicate 33 (.drain false) ++
        List.replicate 33 (.dispatch true)) = some s ∧
      step demoConfig s (.kernel (.dispatch 2 ⟨fun _ => false,fun _ => none,true⟩)) = some t ∧
      (serverlessOps demoConfig.userschedPid).batchLimit < t.kern.inserts.length := by
  obtain ⟨s,hs,hlength⟩ : ∃ s, run (step demoConfig) (start Kern.fresh) (burst 33 ++
      List.replicate 33 (.drain false) ++ List.replicate 33 (.dispatch true)) = some s ∧
      s.usableDecisions.length = 33 := decisions_pile_up (by decide)
  obtain ⟨t,ht,-⟩ : ∃ t, step demoConfig s
      (.kernel (.dispatch 2 ⟨fun _ => false,fun _ => none,true⟩)) = some t ∧ _ := step_of_issues trivial
  have hlimit : (serverlessOps demoConfig.userschedPid).batchLimit = 32 := rfl
  refine ⟨s,t,hs,ht,?_⟩
  rw [dispatch_inserts_length ht,hlength,hlimit]
  omega

end ServerlessSched.UserAssigned
