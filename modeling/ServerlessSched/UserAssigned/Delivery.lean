import ServerlessSched.Library.Pipeline
import ServerlessSched.Library.Turns
import ServerlessSched.UserAssigned.Handover
import ServerlessSched.UserAssigned.Transfer

/-! # Decisions arrive

A record goes through the first map and the daemon's hands, the daemon's list and the second
map. While the daemon drains, hands over and is read again and again, in whatever order and
whatever else happens, every task whose PID is under way gets its slice after a number of turns
known beforehand.
-/
namespace ServerlessSched.UserAssigned
open Runs

namespace Transfer
variable {cfg : Config} {s t : Transfer} {e : TransferEvent} {p : Proc}

/-- The PIDs under way, by the place where they are. -/
def pipeline (s : Transfer) : Pipeline ℕ :=
  ⟨s.arriving,s.daemon.dispatchHead,s.board.dispatched.items.map DispatchedTask.pid⟩

/-- The stage of the way an event works at, when the map update succeeds: a record that is
taken into the daemon's hands is still arriving. -/
def stageOf : TransferEvent → Option Stage
  | .kernel (.dispatch _ _) => some .consume
  | .insert _ => some .drain
  | .drained => some .drain
  | .dispatch true => some .handOver
  | _ => none

theorem holds_iff {n : ℕ} : s.pipeline.Holds n ↔ n ∈ s.pendingPids := by
  rw [pendingPids,List.mem_append,List.mem_append,or_assoc]
  rfl

theorem pipeline_eq {a l : List ℕ} {disp : BoundedQueue maxEnqueuedTasks DispatchedTask}
    (harr : t.arriving = a) (hd : t.daemon.dispatchHead = l) (hdisp : t.board.dispatched = disp) :
    t.pipeline = ⟨a,l,disp.items.map DispatchedTask.pid⟩ := by
  rw [pipeline,harr,hd,hdisp]

/-! ## Every step is a move -/

theorem exitReq_of_step (h : step cfg s e = some t) (ht : t.daemon.exitReq = false) : s.daemon.exitReq = false := by
  cases e with
  | kernel e => rwa [(step_ops h).2.1] at ht
  | pop =>
    obtain ⟨pid,rest,-,-,hd,-⟩ := step_pop h
    rwa [hd] at ht
  | insert readable =>
    obtain ⟨pid,rest,-,-,-,⟨-,hd⟩ | ⟨-,-,hd⟩ | ⟨-,-,-,hd⟩⟩ := step_insert h
    · rw [hd] at ht
      cases ht
    · rwa [hd] at ht
    · rwa [hd] at ht
  | drained =>
    obtain ⟨-,-,-,hd⟩ := step_drained h
    rwa [hd] at ht
  | dispatch ok =>
    rcases Machine.step_dispatch_cases (step_dispatch h).1 with ⟨-,-,-,-,hd⟩ | ⟨pid,rest,q,-,-,-,-,-,hd⟩ <;>
      rwa [hd] at ht
  | endBatch =>
    obtain ⟨-,-,hd⟩ := step_endBatch h
    rwa [hd] at ht

theorem move_kernel {e : KernelEvent} (h : step cfg s (.kernel e) = some t) :
    s.pipeline.Move (stageOf (.kernel e)) t.pipeline := by
  obtain ⟨hk,hd,hhand⟩ := step_ops h
  obtain ⟨-,hb⟩ := KernelSide.board_step hk
  have hlist := congrArg Daemon.dispatchHead hd
  have hidle : t.board.enqueued = s.board.enqueued → t.board.dispatched = s.board.dispatched →
      s.pipeline.Move none t.pipeline := by
    intro henq hdisp
    rw [pipeline_eq (arriving_congr hhand henq) hlist hdisp]
    exact .idle
  cases e with
  | dispatch cpu env =>
    have hconsume : t.board = s.board.consume := hb
    rw [pipeline_eq (arriving_congr hhand (by rw [hconsume]; rfl)) hlist (congrArg Board.dispatched hconsume)]
    exact .consume
  | enable p alloc =>
    unfold Board.step at hb
    dsimp only at hb
    split at hb
    case isFalse => exact hidle (congrArg Board.enqueued hb) (congrArg Board.dispatched hb)
    case isTrue =>
      have hjoin : t.board = s.board.join cfg.userschedPid p := hb
      have henq := congrArg Board.enqueued hjoin
      have hdisp := congrArg Board.dispatched hjoin
      rcases Board.join_enqueued cfg.userschedPid s.board p with ⟨hsame,-⟩ | ⟨-,-,hitems⟩
      · exact hidle (henq.trans hsame) hdisp
      · rw [pipeline_eq (arriving_push hhand ((congrArg BoundedQueue.items henq).trans hitems)) hlist hdisp]
        exact .arrive p.pid
  | _ =>
    have henq := congrArg Board.enqueued hb
    have hdisp := congrArg Board.dispatched hb
    exact hidle henq hdisp

theorem move_insert {readable : Bool} (hw : s.WellFormed) (h : step cfg s (.insert readable) = some t)
    (hrun : t.daemon.exitReq = false) : s.pipeline.Move (some .drain) t.pipeline := by
  obtain ⟨pid,rest,hhead,htail,hb,⟨-,hd⟩ | ⟨-,hq,hd⟩ | ⟨-,hlist,-,-⟩⟩ := step_insert h
  · rw [hd] at hrun
    cases hrun
  · rw [pipeline_eq htail (congrArg Daemon.dispatchHead hd) (congrArg Board.dispatched hb)]
    exact .drop hhead ((hw.daemon.queued_iff pid).mp hq)
  · rw [pipeline_eq htail hlist (congrArg Board.dispatched hb)]
    exact .accept hhead

theorem move_dispatch {ok : Bool} (h : step cfg s (.dispatch ok) = some t) :
    s.pipeline.Move (stageOf (.dispatch ok)) t.pipeline := by
  obtain ⟨hhand,rfl⟩ := goOn_eq_some h
  have harr : ∀ u : UserSide, u.link.enqueued = s.link.enqueued →
      (⟨s.setUserSide u,none⟩ : Transfer).arriving = s.arriving := by
    intro u henq
    exact arriving_congr hhand.symm henq
  rcases UserSide.dispatchRound_cases ok s.userSide with ⟨hnil,hr⟩ | ⟨pid,rest,hhead,⟨hcause,hr⟩ | ⟨rfl,q,hq,hr⟩⟩
  all_goals
    rw [hr]
  · rw [pipeline_eq (harr _ rfl) rfl rfl]
    cases ok with
    | false => exact .idle
    | true => exact .stuck (Or.inl hnil)
  · rw [pipeline_eq (harr _ rfl) rfl rfl]
    cases ok with
    | false => exact .idle
    | true =>
      refine .stuck (Or.inr (fun hnil => hcause.resolve_left (by decide) ?_))
      have hnone : s.link.dispatched.items = [] := List.map_eq_nil_iff.mp hnil
      rw [BoundedQueue.HasRoom,UserSide.link,Machine.userSide,hnone]
      decide
  · have hpids : q.items.map DispatchedTask.pid = s.pipeline.dispatched ++ [pid] :=
      (congrArg (List.map DispatchedTask.pid) (BoundedQueue.push_eq_some.mp hq).2).trans List.map_append
    rw [pipeline_eq (harr _ rfl) rfl rfl]
    change s.pipeline.Move _ ⟨s.arriving,rest,q.items.map DispatchedTask.pid⟩
    rw [hpids]
    exact .handOver hhead

theorem move_of_step (hw : s.WellFormed) (h : step cfg s e = some t) (hrun : t.daemon.exitReq = false) :
    s.pipeline.Move (stageOf e) t.pipeline := by
  cases e with
  | kernel e => exact move_kernel h
  | insert readable => exact move_insert hw h hrun
  | dispatch ok => exact move_dispatch h
  | pop =>
    obtain ⟨pid,rest,-,hb,hd,harr⟩ := step_pop h
    rw [pipeline_eq harr (congrArg Daemon.dispatchHead hd) (congrArg Board.dispatched hb)]
    exact .idle
  | drained =>
    obtain ⟨hempty,hstill,hb,hd⟩ := step_drained h
    rw [pipeline_eq (hstill.trans hempty.symm) (congrArg Daemon.dispatchHead hd) (congrArg Board.dispatched hb)]
    exact .dry hempty
  | endBatch =>
    obtain ⟨harr,hb,hd⟩ := step_endBatch h
    rw [pipeline_eq harr (congrArg Daemon.dispatchHead hd) (congrArg Board.dispatched hb)]
    exact .idle

/-! ## A task with its PID under way -/

def Decided (p : Proc) (s : Transfer) : Prop := ∃ slice, s.board.status p = some (some slice)

/-- Short of a decision the PID of an enabled task is under way. -/
structure Expects (p : Proc) (s : Transfer) : Prop where
  wellFormed : s.WellFormed
  enabled : s.board.enabled p = true
  pending : s.pipeline.Holds p.pid ∨ Decided p s ∨ s.daemon.exitReq = true

/-- The decision has come, or the daemon has been asked to leave. -/
def Settled (p : Proc) (s : Transfer) : Prop := Decided p s ∨ s.daemon.exitReq = true

/-- The task neither leaves the scheduler nor exits. -/
def Remains (p : Proc) (e : TransferEvent) : Prop := e ≠ .kernel (.disable p) ∧ e ≠ .kernel (.exit p)

/-- Only the reading of the second map changes what the board says about a task that remains. -/
theorem kept_of_kernel {e : KernelEvent} (hw : s.WellFormed) (henabled : s.board.enabled p = true)
    (hp : Remains p (.kernel e)) (h : step cfg s (.kernel e) = some t) (hread : ∀ cpu env, e ≠ .dispatch cpu env) :
    t.board.enabled p = true ∧ t.board.status p = s.board.status p := by
  obtain ⟨hadmits,hb⟩ := KernelSide.board_step (step_ops h).1
  have hsame : t.board = s.board → t.board.enabled p = true ∧ t.board.status p = s.board.status p := by
    intro hb
    rw [hb]
    exact ⟨henabled,rfl⟩
  have hleave : ∀ q pids, q ≠ p → t.board = { s.board.leave q with pids := pids } →
      t.board.enabled p = true ∧ t.board.status p = s.board.status p := by
    intro q pids hne hb
    rw [hb]
    exact ⟨(Function.update_of_ne (Ne.symm hne) _ _).trans henabled,Function.update_of_ne (Ne.symm hne) _ _⟩
  cases e with
  | spawn q cpu mm =>
    refine hleave q _ (fun heq => ?_) hb
    have hholder : s.board.pids.holder p.pid = some p := hw.board.live p henabled
    have hfree : s.board.pids.holder q.pid = none := hadmits
    rw [heq,hholder] at hfree
    cases hfree
  | exit q => exact hleave q _ (fun heq => hp.2 (by rw [heq])) hb
  | disable q => exact hleave q s.board.pids (fun heq => hp.1 (by rw [heq])) hb
  | dispatch cpu env => exact absurd rfl (hread cpu env)
  | enable q alloc =>
    have hne : p ≠ q := by
      rintro rfl
      have hnew : s.board.enabled p = false := hadmits.2
      rw [henabled] at hnew
      cases hnew
    unfold Board.step at hb
    dsimp only at hb
    split at hb
    case isFalse => exact hsame hb
    case isTrue =>
      have hjoin : t.board = s.board.join cfg.userschedPid q := hb
      rw [hjoin]
      exact ⟨(Function.update_of_ne hne _ _).trans henabled,Function.update_of_ne hne _ _⟩
  | _ => exact hsame hb

theorem Decided.consume {b : Board} {slice : UInt64} (h : b.status p = some (some slice)) :
    ∃ slice, b.consume.status p = some (some slice) := by
  cases hlast : (decisionsFor b.pids p b.dispatched.items).getLast? with
  | none => exact ⟨slice,(Board.consume_status_of_none hlast).trans h⟩
  | some d =>
    rw [Board.consume_status_of_some hlast,h]
    exact ⟨translateSlice d,rfl⟩

/-- A decision that is read decides. -/
theorem decided_of_read (hw : s.WellFormed) (henabled : s.board.enabled p = true)
    (hread : p.pid ∈ s.pipeline.dispatched) : ∃ slice, s.board.consume.status p = some (some slice) := by
  obtain ⟨u,hu,hpid⟩ := List.mem_map.mp hread
  have hholder : s.board.pids.holder u.pid = some p := by
    rw [hpid]
    exact hw.board.live p henabled
  have hfor : u.slice ∈ decisionsFor s.board.pids p s.board.dispatched.items :=
    mem_decisionsFor.mpr ⟨u,hu,hholder,rfl⟩
  obtain ⟨v,hv⟩ := Option.isSome_iff_exists.mp ((hw.board.status_isSome p).trans henabled)
  obtain ⟨d,hlast⟩ : ∃ d, (decisionsFor s.board.pids p s.board.dispatched.items).getLast? = some d :=
    ⟨_,List.getLast?_eq_some_getLast (List.ne_nil_of_mem hfor)⟩
  rw [Board.consume_status_of_some hlast,hv]
  exact ⟨translateSlice d,rfl⟩

/-- What an event does to a task that remains. -/
theorem decided_step (hs : Expects p s) (hp : Remains p e) (h : step cfg s e = some t) :
    t.board.enabled p = true ∧ (Decided p s → Decided p t) ∧
      (stageOf e = some .consume → p.pid ∈ s.pipeline.dispatched → Decided p t) := by
  have hkept : stageOf e ≠ some .consume → t.board.enabled p = true ∧ t.board.status p = s.board.status p →
      t.board.enabled p = true ∧ (Decided p s → Decided p t) ∧
        (stageOf e = some .consume → p.pid ∈ s.pipeline.dispatched → Decided p t) := by
    rintro hne ⟨henabled,hstatus⟩
    exact ⟨henabled,fun ⟨slice,hslice⟩ => ⟨slice,hstatus.trans hslice⟩,fun heq => absurd heq hne⟩
  have huser : t.kern = s.kern → t.board.enabled p = true ∧ t.board.status p = s.board.status p := by
    intro hkern
    have henabled : (t.kern.task p).enabled = true := by
      rw [hkern]
      exact hs.enabled
    exact ⟨henabled,congrArg (fun k : Kern TaskCtx => (k.task p).ctx.map TaskCtx.verdict) hkern⟩
  cases e with
  | kernel e =>
    by_cases hread : ∃ cpu env, e = .dispatch cpu env
    · obtain ⟨cpu,env,rfl⟩ := hread
      have hb : t.board = s.board.consume := (KernelSide.board_step (step_ops h).1).2
      have hdecided : (∃ slice, s.board.consume.status p = some (some slice)) → Decided p t := by
        rw [Decided,hb]
        exact id
      refine ⟨by rw [hb]; exact hs.enabled,?_,?_⟩
      · rintro ⟨slice,hslice⟩
        exact hdecided (Decided.consume hslice)
      · exact fun _ hmem => hdecided (decided_of_read hs.wellFormed hs.enabled hmem)
    · have hother : ∀ cpu env, e ≠ .dispatch cpu env := fun cpu env heq => hread ⟨cpu,env,heq⟩
      refine hkept ?_ (kept_of_kernel hs.wellFormed hs.enabled hp h hother)
      cases e with
      | dispatch cpu env => exact absurd rfl (hother cpu env)
      | _ => exact fun hk => by cases hk
  | dispatch ok =>
    refine hkept ?_ (huser (step_user (fun k hk => by cases hk) h))
    cases ok <;> exact fun hk => by cases hk
  | _ => exact hkept (fun hk => by cases hk) (huser (step_user (fun k hk => by cases hk) h))

theorem exitReq_kept (h : step cfg s e = some t) (hs : s.daemon.exitReq = true) : t.daemon.exitReq = true := by
  by_contra hrun
  rw [exitReq_of_step h (Bool.eq_false_iff.mpr hrun)] at hs
  cases hs

theorem settled_step (hs : Expects p s) (hp : Remains p e) (h : step cfg s e = some t) (hsettled : Settled p s) :
    Settled p t :=
  hsettled.imp (decided_step hs hp h).2.1 (exitReq_kept h)

/-- Short of the decision every step brings the PID nearer to it or keeps the stage that does. -/
theorem expects_helped (hs : Expects p s) (hp : Remains p e) (h : step cfg s e = some t) (hshort : ¬Settled p s) :
    Settled p t ∨ Pipeline.Nearer p.pid s.pipeline (stageOf e) t.pipeline := by
  have hholds : s.pipeline.Holds p.pid := hs.pending.resolve_right hshort
  by_cases hexit : t.daemon.exitReq = true
  · exact Or.inl (Or.inr hexit)
  · have hmove := move_of_step hs.wellFormed h (Bool.eq_false_iff.mpr hexit)
    rcases hmove.nearer hholds with ⟨hread,hmem⟩ | hnearer
    · exact Or.inl (Or.inl ((decided_step hs hp h).2.2 hread hmem))
    · exact Or.inr hnearer

theorem Expects.step (hs : Expects p s) (hp : Remains p e) (h : Transfer.step cfg s e = some t) : Expects p t := by
  refine ⟨wellFormed_step hs.wellFormed h,(decided_step hs hp h).1,?_⟩
  by_cases hsettled : Settled p s
  · exact Or.inr (settled_step hs hp h hsettled)
  · rcases expects_helped hs hp h hsettled with hnow | hnearer
    · exact Or.inr hnow
    · exact Or.inl hnearer.1

theorem Expects.run {es : List TransferEvent} (hs : Expects p s) (hremains : ∀ e ∈ es, Remains p e)
    (hr : Runs.run (Transfer.step cfg) s es = some t) : Expects p t := by
  have hC : Along (Transfer.step cfg) (fun _ e => Remains p e) s es := along_of_forall (fun _ => hremains)
  have hI : ∀ s e t, Expects p s → Remains p e → Transfer.step cfg s e = some t → Expects p t :=
    fun s e t hs hp h => hs.step hp h
  exact always_iff_visited.mp (always_of_along hI hs hC) es t List.prefix_rfl hr

theorem settled_of_turns {turns : List (List TransferEvent)} (hs : Expects p s)
    (hr : run (step cfg) s turns.flatten = some t) (hremains : ∀ e ∈ turns.flatten, Remains p e)
    (hturns : ∀ turn ∈ turns, FullTurn stageOf turn) (hlength : s.pipeline.distance p.pid ≤ turns.length) :
    Settled p t := by
  have hC : Along (step cfg) (fun _ e => Remains p e) s turns.flatten := along_of_forall (fun _ => hremains)
  have hI : ∀ s e t, Expects p s → Remains p e → step cfg s e = some t → Expects p t :=
    fun s e t hs hp h => hs.step hp h
  have hgoal : ∀ s e t, Expects p s → Remains p e → step cfg s e = some t → Settled p s → Settled p t :=
    fun s e t hs hp h => settled_step hs hp h
  have hhelped : ∀ s e t, Expects p s → Remains p e → step cfg s e = some t → ¬Settled p s →
      Helped (Settled p) (fun s => s.pipeline.distance p.pid) (fun s => s.pipeline.helpful) stageOf s e t := by
    intro s e t hs hp h hshort
    rcases expects_helped hs hp h hshort with hnow | hnearer
    · exact Or.inl hnow
    · exact Or.inr hnearer.2
  exact goal_of_turns hI hgoal hhelped (fun s _ _ => Pipeline.distance_pos s.pipeline p.pid) hs hC hr hturns hlength

theorem withheldUndecided_step (hs : KernelSide.WithheldUndecided cfg.userschedPid s.sched)
    (h : step cfg s e = some t) : KernelSide.WithheldUndecided cfg.userschedPid t.sched := by
  have huser : t.kern = s.kern → KernelSide.WithheldUndecided cfg.userschedPid t.sched := by
    intro hkern
    refine ⟨(sound_of_kern hs.1 hkern),fun q hq => ?_⟩
    change (t.kern.task q).enabled = true ∧ q.pid ≠ cfg.userschedPid ∧
      ∃ tctx, (t.kern.task q).ctx = some tctx ∧ tctx.hasSlice = false
    change t.kern.Withheld q at hq
    rw [hkern] at hq ⊢
    exact hs.2 q hq
  cases e with
  | kernel e => exact hs.kernel (step_ops h).1
  | _ => exact huser (step_user (fun k hk => by cases hk) h)

theorem withheldUndecided_start (k : Kern TaskCtx) (u : ℕ) : KernelSide.WithheldUndecided u (start k).sched :=
  ⟨⟨fun _ => rfl,fun _ h => by cases h⟩,fun q hq => by cases hq⟩

end Transfer

/-- What holds of a task at the end of enough turns. -/
structure Served (p : Proc) (t : Machine) : Prop where
  enabled : (t.kern.task p).enabled = true
  decided : ∃ tctx, (t.kern.task p).ctx = some tctx ∧ tctx.hasSlice = true
  released : ¬t.kern.Withheld p

open Transfer in
/-- As many turns of the daemon's insertions and hand-overs and of the dispatch callback as a PID
is away from the end of its way decide the task. -/
theorem served_of_turns {cfg : Config} {k : Kern TaskCtx} {es : List TransferEvent} {s t : Transfer} {p : Proc}
    {turns : List (List TransferEvent)} (hreach : run (step cfg) (start k) es = some s)
    (henabled : (s.kern.task p).enabled = true) (hpending : p.pid ∈ s.pendingPids)
    (hr : run (step cfg) s turns.flatten = some t) (hremains : ∀ e ∈ turns.flatten, Remains p e)
    (hexit : t.daemon.exitReq = false) (hturns : ∀ turn ∈ turns, FullTurn stageOf turn)
    (hlength : s.pipeline.distance p.pid ≤ turns.length) : Served p t.toMachine := by
  have hw : s.WellFormed := run_invariant (P := fun s => s.WellFormed) (fun s e t hs h => wellFormed_step hs h)
    (Machine.wellFormed_start k) hreach
  have hs : Expects p s := ⟨hw,henabled,Or.inl (holds_iff.mpr hpending)⟩
  have hsettled : Settled p t := settled_of_turns hs hr hremains hturns hlength
  have ht : Expects p t := hs.run hremains hr
  obtain ⟨slice,hslice⟩ : Decided p t := hsettled.resolve_right (by rw [hexit]; decide)
  obtain ⟨tctx,hctx,hverdict⟩ := Option.map_eq_some_iff.mp hslice
  have hundecided : KernelSide.WithheldUndecided cfg.userschedPid t.sched :=
    run_invariant (fun s e t hs h => withheldUndecided_step hs h)
      (run_invariant (fun s e t hs h => withheldUndecided_step hs h) (withheldUndecided_start k _) hreach) hr
  refine ⟨ht.enabled,⟨tctx,hctx,?_⟩,fun hwithheld => ?_⟩
  · by_contra hnone
    rw [TaskCtx.verdict,if_neg hnone] at hverdict
    cases hverdict
  · have hwaiting := (KernelSide.undecided_iff.mp (hundecided.2 p hwithheld)).2.2
    have hsame : t.sched.board.status p = some (some slice) := hslice
    rw [hsame] at hwaiting
    cases hwaiting

/-! ## In whole rounds -/

namespace Machine
variable {cfg : Config} {s t : Machine} {e : MachineEvent} {p : Proc}

/-- The PIDs under way, by the place where they are. -/
def pipeline (s : Machine) : Pipeline ℕ :=
  ⟨s.board.enqueued.items,s.daemon.dispatchHead,s.board.dispatched.items.map DispatchedTask.pid⟩

/-- The stage of the way an event works at, when the map update succeeds. -/
def stageOf : MachineEvent → Option Stage
  | .kernel (.dispatch _ _) => some .consume
  | .drain _ => some .drain
  | .dispatch true => some .handOver
  | _ => none

/-- The task neither leaves the scheduler nor exits. -/
def Remains (p : Proc) (e : MachineEvent) : Prop := e ≠ .kernel (.disable p) ∧ e ≠ .kernel (.exit p)

theorem Remains.parts {part : List TransferEvent} (hp : Remains p e) (hpart : part ∈ Transfer.parts e) :
    ∀ f ∈ part, Transfer.Remains p f := by
  have hother : ∀ f : TransferEvent, (∀ k, f ≠ .kernel k) → Transfer.Remains p f := fun f hf => ⟨hf _,hf _⟩
  intro f hf
  cases e with
  | kernel e =>
    rw [List.mem_singleton.mp hpart,List.mem_singleton] at hf
    subst hf
    exact ⟨fun heq => hp.1 (by cases heq; rfl),fun heq => hp.2 (by cases heq; rfl)⟩
  | drain readable =>
    refine hother f (fun k hk => ?_)
    subst hk
    simp [Transfer.parts] at hpart
    rcases hpart with rfl | rfl <;> simp at hf
  | dispatch ok | endBatch =>
    rw [List.mem_singleton.mp hpart,List.mem_singleton] at hf
    subst hf
    exact hother _ (fun k hk => by cases hk)

/-- A round works at the stage at which one of its parts does. -/
theorem stage_of_parts {part : List TransferEvent} {k : Stage} (he : stageOf e = some k)
    (hpart : part ∈ Transfer.parts e) : ∃ f ∈ part, Transfer.stageOf f = some k := by
  cases e with
  | kernel e =>
    rw [List.mem_singleton.mp hpart]
    refine ⟨_,List.mem_cons_self,?_⟩
    cases e <;> exact he
  | drain readable =>
    rcases List.mem_cons.mp hpart with rfl | hpart
    · exact ⟨_,List.mem_cons_self,he⟩
    · rw [List.mem_singleton.mp hpart]
      exact ⟨_,List.mem_cons_of_mem _ List.mem_cons_self,he⟩
  | dispatch ok =>
    rw [List.mem_singleton.mp hpart]
    refine ⟨_,List.mem_cons_self,?_⟩
    cases ok <;> exact he
  | endBatch => cases he

/-- Turns of whole rounds are turns of their parts. -/
theorem turns_in_parts {turns : List (List MachineEvent)} (hr : run (step cfg) s turns.flatten = some t)
    (hremains : ∀ e ∈ turns.flatten, Remains p e) (hturns : ∀ turn ∈ turns, FullTurn stageOf turn) :
    ∃ fine : List (List TransferEvent), fine.length = turns.length ∧
      run (Transfer.step cfg) ⟨s,none⟩ fine.flatten = some ⟨t,none⟩ ∧
      (∀ f ∈ fine.flatten, Transfer.Remains p f) ∧ ∀ turn ∈ fine, FullTurn Transfer.stageOf turn := by
  induction turns generalizing s with
  | nil =>
    cases hr
    exact ⟨[],rfl,rfl,fun f hf => (List.not_mem_nil hf).elim,fun turn h => (List.not_mem_nil h).elim⟩
  | cons turn turns ih =>
    rw [List.flatten_cons] at hr hremains
    obtain ⟨u,hu,hrest⟩ := run_append_eq_some.mp hr
    obtain ⟨fine,hlength,hrun,hstay,hfull⟩ := ih hrest
      (fun e he => hremains e (List.mem_append_right _ he)) (fun later hl => hturns later (List.mem_cons_of_mem turn hl))
    obtain ⟨parts,hparts,hfirst⟩ := Transfer.run_in_parts hu
    refine ⟨parts.flatten :: fine,congrArg Nat.succ hlength,?_,?_,?_⟩
    · rw [List.flatten_cons,run_append_of_run hfirst,hrun]
    · intro f hf
      rw [List.flatten_cons] at hf
      rcases List.mem_append.mp hf with hf | hf
      · obtain ⟨part,hpart,hf⟩ := List.mem_flatten.mp hf
        obtain ⟨e,he,hmade⟩ := exists_entry hparts.flip hpart
        exact (hremains e (List.mem_append_left _ he)).parts hmade f hf
      · exact hstay f hf
    · intro later hlater k
      rcases List.mem_cons.mp hlater with rfl | hlater
      · obtain ⟨e,he,hstage⟩ := hturns turn List.mem_cons_self k
        obtain ⟨part,hpart,hmade⟩ := exists_entry hparts he
        obtain ⟨f,hf,hworks⟩ := stage_of_parts hstage hmade
        exact ⟨f,List.mem_flatten.mpr ⟨part,hpart,hf⟩,hworks⟩
      · exact hfull later hlater k

end Machine

open Machine

/-- As many turns of the two daemon loops and the dispatch callback as a PID is away from the
end of its way decide the task, in any order within a turn and whatever else happens, unless
the task leaves or the daemon is asked to exit. -/
theorem decision_delivered {cfg : Config} {k : Kern TaskCtx} {es : List MachineEvent} {s t : Machine} {p : Proc}
    {turns : List (List MachineEvent)} (hreach : run (step cfg) (start k) es = some s)
    (henabled : (s.kern.task p).enabled = true) (hpending : p.pid ∈ s.pendingPids)
    (hr : run (step cfg) s turns.flatten = some t) (hremains : ∀ e ∈ turns.flatten, Remains p e)
    (hexit : t.daemon.exitReq = false) (hturns : ∀ turn ∈ turns, FullTurn stageOf turn)
    (hlength : s.pipeline.distance p.pid ≤ turns.length) : Served p t := by
  obtain ⟨parts,-,hreach⟩ := Transfer.run_in_parts hreach
  obtain ⟨fine,hsame,hrun,hstay,hfull⟩ := turns_in_parts hr hremains hturns
  have hdistance : (⟨s,none⟩ : Transfer).pipeline.distance p.pid ≤ fine.length := by
    rw [hsame]
    exact hlength
  exact served_of_turns hreach henabled hpending hrun hstay hexit hfull hdistance

/-- The daemon hands a decision over before it drains, and the kernel reads before both. -/
def backwardTurn : List MachineEvent :=
  [.kernel (.dispatch 0 ⟨fun _ => false,fun _ => none,true⟩),.dispatch true,.drain true]

theorem fullTurn_backwardTurn : FullTurn stageOf backwardTurn := by
  intro stage
  cases stage with
  | drain => exact ⟨.drain true,by simp [backwardTurn],rfl⟩
  | handOver => exact ⟨.dispatch true,by simp [backwardTurn],rfl⟩
  | consume => exact ⟨.kernel (.dispatch 0 ⟨fun _ => false,fun _ => none,true⟩),by simp [backwardTurn],rfl⟩

/-- The first process to arrive is three turns from its slice. -/
theorem decision_delivered_first : ∃ s t, run (step demoConfig) (start Kern.fresh) (burst 1) = some s ∧
    run (step demoConfig) s (List.replicate 3 backwardTurn).flatten = some t ∧ Served (worker 0) t := by
  obtain ⟨s,hs,henabled,hpending,hdistance⟩ : ∃ s, run (step demoConfig) (start Kern.fresh) (burst 1) = some s ∧
      (s.kern.task (worker 0)).enabled = true ∧ (worker 0).pid ∈ s.pendingPids ∧
      s.pipeline.distance (worker 0).pid ≤ 3 := ⟨_,rfl,rfl,by decide,by decide⟩
  obtain ⟨t,ht,hexit⟩ : ∃ t, run (step demoConfig) s (List.replicate 3 backwardTurn).flatten = some t ∧
      t.daemon.exitReq = false := by
    cases hs
    exact ⟨_,rfl,rfl⟩
  refine ⟨s,t,hs,ht,decision_delivered hs henabled hpending ht ?_ hexit ?_ hdistance⟩
  · intro e he
    obtain ⟨turn,hturn,he⟩ := List.mem_flatten.mp he
    rw [List.eq_of_mem_replicate hturn] at he
    have hevents : ∀ e ∈ backwardTurn, Remains (worker 0) e := by
      simp [backwardTurn,Remains]
    exact hevents e he
  · intro turn hturn
    rw [List.eq_of_mem_replicate hturn]
    exact fullTurn_backwardTurn

end ServerlessSched.UserAssigned
