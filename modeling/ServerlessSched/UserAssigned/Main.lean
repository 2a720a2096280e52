import ServerlessSched.KernelAssigned.Main
import ServerlessSched.UserAssigned.MainLoop

/-! # Does a restart restart?

`main` of the userspace-assigned scheduler, and the fate of both schedulers at their label
`restart`. `exit_req` is set on the way out and never cleared, so a scheduler that asks to be
loaded again is loaded only to be taken down.
-/
namespace ServerlessSched.UserAssigned
open Runs

/-- What the daemon starts from: no exit requested, nothing queued. -/
structure Daemon.Fresh (d : Daemon) : Prop where
  exitReq : d.exitReq = false
  dispatchHead : d.dispatchHead = []
  tasks : ∀ pid, (d.tasks pid).isQueued = false
  nrCurrEnqueued : d.nrCurrEnqueued = 0

def LoopPc.isExited : LoopPc → Bool
  | .exited => true
  | .top | .drain | .batch _ | .check | .wait => false

namespace MainLoop

def setExitReq (s : MainLoop) : MainLoop :=
  { s with user := { s.user with daemon := { s.daemon with exitReq := true } } }

/-- The handler also ends a blocked poll. -/
def sigintHandler (s : MainLoop) : MainLoop :=
  { s.setExitReq with pc := match s.pc with | .wait => .top | pc => pc }

/-- New maps and a new wake ring buffer; the daemon's own variables stay. -/
def bootstrap (s : MainLoop) : MainLoop := ⟨⟨.start,s.daemon⟩,.top,fun _ => none⟩

/-- Signals reach the program everywhere and are left to `sigintHandler`. -/
def schedMainLoop (cfg : LoopConfig) (s : MainLoop) : LoopEvent → Option MainLoop
  | .signal => none
  | e => step cfg s e

end MainLoop

/-- This main loop does not look at `UEI_EXITED`. -/
def main (cfg : LoopConfig) : Loader MainLoop LoopEvent where
  preBootstrap := .start
  bootstrap := MainLoop.bootstrap
  isRound
    | .daemon _ _ => true
    | _ => false
  runs _ := MainLoop.schedMainLoop cfg
  returns _ s := s.pc.isExited
  exitReq s := s.daemon.exitReq
  setExitReq := MainLoop.setExitReq
  sigintHandler := MainLoop.sigintHandler

namespace MainLoop
variable {cfg : LoopConfig} {s t : MainLoop}

structure Looping (cfg : LoopConfig) (s : MainLoop) : Prop where
  settled : Settled cfg s
  requested : s.pc = .exited → s.daemon.exitReq = true

theorem looping_start : Looping cfg start := ⟨settled_start,fun h => by cases h⟩

/-- With PIDs in range, a round leaves `exit_req` alone, and ends the loop only on request. -/
theorem Settled.daemonStep_exitReq {file : Option (List UInt8)} {ok : Bool} (hs : Settled cfg s)
    (h : DaemonStepped cfg file ok s t) : t.daemon.exitReq = s.daemon.exitReq ∧
      (t.pc = .exited → t.daemon.exitReq = true) := by
  cases h with
  | leave _ hexit => exact ⟨rfl,fun _ => hexit⟩
  | outOfRange _ hhead hbig => exact absurd (hs.head_lt hhead) (Nat.not_lt.mpr hbig)
  | accept _ _ _ _ _ _ hexit => exact ⟨hexit,fun hf => by cases hf⟩
  | _ => exact ⟨rfl,fun hf => by cases hf⟩

/-- Callbacks do not reach the daemon's variables. -/
theorem callback_frame {e : LoopEvent} (he : (main cfg).isRound e = false)
    (h : schedMainLoop cfg s e = some t) : t.daemon = s.daemon ∧ t.pc = s.pc := by
  have hstep : MainLoop.step cfg s e = some t := by
    cases e with
    | signal => cases h
    | _ => exact h
  cases step_stepped hstep with
  | daemon _ => cases he
  | signal => cases h
  | _ => exact ⟨rfl,rfl⟩

theorem Looping.step {e : LoopEvent} (hs : Looping cfg s) (he : PidInRange cfg s e)
    (h : schedMainLoop cfg s e = some t) : Looping cfg t ∧ t.daemon.exitReq = s.daemon.exitReq := by
  have hstep : MainLoop.step cfg s e = some t := by
    cases e with
    | signal => cases h
    | _ => exact h
  have hsettled : Settled cfg t := (hs.settled.step he (step_stepped hstep)).1
  cases hround : (main cfg).isRound e with
  | false =>
    obtain ⟨hdaemon,hpc⟩ := callback_frame hround h
    rw [hdaemon]
    exact ⟨⟨hsettled,fun hf => by rw [hdaemon]; exact hs.requested (hpc ▸ hf)⟩,rfl⟩
  | true =>
    cases e with
    | daemon file ok =>
      obtain ⟨hexit,hended⟩ := hs.settled.daemonStep_exitReq (daemonStep_stepped h)
      exact ⟨⟨hsettled,hended⟩,hexit⟩
    | _ => cases hround

end MainLoop

def Fresh (s : MainLoop) : Prop := s.daemon.Fresh

theorem main_lawful (cfg : LoopConfig) : (main cfg).Lawful Fresh (MainLoop.Looping cfg)
    (fun e => ∀ s, MainLoop.PidInRange cfg s e) where
  inv_start := MainLoop.looping_start
  inv_bootstrap _ _ := ⟨⟨fun _ h => (List.not_mem_nil h).elim,fun h => by cases h⟩,fun h => by cases h⟩
  inv_runs _ _ _ _ hs he h := (hs.step (he _) h).1
  inv_setExitReq _ hs := ⟨⟨hs.settled.inRange,hs.settled.listEmpty⟩,fun _ => rfl⟩
  inv_sigintHandler s hs := ⟨(hs.settled.step (e := .signal) trivial .signal).1,fun _ => rfl⟩
  fresh_start := ⟨rfl,rfl,fun _ => rfl,rfl⟩
  fresh_exitReq _ h := h.exitReq
  fresh_runs _ _ _ _ he h hfresh := by
    unfold Fresh
    rw [(MainLoop.callback_frame he h).1]
    exact hfresh
  exitReq_bootstrap _ := rfl
  exitReq_runs _ _ _ _ hs he h := (hs.step (he _) h).2
  exitReq_setExitReq _ := rfl
  exitReq_sigintHandler _ := rfl
  exitReq_returns s hs h := by
    apply hs.requested
    cases hpc : s.pc with
    | exited => rfl
    | _ =>
      change s.pc.isExited = true at h
      rw [hpc] at h
      cases h

end ServerlessSched.UserAssigned

namespace ServerlessSched
open Runs

/-- Both schedulers restart as they started exactly in the runs in which they do not restart. -/
theorem restarts_afresh_iff (ecodeRestart : UInt64 → Bool) :
    (∀ es, Always (KernelAssigned.main.step ecodeRestart) (KernelAssigned.main.Restarts KernelAssigned.Process.Fresh)
        KernelAssigned.main.start es ↔
      Along (KernelAssigned.main.step ecodeRestart) Loader.NeverAgain KernelAssigned.main.start es) ∧
    ∀ cfg es, (∀ cpu pid, .loop (.push cpu pid) ∈ es → pid < cfg.pidMax) →
      (Always ((UserAssigned.main cfg).step ecodeRestart) ((UserAssigned.main cfg).Restarts UserAssigned.Fresh)
          (UserAssigned.main cfg).start es ↔
        Along ((UserAssigned.main cfg).step ecodeRestart) Loader.NeverAgain (UserAssigned.main cfg).start es) := by
  constructor
  · intro es
    apply Loader.restarts_iff KernelAssigned.main_lawful
    apply along_of_forall
    intro s e _
    cases e <;> trivial
  · intro cfg es hpids
    apply Loader.restarts_iff (UserAssigned.main_lawful cfg)
    apply along_of_forall
    intro s e he
    cases e with
    | loop e =>
      intro _
      cases e with
      | push cpu pid => exact hpids cpu pid he
      | _ => trivial
    | _ => trivial

section Hotplug

/-- The bit `SCX_ECODE_ACT_RESTART`. -/
def ecodeActRestart : UInt64 := 0x1000000000000

def hotplugRestart (ecode : UInt64) : Bool := ecode &&& ecodeActRestart != 0

/-- A CPU is plugged in: the component ends and asks to be loaded again. -/
def hotplugged : List (MainEvent KernelAssigned.ProcessEvent) :=
  [.bootstrap,.call,.loop .round,.bpfExit ecodeActRestart,.leave,.destroyLink 0,.report,.bootstrap]

/-- The daemon is interrupted with PID 7 in its list when the component asks to be loaded again. -/
def hotpluggedBusy : List (MainEvent UserAssigned.LoopEvent) :=
  [.bootstrap,.call,.loop (.push 0 7),.loop (.setNeeded 0),.loop (.daemon none true),.loop (.daemon none true),
    .signal,.bpfExit ecodeActRestart,.loop (.daemon none true),.loop (.daemon none false),
    .loop (.daemon none true),.loop (.daemon none true),.leave,.destroyLink 0,.report,.bootstrap]

/-- Both come back with `exit_req` set, the second with the task of its former life queued; the
first takes its new scheduler down at once. -/
theorem restart_stillborn :
    (∃ s, run (KernelAssigned.main.step hotplugRestart) KernelAssigned.main.start hotplugged = some s ∧
      s.pc = .bootstrapped ∧ s.rounds = 2 ∧ s.signalled = false ∧ s.state.exitReq = true ∧
      ¬KernelAssigned.main.Restarts KernelAssigned.Process.Fresh s ∧
      ∃ t, run (KernelAssigned.main.step hotplugRestart) s [.call,.leave,.destroyLink 0,.report] = some t ∧
        t.pc = .done) ∧
    ∃ s, run ((UserAssigned.main ⟨32768,1⟩).step hotplugRestart) (UserAssigned.main ⟨32768,1⟩).start
        hotpluggedBusy = some s ∧
      s.pc = .bootstrapped ∧ s.rounds = 2 ∧ s.signalled = false ∧ s.state.daemon.exitReq = true ∧
      s.state.daemon.dispatchHead = [7] ∧ ¬(UserAssigned.main ⟨32768,1⟩).Restarts UserAssigned.Fresh s := by
  constructor
  · refine ⟨_,rfl,rfl,rfl,rfl,rfl,fun h => ?_,_,rfl,rfl⟩
    cases (h (by decide) rfl rfl).2.2
  · refine ⟨_,rfl,rfl,rfl,rfl,rfl,rfl,fun h => ?_⟩
    cases (h (by decide) rfl rfl).2.2

/-- One incarnation that serves a task and ends for good. -/
def servedOnce : List (MainEvent UserAssigned.LoopEvent) :=
  [.bootstrap,.call,.loop (.push 0 7),.loop (.setNeeded 0),.loop (.daemon none true),.signal,.bpfExit 0]

theorem restarts_afresh_iff_once :
    Always ((UserAssigned.main ⟨32768,1⟩).step hotplugRestart)
      ((UserAssigned.main ⟨32768,1⟩).Restarts UserAssigned.Fresh) (UserAssigned.main ⟨32768,1⟩).start servedOnce := by
  apply ((restarts_afresh_iff hotplugRestart).2 ⟨32768,1⟩ servedOnce ?_).mpr
  · have hfirst : Loader.NeverAgain (UserAssigned.main ⟨32768,1⟩).start
        (.bootstrap : MainEvent UserAssigned.LoopEvent) := Or.inl rfl
    apply Along.cons rfl hfirst
    exact .cons rfl trivial (.cons rfl trivial (.cons rfl trivial (.cons rfl trivial (.cons rfl trivial
      (.cons rfl trivial trivial)))))
  · intro cpu pid hpush
    simp [servedOnce] at hpush
    obtain ⟨rfl,rfl⟩ := hpush
    decide

end Hotplug
end ServerlessSched
