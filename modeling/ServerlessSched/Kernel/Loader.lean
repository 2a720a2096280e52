import ServerlessSched.Library.Runs

/-! # A program around a loaded scheduler

`main` of both programs loads the BPF component, runs its main loop, takes the scheduler down
and goes back to the label `restart` when the exit code asks for it. A program that comes to
the main loop with `exit_req` set takes the new scheduler down at once.
-/
namespace ServerlessSched
open Runs

/-- Where `main` is: at the label `restart`, about to call `sched_main_loop`, in it, past it,
about to test the exit code, or at its end. -/
inductive MainPc
  | restart
  | bootstrapped
  | mainLoop
  | cleanup
  | report
  | done
deriving DecidableEq

/-- A program over its variables, those it shares with the scheduler included. Its events are
rounds of `sched_main_loop` and callbacks; `runs` and `returns` are told `UEI_EXITED`. -/
structure Loader (S E : Type) where
  preBootstrap : S
  bootstrap : S → S
  isRound : E → Bool
  runs : Bool → S → E → Option S
  returns : Bool → S → Bool
  exitReq : S → Bool
  setExitReq : S → S
  sigintHandler : S → S

/-- `uei` is the exit code of the loaded scheduler once it has ended, `rounds` counts the
bootstraps, and `signalled` tells of a signal since the last scheduler ended. -/
structure MainState (S : Type) where
  pc : MainPc
  state : S
  uei : Option UInt64
  rounds : ℕ
  signalled : Bool

/-- A step of `main`, of the main loop or a callback, the end of the scheduler by itself, or a
signal. The end of the link ends a scheduler that is still running, with a code of its own. -/
inductive MainEvent (E : Type)
  | bootstrap
  | call
  | loop (e : E)
  | leave
  | destroyLink (code : UInt64)
  | report
  | bpfExit (code : UInt64)
  | signal

def MainPc.attached : MainPc → Bool
  | .bootstrapped | .mainLoop | .cleanup => true
  | .restart | .report | .done => false

namespace MainState
variable {S E : Type}

/-- The scheduler ends, unless it has before. -/
def ended (s : MainState S) (code : UInt64) : MainState S :=
  match s.uei with
  | some _ => s
  | none => { s with uei := some code, signalled := false }

theorem ended_spec (s : MainState S) (code : UInt64) : (s.ended code).pc = s.pc ∧
    (s.ended code).state = s.state ∧ (s.ended code).rounds = s.rounds ∧ (s.ended code).uei ≠ none := by
  unfold ended
  split
  case h_1 c h => exact ⟨rfl,rfl,rfl,fun hf => by cases h.symm.trans hf⟩
  case h_2 => exact ⟨rfl,rfl,rfl,fun hf => by cases hf⟩

end MainState

namespace Loader
variable {S E : Type} (P : Loader S E)

def start : MainState S := ⟨.restart,P.preBootstrap,none,0,false⟩

/-- `ecodeRestart` is `UEI_ECODE_RESTART`. -/
def step (ecodeRestart : UInt64 → Bool) (s : MainState S) : MainEvent E → Option (MainState S)
  | .bootstrap =>
    if s.pc = .restart then
      some { s with pc := .bootstrapped, state := P.bootstrap s.state, uei := none, rounds := s.rounds + 1 }
    else none
  | .call => if s.pc = .bootstrapped then some { s with pc := .mainLoop } else none
  | .loop e =>
    if s.pc.attached = true ∧ (P.isRound e = true → s.pc = .mainLoop) then
      (P.runs s.uei.isSome s.state e).map (fun state => { s with state := state })
    else none
  | .leave =>
    if s.pc = .mainLoop ∧ P.returns s.uei.isSome s.state = true then
      some { s with pc := .cleanup, state := P.setExitReq s.state }
    else none
  | .destroyLink code => if s.pc = .cleanup then some { s.ended code with pc := .report } else none
  | .report =>
    if s.pc = .report then
      s.uei.map (fun code => { s with pc := if ecodeRestart code then .restart else .done })
    else none
  | .bpfExit code => if s.pc.attached = true ∧ s.uei = none then some (s.ended code) else none
  | .signal =>
    if s.pc = .done then none else some { s with state := P.sigintHandler s.state, signalled := true }

/-- An incarnation that has not ended, with no signal since the one before it ended, is fresh
when it is bootstrapped, and `main` keeps to the main loop with `exit_req` clear. -/
def Restarts (fresh : S → Prop) (s : MainState S) : Prop :=
  s.rounds ≠ 0 → s.uei = none → s.signalled = false →
    (s.pc = .bootstrapped → fresh s.state) ∧ (s.pc = .bootstrapped ∨ s.pc = .mainLoop) ∧
      P.exitReq s.state = false

/-- No scheduler is loaded in place of one that has ended, unless a signal has come since. -/
def NeverAgain (s : MainState S) : MainEvent E → Prop
  | .bootstrap => s.rounds = 0 ∨ s.signalled = true
  | _ => True

/-- What the parts of a program do to `exit_req` and to what is fresh, in steps that meet `C`. -/
structure Lawful (fresh inv : S → Prop) (C : E → Prop) : Prop where
  inv_start : inv P.preBootstrap
  inv_bootstrap : ∀ s, inv s → inv (P.bootstrap s)
  inv_runs : ∀ x s e t, inv s → C e → P.runs x s e = some t → inv t
  inv_setExitReq : ∀ s, inv s → inv (P.setExitReq s)
  inv_sigintHandler : ∀ s, inv s → inv (P.sigintHandler s)
  fresh_start : fresh (P.bootstrap P.preBootstrap)
  fresh_exitReq : ∀ s, fresh s → P.exitReq s = false
  fresh_runs : ∀ x s e t, P.isRound e = false → P.runs x s e = some t → fresh s → fresh t
  exitReq_bootstrap : ∀ s, P.exitReq (P.bootstrap s) = P.exitReq s
  exitReq_runs : ∀ x s e t, inv s → C e → P.runs x s e = some t → P.exitReq t = P.exitReq s
  exitReq_setExitReq : ∀ s, P.exitReq (P.setExitReq s) = true
  exitReq_sigintHandler : ∀ s, P.exitReq (P.sigintHandler s) = true
  exitReq_returns : ∀ s, inv s → P.returns false s = true → P.exitReq s = true

/-- What is known in every state. Nothing after the first main loop clears `exit_req`. -/
structure Tracked (inv : S → Prop) (s : MainState S) : Prop where
  inv : inv s.state
  first : s.rounds = 0 → s.pc = .restart ∧ (s.signalled = false → s.state = P.preBootstrap)
  requested : s.rounds ≠ 0 → s.pc ≠ .bootstrapped → s.pc ≠ .mainLoop → P.exitReq s.state = true
  recorded : s.rounds ≠ 0 → s.pc.attached = false → s.uei ≠ none

variable {P} {fresh inv : S → Prop} {C : E → Prop} {ecodeRestart : UInt64 → Bool} {s t : MainState S}

def Allowed (C : E → Prop) (_ : MainState S) : MainEvent E → Prop
  | .loop e => C e
  | _ => True

theorem Restarts.of_uei (h : s.uei ≠ none) : P.Restarts fresh s := fun _ huei => absurd huei h

theorem Restarts.of_signalled (h : s.signalled = true) : P.Restarts fresh s := by
  intro _ _ hquiet
  rw [h] at hquiet
  cases hquiet

theorem tracked_start (hP : P.Lawful fresh inv C) : P.Tracked inv P.start :=
  ⟨hP.inv_start,fun _ => ⟨rfl,fun _ => rfl⟩,fun h => absurd rfl h,fun h => absurd rfl h⟩

theorem Tracked.rounds_ne_zero (hs : P.Tracked inv s) (hpc : s.pc ≠ .restart) : s.rounds ≠ 0 :=
  fun h => hpc (hs.first h).1

/-- The first scheduler starts fresh; one that is loaded again finds `exit_req` set. -/
theorem Tracked.bootstrap (hP : P.Lawful fresh inv C) (hs : P.Tracked inv s) (hpc : s.pc = .restart)
    (ht : t = { s with pc := .bootstrapped, state := P.bootstrap s.state, uei := none, rounds := s.rounds + 1 }) :
    P.Tracked inv t ∧ (P.Restarts fresh t ↔ s.rounds = 0 ∨ s.signalled = true) := by
  subst ht
  refine ⟨⟨hP.inv_bootstrap _ hs.inv,fun h => absurd h (Nat.succ_ne_zero _),fun _ h => absurd rfl h,
    fun _ h => by cases h⟩,fun h => ?_,?_⟩
  · by_cases hrounds : s.rounds = 0
    · exact Or.inl hrounds
    · apply Or.inr
      by_contra hquiet
      have hclear := (h (Nat.succ_ne_zero _) rfl (eq_false_of_ne_true hquiet)).2.2
      have hset := hs.requested hrounds (by rw [hpc]; decide) (by rw [hpc]; decide)
      rw [hP.exitReq_bootstrap,hset] at hclear
      cases hclear
  · rintro (hrounds | hsignal)
    · intro _ _ hquiet
      have hfresh : fresh (P.bootstrap s.state) := by
        rw [(hs.first hrounds).2 hquiet]
        exact hP.fresh_start
      exact ⟨fun _ => hfresh,Or.inl rfl,hP.fresh_exitReq _ hfresh⟩
    · exact Restarts.of_signalled hsignal

theorem Tracked.loop (hP : P.Lawful fresh inv C) (hs : P.Tracked inv s) {e : E} (he : C e)
    (hattached : s.pc.attached = true) (hround : P.isRound e = true → s.pc = .mainLoop) {state : S}
    (h : P.runs s.uei.isSome s.state e = some state) :
    P.Tracked inv { s with state := state } ∧
      (P.Restarts fresh s → P.Restarts fresh { s with state := state }) := by
  have hexit : P.exitReq state = P.exitReq s.state := hP.exitReq_runs _ _ _ _ hs.inv he h
  have hrounds : s.rounds ≠ 0 := by
    apply hs.rounds_ne_zero
    intro hpc
    rw [hpc] at hattached
    cases hattached
  refine ⟨⟨hP.inv_runs _ _ _ _ hs.inv he h,fun h0 => absurd h0 hrounds,fun _ hb hm => ?_,hs.recorded⟩,?_⟩
  · rw [hexit]
    exact hs.requested hrounds hb hm
  · intro hr _ huei hquiet
    obtain ⟨hfresh,hpc,hclear⟩ := hr hrounds huei hquiet
    refine ⟨fun hb => ?_,hpc,hexit.trans hclear⟩
    cases hisRound : P.isRound e with
    | true => cases hb.symm.trans (hround hisRound)
    | false => exact hP.fresh_runs _ _ _ _ hisRound h (hfresh hb)

/-- The main loop is left on request, or because the scheduler has ended. -/
theorem Tracked.leave (hP : P.Lawful fresh inv C) (hs : P.Tracked inv s) (hpc : s.pc = .mainLoop)
    (hreturns : P.returns s.uei.isSome s.state = true) :
    P.Tracked inv { s with pc := .cleanup, state := P.setExitReq s.state } ∧
      (P.Restarts fresh s → P.Restarts fresh { s with pc := .cleanup, state := P.setExitReq s.state }) := by
  have hrounds : s.rounds ≠ 0 := hs.rounds_ne_zero (by rw [hpc]; decide)
  refine ⟨⟨hP.inv_setExitReq _ hs.inv,fun h0 => absurd h0 hrounds,
    fun _ _ _ => hP.exitReq_setExitReq _,fun _ h => by cases h⟩,fun hr _ huei hquiet => ?_⟩
  have huei' : s.uei = none := huei
  have hclear := (hr hrounds huei' hquiet).2.2
  rw [huei'] at hreturns
  rw [hP.exitReq_returns _ hs.inv hreturns] at hclear
  cases hclear

/-- A step keeps the promise of a restart exactly when it loads no scheduler again. -/
theorem Tracked.step (hP : P.Lawful fresh inv C) (hs : P.Tracked inv s) {e : MainEvent E} (he : Allowed C s e)
    (h : P.step ecodeRestart s e = some t) :
    P.Tracked inv t ∧ (P.Restarts fresh s → (P.Restarts fresh t ↔ NeverAgain s e)) := by
  cases e with
  | bootstrap =>
    obtain ⟨hpc,ht⟩ := Option.ite_none_right_eq_some.mp h
    obtain ⟨htracked,hiff⟩ := hs.bootstrap hP hpc (Option.some.inj ht).symm
    exact ⟨htracked,fun _ => hiff⟩
  | call =>
    obtain ⟨hpc,ht⟩ := Option.ite_none_right_eq_some.mp h
    cases ht
    have hrounds : s.rounds ≠ 0 := hs.rounds_ne_zero (by rw [hpc]; decide)
    refine ⟨⟨hs.inv,fun h0 => absurd h0 hrounds,fun _ _ hm => absurd rfl hm,fun _ hf => by cases hf⟩,
      fun hr => iff_of_true (fun _ huei hquiet => ?_) trivial⟩
    exact ⟨fun hb => (by cases hb),Or.inr rfl,(hr hrounds huei hquiet).2.2⟩
  | loop e =>
    obtain ⟨⟨hattached,hround⟩,ht⟩ := Option.ite_none_right_eq_some.mp h
    obtain ⟨state,hstate,rfl⟩ := Option.map_eq_some_iff.mp ht
    obtain ⟨htracked,hkeeps⟩ := hs.loop hP he hattached hround hstate
    exact ⟨htracked,fun hr => iff_of_true (hkeeps hr) trivial⟩
  | leave =>
    obtain ⟨⟨hpc,hreturns⟩,ht⟩ := Option.ite_none_right_eq_some.mp h
    cases ht
    obtain ⟨htracked,hkeeps⟩ := hs.leave hP hpc hreturns
    exact ⟨htracked,fun hr => iff_of_true (hkeeps hr) trivial⟩
  | destroyLink code =>
    obtain ⟨hpc,ht⟩ := Option.ite_none_right_eq_some.mp h
    cases ht
    obtain ⟨-,hstate,hcount,huei⟩ := s.ended_spec code
    have hrounds : s.rounds ≠ 0 := hs.rounds_ne_zero (by rw [hpc]; decide)
    have hset := hs.requested hrounds (by rw [hpc]; decide) (by rw [hpc]; decide)
    refine ⟨⟨?_,fun h0 => absurd (hcount.symm.trans h0) hrounds,fun _ _ _ => ?_,fun _ _ => huei⟩,
      fun _ => iff_of_true (Restarts.of_uei huei) trivial⟩
    · exact hstate ▸ hs.inv
    · exact (congrArg P.exitReq hstate).trans hset
  | report =>
    obtain ⟨hpc,ht⟩ := Option.ite_none_right_eq_some.mp h
    obtain ⟨code,hcode,rfl⟩ := Option.map_eq_some_iff.mp ht
    have huei : s.uei ≠ none := fun hf => by cases hcode.symm.trans hf
    have hrounds : s.rounds ≠ 0 := hs.rounds_ne_zero (by rw [hpc]; decide)
    have hset := hs.requested hrounds (by rw [hpc]; decide) (by rw [hpc]; decide)
    exact ⟨⟨hs.inv,fun h0 => absurd h0 hrounds,fun _ _ _ => hset,fun _ _ => huei⟩,
      fun _ => iff_of_true (Restarts.of_uei huei) trivial⟩
  | bpfExit code =>
    obtain ⟨⟨hattached,-⟩,ht⟩ := Option.ite_none_right_eq_some.mp h
    cases ht
    obtain ⟨hpc,hstate,hcount,huei⟩ := s.ended_spec code
    have hrounds : s.rounds ≠ 0 := by
      apply hs.rounds_ne_zero
      intro hf
      rw [hf] at hattached
      cases hattached
    refine ⟨⟨hstate ▸ hs.inv,fun h0 => absurd (hcount.symm.trans h0) hrounds,?_,fun _ _ => huei⟩,
      fun _ => iff_of_true (Restarts.of_uei huei) trivial⟩
    rw [hpc,hstate,hcount]
    exact hs.requested
  | signal =>
    obtain ⟨-,ht⟩ := Option.ite_none_left_eq_some.mp h
    cases ht
    exact ⟨⟨hP.inv_sigintHandler _ hs.inv,fun h0 => ⟨(hs.first h0).1,fun hf => by cases hf⟩,
      fun _ _ _ => hP.exitReq_sigintHandler _,hs.recorded⟩,
      fun _ => iff_of_true (Restarts.of_signalled rfl) trivial⟩

/-- Restarts keep their promise exactly in the runs without any. -/
theorem restarts_iff (hP : P.Lawful fresh inv C) {es : List (MainEvent E)}
    (hC : Along (P.step ecodeRestart) (Allowed C) P.start es) :
    Always (P.step ecodeRestart) (P.Restarts fresh) P.start es ↔
      Along (P.step ecodeRestart) NeverAgain P.start es := by
  have hstart : P.Restarts fresh P.start := fun h => absurd rfl h
  exact always_iff_along_of (fun _ _ _ hs he h => (hs.step hP he h).1)
    (fun _ _ _ hs he hr h => (hs.step hP he h).2 hr) (tracked_start hP) hstart hC

end Loader
end ServerlessSched
