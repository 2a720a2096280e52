import ServerlessSched.Library.Mailbox
import ServerlessSched.UserAssigned.Board

/-! # The daemon's main loop against the callbacks, step by step

The callbacks of all CPUs and the daemon interleave at the granularity of single accesses to
what they share: a push and the flag, the flag and the message, one record at a time.
-/
namespace ServerlessSched.UserAssigned
open Runs

/-- Where the daemon is: at the head of the main loop, in the drain loop, in round `i` of the
batch loop, before the test of the dispatch list, blocked, or past the loop. -/
inductive LoopPc
  | top
  | drain
  | batch (i : ℕ)
  | check
  | wait
  | exited

/-- `duty` is what the callback running on a CPU still has to do with the shared variables. -/
structure MainLoop where
  user : UserSide
  pc : LoopPc
  duty : ℕ → Option Duty

/-- The length of the task array and the option `batch_size`. -/
structure LoopConfig where
  pidMax : ℕ
  batchSize : UInt32

/-- One step of the callbacks on a CPU, of the consumer of decisions, of the daemon, whose
calls answer `file` and `ok`, or of a signal. -/
inductive LoopEvent
  | push (cpu pid : ℕ)
  | setNeeded (cpu : ℕ)
  | testAndClear (cpu : ℕ)
  | sendWake (cpu : ℕ)
  | popDecision
  | updateIdle
  | daemon (file : Option (List UInt8)) (ok : Bool)
  | signal

namespace MainLoop

def start : MainLoop := ⟨.start,.top,fun _ => none⟩

def link (s : MainLoop) : Link := s.user.link

def daemon (s : MainLoop) : Daemon := s.user.daemon

def setLink (s : MainLoop) (l : Link) : MainLoop := { s with user := { s.user with link := l } }

def setDuty (s : MainLoop) (cpu : ℕ) (d : Option Duty) : MainLoop :=
  { s with duty := Function.update s.duty cpu d }

/-- One step of `sched_main_loop`. `ring_buffer__poll` blocks as long as nothing is unread. -/
def daemonStep (cfg : LoopConfig) (file : Option (List UInt8)) (ok : Bool) (s : MainLoop) :
    Option MainLoop :=
  match s.pc with
  | .top => some (if s.daemon.exitReq then { s with pc := .exited } else { s with pc := .drain })
  | .drain =>
    match s.user.drainRound cfg.pidMax file with
    | (u,true) => some { s with user := u }
    | (u,false) => some { s with user := u, pc := .batch 0 }
  | .batch i =>
    if i < cfg.batchSize.toNat then
      match s.user.dispatchRound ok with
      | (u,true) => some { s with user := u, pc := .batch (i + 1) }
      | (u,false) => some { s with user := u.endBatch, pc := .check }
    else some { s with user := s.user.endBatch, pc := .check }
  | .check =>
    if s.daemon.dispatchHead = [] then
      some { s with user := { s.user with daemon := { s.daemon with nrCurrEnqueued := 0 } }, pc := .wait }
    else some { s with pc := .top }
  | .wait =>
    if s.link.wakeRingbuf = 0 then none
    else some { s.setLink { s.link with wakeRingbuf := 0 } with pc := .top }
  | .exited => none

/-- A push into a full map fails and leaves no duty. A signal requests the exit and ends a
blocked poll, whose messages stay unread. -/
def step (cfg : LoopConfig) (s : MainLoop) : LoopEvent → Option MainLoop
  | .push cpu pid =>
    if s.duty cpu = none then
      match s.link.enqueued.push pid with
      | none => some s
      | some q => some ((s.setLink { s.link with enqueued := q }).setDuty cpu (some .raise))
    else none
  | .setNeeded cpu =>
    if s.duty cpu = some .raise then some ((s.setLink s.link.setUserschedNeeded).setDuty cpu none) else none
  | .testAndClear cpu =>
    if s.duty cpu = none then
      match s.link.testAndClearUserschedNeeded with
      | (true,l) => some ((s.setLink l).setDuty cpu (some .send))
      | (false,l) => some (s.setLink l)
    else none
  | .sendWake cpu =>
    if s.duty cpu = some .send then some ((s.setLink s.link.submitWakeMsg).setDuty cpu none) else none
  | .popDecision =>
    match s.link.dispatched.pop with
    | none => some s
    | some (_,rest) => some (s.setLink { s.link with dispatched := rest })
  | .updateIdle =>
    some (if s.link.nrUserspaceQueued ≠ 0 ∨ s.link.nrUserspaceScheduled ≠ 0 then
      s.setLink s.link.setUserschedNeeded else s)
  | .daemon file ok => s.daemonStep cfg file ok
  | .signal =>
    some { s with
      user := { s.user with daemon := { s.daemon with exitReq := true } }
      pc := match s.pc with | .wait => .top | pc => pc }

/-- Everything a step of the daemon can do. -/
inductive DaemonStepped (cfg : LoopConfig) (file : Option (List UInt8)) (ok : Bool) (s : MainLoop) :
    MainLoop → Prop
  | leave (hpc : s.pc = .top) (hexit : s.daemon.exitReq = true) :
    DaemonStepped cfg file ok s { s with pc := .exited }
  | look (hpc : s.pc = .top) (hexit : s.daemon.exitReq = false) :
    DaemonStepped cfg file ok s { s with pc := .drain }
  | drained (hpc : s.pc = .drain) (hempty : s.link.enqueued.items = []) :
    DaemonStepped cfg file ok s { s with
      user := ⟨{ s.link with
        nrUserspaceQueued := 0
        nrUserspaceScheduled := s.daemon.nrCurrEnqueued },s.daemon⟩
      pc := .batch 0 }
  | outOfRange {pid : ℕ} {rest : BoundedQueue maxEnqueuedTasks ℕ} (hpc : s.pc = .drain)
    (hhead : s.link.enqueued.items = pid :: rest.items) (hbig : cfg.pidMax ≤ pid) :
    DaemonStepped cfg file ok s { s with
      user := ⟨{ s.link with enqueued := rest },{ s.daemon with exitReq := true }⟩, pc := .batch 0 }
  | known {pid : ℕ} {rest : BoundedQueue maxEnqueuedTasks ℕ} (hpc : s.pc = .drain)
    (hhead : s.link.enqueued.items = pid :: rest.items) (hqueued : (s.daemon.tasks pid).isQueued = true) :
    DaemonStepped cfg file ok s { s with user := ⟨{ s.link with enqueued := rest },s.daemon⟩, pc := .drain }
  | accept {pid : ℕ} {rest : BoundedQueue maxEnqueuedTasks ℕ} {d : Daemon} (hpc : s.pc = .drain)
    (hhead : s.link.enqueued.items = pid :: rest.items) (hacc : s.daemon.Accepts cfg.pidMax pid)
    (hlist : d.dispatchHead = s.daemon.dispatchHead ++ [pid])
    (htasks : d.tasks = Function.update s.daemon.tasks pid ⟨requestedSlice file,true⟩)
    (hcount : d.nrCurrEnqueued = s.daemon.nrCurrEnqueued + 1) (hexit : d.exitReq = s.daemon.exitReq) :
    DaemonStepped cfg file ok s { s with user := ⟨{ s.link with enqueued := rest },d⟩, pc := .drain }
  | batchDone {i : ℕ} (hpc : s.pc = .batch i)
    (hdone : i < cfg.batchSize.toNat → s.daemon.dispatchHead = []) :
    DaemonStepped cfg file ok s { s with user := s.user.endBatch, pc := .check }
  | pushFailed {i : ℕ} (hpc : s.pc = .batch i) (hfailed : ok = false ∨ ¬s.link.dispatched.HasRoom) :
    DaemonStepped cfg file ok s { s with
      user := UserSide.endBatch
        ⟨s.link,{ s.daemon with nrDispatchesFailed := s.daemon.nrDispatchesFailed + 1 }⟩
      pc := .check }
  | dispatched {i pid : ℕ} {rest : List ℕ} {q : BoundedQueue maxEnqueuedTasks DispatchedTask} (hpc : s.pc = .batch i)
    (hhead : s.daemon.dispatchHead = pid :: rest)
    (hpush : s.link.dispatched.push ⟨pid,(s.daemon.tasks pid).slice⟩ = some q) :
    DaemonStepped cfg file ok s { s with
      user := ⟨{ s.link with dispatched := q },{ s.daemon with
        nrDispatches := s.daemon.nrDispatches + 1
        dispatchHead := rest
        tasks := Function.update s.daemon.tasks pid { s.daemon.tasks pid with isQueued := false }
        nrCurrEnqueued := s.daemon.nrCurrEnqueued - 1 }⟩
      pc := .batch (i + 1) }
  | block (hpc : s.pc = .check) (hlist : s.daemon.dispatchHead = []) :
    DaemonStepped cfg file ok s { s with
      user := { s.user with daemon := { s.daemon with nrCurrEnqueued := 0 } }, pc := .wait }
  | again (hpc : s.pc = .check) (hlist : s.daemon.dispatchHead ≠ []) :
    DaemonStepped cfg file ok s { s with pc := .top }
  | wake (hpc : s.pc = .wait) (hunread : s.link.wakeRingbuf ≠ 0) :
    DaemonStepped cfg file ok s { s.setLink { s.link with wakeRingbuf := 0 } with pc := .top }

theorem daemonStep_stepped {cfg : LoopConfig} {file : Option (List UInt8)} {ok : Bool} {s t : MainLoop}
    (h : s.daemonStep cfg file ok = some t) : DaemonStepped cfg file ok s t := by
  unfold daemonStep at h
  cases hpc : s.pc with
  | top =>
    simp only [hpc,Option.some.injEq] at h
    subst h
    split
    case isTrue hexit => exact .leave hpc hexit
    case isFalse hexit => exact .look hpc (Bool.eq_false_of_not_eq_true hexit)
  | drain =>
    simp only [hpc] at h
    rcases UserSide.drainRound_cases cfg.pidMax file s.user with
      ⟨hempty,hr⟩ | ⟨pid,rest,hhead,⟨hbig,hr⟩ | ⟨-,hqueued,hr⟩ | ⟨hacc,d,hr,hlist,htasks,hcount,hexit⟩⟩
    all_goals
      rw [hr] at h
      cases h
    · exact .drained hpc hempty
    · exact .outOfRange hpc hhead hbig
    · exact .known hpc hhead hqueued
    · exact .accept hpc hhead hacc hlist htasks hcount hexit
  | batch i =>
    simp only [hpc] at h
    split at h
    case isFalse hi =>
      cases h
      exact .batchDone hpc (fun hlt => absurd hlt hi)
    case isTrue =>
      rcases UserSide.dispatchRound_cases ok s.user with
        ⟨hnil,hr⟩ | ⟨pid,rest,hhead,⟨hfailed,hr⟩ | ⟨-,q,hpush,hr⟩⟩
      all_goals
        rw [hr] at h
        cases h
      · exact .batchDone hpc (fun _ => hnil)
      · exact .pushFailed hpc hfailed
      · exact .dispatched hpc hhead hpush
  | check =>
    simp only [hpc] at h
    split at h
    case isTrue hlist => cases h; exact .block hpc hlist
    case isFalse hlist => cases h; exact .again hpc hlist
  | wait =>
    simp only [hpc] at h
    split at h
    case isTrue => cases h
    case isFalse hunread => cases h; exact .wake hpc hunread
  | exited =>
    simp only [hpc] at h
    cases h

/-- Everything a step can do. -/
inductive Stepped (cfg : LoopConfig) (s : MainLoop) : LoopEvent → MainLoop → Prop
  | pushFailed {cpu pid : ℕ} (hidle : s.duty cpu = none) (hfull : s.link.enqueued.push pid = none) :
    Stepped cfg s (.push cpu pid) s
  | push {cpu pid : ℕ} {q : BoundedQueue maxEnqueuedTasks ℕ} (hidle : s.duty cpu = none)
    (hpush : s.link.enqueued.push pid = some q) :
    Stepped cfg s (.push cpu pid) ((s.setLink { s.link with enqueued := q }).setDuty cpu (some .raise))
  | setNeeded {cpu : ℕ} (hduty : s.duty cpu = some .raise) :
    Stepped cfg s (.setNeeded cpu) ((s.setLink s.link.setUserschedNeeded).setDuty cpu none)
  | clear {cpu : ℕ} (hidle : s.duty cpu = none) (hneeded : s.link.userschedNeeded = true) :
    Stepped cfg s (.testAndClear cpu)
      ((s.setLink { s.link with userschedNeeded := false }).setDuty cpu (some .send))
  | testOnly {cpu : ℕ} (hidle : s.duty cpu = none) (hneeded : s.link.userschedNeeded = false) :
    Stepped cfg s (.testAndClear cpu) (s.setLink { s.link with userschedNeeded := false })
  | sendWake {cpu : ℕ} (hduty : s.duty cpu = some .send) :
    Stepped cfg s (.sendWake cpu) ((s.setLink s.link.submitWakeMsg).setDuty cpu none)
  | noDecision (hnone : s.link.dispatched.pop = none) : Stepped cfg s .popDecision s
  | popDecision {d : DispatchedTask} {rest : BoundedQueue maxEnqueuedTasks DispatchedTask}
    (hpop : s.link.dispatched.pop = some (d,rest)) :
    Stepped cfg s .popDecision (s.setLink { s.link with dispatched := rest })
  | updateIdle (hcount : s.link.nrUserspaceQueued ≠ 0 ∨ s.link.nrUserspaceScheduled ≠ 0) :
    Stepped cfg s .updateIdle (s.setLink s.link.setUserschedNeeded)
  | updateIdleOnly (hcount : ¬(s.link.nrUserspaceQueued ≠ 0 ∨ s.link.nrUserspaceScheduled ≠ 0)) :
    Stepped cfg s .updateIdle s
  | daemon {file : Option (List UInt8)} {ok : Bool} {t : MainLoop} (h : DaemonStepped cfg file ok s t) :
    Stepped cfg s (.daemon file ok) t
  | signal : Stepped cfg s .signal { s with
      user := { s.user with daemon := { s.daemon with exitReq := true } }
      pc := match s.pc with | .wait => .top | pc => pc }

theorem step_stepped {cfg : LoopConfig} {s t : MainLoop} {e : LoopEvent} (h : step cfg s e = some t) :
    Stepped cfg s e t := by
  cases e with
  | push cpu pid =>
    obtain ⟨hidle,ht⟩ := Option.ite_none_right_eq_some.mp h
    split at ht
    case h_1 hfull => cases ht; exact .pushFailed hidle hfull
    case h_2 q hpush => cases ht; exact .push hidle hpush
  | setNeeded cpu =>
    obtain ⟨hduty,ht⟩ := Option.ite_none_right_eq_some.mp h
    cases ht
    exact .setNeeded hduty
  | testAndClear cpu =>
    obtain ⟨hidle,ht⟩ := Option.ite_none_right_eq_some.mp h
    cases hneeded : s.link.userschedNeeded with
    | true =>
      simp only [Link.testAndClearUserschedNeeded,hneeded] at ht
      cases ht
      exact .clear hidle hneeded
    | false =>
      simp only [Link.testAndClearUserschedNeeded,hneeded] at ht
      cases ht
      exact .testOnly hidle hneeded
  | sendWake cpu =>
    obtain ⟨hduty,ht⟩ := Option.ite_none_right_eq_some.mp h
    cases ht
    exact .sendWake hduty
  | popDecision =>
    simp only [step] at h
    split at h
    case h_1 hnone => cases h; exact .noDecision hnone
    case h_2 d rest hpop => cases h; exact .popDecision hpop
  | updateIdle =>
    simp only [step,Option.some.injEq] at h
    split at h
    case isTrue hcount => cases h; exact .updateIdle hcount
    case isFalse hcount => cases h; exact .updateIdleOnly hcount
  | daemon file ok => exact .daemon (daemonStep_stepped h)
  | signal =>
    cases h
    exact .signal

/-! ## The mailbox it is -/

/-- The daemon goes on to look into the map, or is past caring. -/
def looking : LoopPc → Bool
  | .top | .drain | .exited => true
  | .batch _ | .check | .wait => false

def mailbox (s : MainLoop) : Mailbox ℕ ℕ where
  work := s.link.enqueued.items
  raised := s.link.userschedNeeded
  unread := s.link.wakeRingbuf
  duty := s.duty
  looking := looking s.pc

variable {cfg : LoopConfig} {s t : MainLoop}

/-- What the two sides keep to: the records are those of PIDs in range, and a blocked daemon
has emptied its list. -/
structure Settled (cfg : LoopConfig) (s : MainLoop) : Prop where
  inRange : ∀ pid ∈ s.link.enqueued.items, pid < cfg.pidMax
  listEmpty : s.pc = .wait → s.daemon.dispatchHead = []

theorem settled_start : Settled cfg start := ⟨fun _ h => (List.not_mem_nil h).elim,fun _ => rfl⟩

def PidInRange (cfg : LoopConfig) (_ : MainLoop) : LoopEvent → Prop
  | .push _ pid => pid < cfg.pidMax
  | _ => True

theorem pidInRange_along {es : List LoopEvent} (hpids : ∀ cpu pid, .push cpu pid ∈ es → pid < cfg.pidMax)
    (s : MainLoop) : Along (step cfg) (PidInRange cfg) s es := by
  refine along_of_forall fun s e he => ?_
  cases e with
  | push cpu pid => exact hpids cpu pid he
  | _ => trivial

theorem unnoticed (hlooking : looking t.pc = looking s.pc) (henq : t.link.enqueued = s.link.enqueued)
    (hneeded : t.link.userschedNeeded = s.link.userschedNeeded)
    (hring : t.link.wakeRingbuf = s.link.wakeRingbuf) (hduty : t.duty = s.duty) :
    Mailbox.Step (mailbox s) (mailbox t) := by
  have hsame : mailbox t = mailbox s :=
    Mailbox.ext (congrArg BoundedQueue.items henq) hneeded hring hduty hlooking
  rw [hsame]
  exact .stay

theorem taken (hs : looking s.pc = true) (ht : looking t.pc = true)
    (hneeded : t.link.userschedNeeded = s.link.userschedNeeded)
    (hring : t.link.wakeRingbuf = s.link.wakeRingbuf) (hduty : t.duty = s.duty) :
    Mailbox.Step (mailbox s) (mailbox t) := by
  have htaken : mailbox t = { mailbox s with work := t.link.enqueued.items } :=
    Mailbox.ext rfl hneeded hring hduty (ht.trans hs.symm)
  rw [htaken]
  exact .take _ hs

theorem Settled.tail {pid : ℕ} {rest : BoundedQueue maxEnqueuedTasks ℕ} (hs : Settled cfg s)
    (hhead : s.link.enqueued.items = pid :: rest.items) : ∀ p ∈ rest.items, p < cfg.pidMax := by
  intro p hp
  apply hs.inRange
  rw [hhead]
  exact List.mem_cons_of_mem pid hp

theorem Settled.head_lt {pid : ℕ} {rest : BoundedQueue maxEnqueuedTasks ℕ} (hs : Settled cfg s)
    (hhead : s.link.enqueued.items = pid :: rest.items) : pid < cfg.pidMax := by
  apply hs.inRange
  rw [hhead]
  exact List.mem_cons_self

theorem Settled.daemonStep {file : Option (List UInt8)} {ok : Bool} (hs : Settled cfg s)
    (h : DaemonStepped cfg file ok s t) : Settled cfg t ∧ Mailbox.Step (mailbox s) (mailbox t) := by
  cases h with
  | leave hpc _ =>
    exact ⟨⟨hs.inRange,fun hwait => by cases hwait⟩,unnoticed (by rw [hpc]; rfl) rfl rfl rfl rfl⟩
  | look hpc _ =>
    exact ⟨⟨hs.inRange,fun hwait => by cases hwait⟩,unnoticed (by rw [hpc]; rfl) rfl rfl rfl rfl⟩
  | drained _ hempty => exact ⟨⟨hs.inRange,fun hwait => by cases hwait⟩,.leave hempty⟩
  | outOfRange _ hhead hbig => exact absurd (hs.head_lt hhead) (Nat.not_lt.mpr hbig)
  | known hpc hhead _ =>
    have hlooking : looking s.pc = true := by rw [hpc]; rfl
    exact ⟨⟨hs.tail hhead,fun hwait => by cases hwait⟩,taken hlooking rfl rfl rfl rfl⟩
  | accept hpc hhead _ _ _ _ _ =>
    have hlooking : looking s.pc = true := by rw [hpc]; rfl
    exact ⟨⟨hs.tail hhead,fun hwait => by cases hwait⟩,taken hlooking rfl rfl rfl rfl⟩
  | batchDone hpc _ =>
    exact ⟨⟨hs.inRange,fun hwait => by cases hwait⟩,unnoticed (by rw [hpc]; rfl) rfl rfl rfl rfl⟩
  | pushFailed hpc _ =>
    exact ⟨⟨hs.inRange,fun hwait => by cases hwait⟩,unnoticed (by rw [hpc]; rfl) rfl rfl rfl rfl⟩
  | dispatched hpc _ _ =>
    exact ⟨⟨hs.inRange,fun hwait => by cases hwait⟩,unnoticed (by rw [hpc]; rfl) rfl rfl rfl rfl⟩
  | block hpc hlist => exact ⟨⟨hs.inRange,fun _ => hlist⟩,unnoticed (by rw [hpc]; rfl) rfl rfl rfl rfl⟩
  | again _ _ => exact ⟨⟨hs.inRange,fun hwait => by cases hwait⟩,.wake s.link.wakeRingbuf⟩
  | wake _ _ => exact ⟨⟨hs.inRange,fun hwait => by cases hwait⟩,.wake 0⟩

/-- Every step of the callbacks and the daemon is one of a mailbox with a sleeping owner. -/
theorem Settled.step {e : LoopEvent} (hs : Settled cfg s) (he : PidInRange cfg s e)
    (h : Stepped cfg s e t) : Settled cfg t ∧ Mailbox.Step (mailbox s) (mailbox t) := by
  cases h with
  | pushFailed _ _ => exact ⟨hs,.stay⟩
  | push hidle hpush =>
    rename_i cpu pid q
    have hposted : q.items = (mailbox s).work ++ [pid] := (BoundedQueue.push_eq_some.mp hpush).2
    refine ⟨⟨fun pid' hpid' => ?_,hs.listEmpty⟩,?_⟩
    · rcases List.mem_append.mp (hposted ▸ hpid') with hold | hnew
      · exact hs.inRange pid' hold
      · rw [List.mem_singleton.mp hnew]
        exact he
    · have hbox := Mailbox.Step.post (s := mailbox s) cpu pid hidle
      rw [← hposted] at hbox
      exact hbox
  | setNeeded hduty => exact ⟨⟨hs.inRange,hs.listEmpty⟩,.raise _ hduty⟩
  | clear hidle hneeded => exact ⟨⟨hs.inRange,hs.listEmpty⟩,.lower _ hidle hneeded⟩
  | testOnly _ hneeded => exact ⟨⟨hs.inRange,hs.listEmpty⟩,unnoticed rfl rfl hneeded.symm rfl rfl⟩
  | sendWake hduty => exact ⟨⟨hs.inRange,hs.listEmpty⟩,.send _ hduty⟩
  | noDecision _ => exact ⟨hs,.stay⟩
  | popDecision _ => exact ⟨⟨hs.inRange,hs.listEmpty⟩,unnoticed rfl rfl rfl rfl rfl⟩
  | updateIdle _ => exact ⟨⟨hs.inRange,hs.listEmpty⟩,.raiseAgain⟩
  | updateIdleOnly _ => exact ⟨hs,.stay⟩
  | daemon h => exact hs.daemonStep h
  | signal =>
    refine ⟨⟨hs.inRange,fun hwait => ?_⟩,?_⟩
    · cases hpc : s.pc <;> simp [hpc] at hwait
    · cases hpc : s.pc with
      | wait => exact .wake s.link.wakeRingbuf
      | _ => exact unnoticed (by rw [hpc]) rfl rfl rfl rfl

/-- No lost wakeup: whenever the daemon is blocked and no callback is between its two steps,
records in the map have the flag set or a message unread, and the daemon's own list is empty. -/
theorem no_lost_wakeup {es : List LoopEvent} (hpids : ∀ cpu pid, .push cpu pid ∈ es → pid < cfg.pidMax)
    (hr : run (step cfg) start es = some s) (hwait : s.pc = .wait) (hduty : ∀ cpu, s.duty cpu = none) :
    (s.link.enqueued.items ≠ [] → s.link.userschedNeeded = true ∨ 0 < s.link.wakeRingbuf) ∧
      s.daemon.dispatchHead = [] := by
  have hrange := pidInRange_along hpids start
  have hstart : (mailbox start).Announced := fun hwork => (hwork rfl).elim
  obtain ⟨hsettled,hannounced⟩ := Mailbox.announced_of_run mailbox
    (fun s e t hs he h => (hs.step he (step_stepped h)).1)
    (fun s e t hs he h => (hs.step he (step_stepped h)).2) settled_start hstart hrange hr
  have hasleep : (mailbox s).looking = false := congrArg looking hwait
  exact ⟨hannounced.woken hasleep hduty,hsettled.listEmpty hwait⟩

/-- A record arrives while the daemon, done with the empty map, is on its way to block: the
dispatch on CPU 1 takes the flag and leaves a message. -/
def lateRecord : List LoopEvent :=
  [.daemon none true,.daemon none true,.push 0 7,.daemon none true,.setNeeded 0,.testAndClear 1,
    .daemon none true,.sendWake 1]

theorem no_lost_wakeup_late : ∃ s, run (step ⟨32768,1⟩) start lateRecord = some s ∧
    (s.pc = .wait ∧ s.link.enqueued.items = [7] ∧ s.link.userschedNeeded = false) ∧
    (s.link.enqueued.items ≠ [] → s.link.userschedNeeded = true ∨ 0 < s.link.wakeRingbuf) ∧
      s.daemon.dispatchHead = [] := by
  refine ⟨_,rfl,⟨rfl,rfl,rfl⟩,@no_lost_wakeup ⟨32768,1⟩ _ lateRecord ?_ rfl rfl ?_⟩
  · intro cpu pid hpid
    simp only [lateRecord,List.mem_cons,LoopEvent.push.injEq,reduceCtorEq,List.not_mem_nil,
      false_or,or_false] at hpid
    rw [hpid.2]
    decide
  · rintro (_ | _ | cpu) <;> rfl

/-! ## The callbacks and the daemon's functions are such steps -/

section Uninterrupted
variable {k : KernelSide} {cpu : ℕ}

theorem setDuty_setLink_done {l l' : Link} {d : Option Duty} (hidle : s.duty cpu = none) :
    ((((s.setLink l).setDuty cpu d).setLink l').setDuty cpu none) = s.setLink l' := by
  simp [setDuty,setLink,hidle]

theorem enqueueTaskInUserspace_run (p : Proc) (hlink : s.link = k.bss.link) (hidle : s.duty cpu = none) :
    ∃ es, run (step cfg) s es = some (s.setLink (k.enqueueTaskInUserspace p).bss.link) := by
  unfold KernelSide.enqueueTaskInUserspace
  cases hpush : k.bss.link.enqueued.push p.pid with
  | none =>
    refine ⟨[],?_⟩
    rw [← hlink]
    rfl
  | some q =>
    have hpushed : step cfg s (.push cpu p.pid) =
        some ((s.setLink { s.link with enqueued := q }).setDuty cpu (some .raise)) := by
      simp [step,hidle,hlink,hpush]
    refine ⟨[.push cpu p.pid,.setNeeded cpu],?_⟩
    rw [run_cons_of_step hpushed,← hlink]
    simp only [run_cons,run_nil,step]
    rw [if_pos (by simp [setDuty]),Option.bind_some,setDuty_setLink_done hidle]
    rfl

/-- Serving the daemon with a free slot in the ring buffer is the test and, if the flag was
set, the message. -/
theorem serveDaemon_run (userschedPid : ℕ) (hlink : s.link = k.bss.link) (hidle : s.duty cpu = none) :
    ∃ es, run (step cfg) s es = some (s.setLink (k.serveDaemon userschedPid true).bss.link) := by
  unfold KernelSide.serveDaemon Link.testAndClearUserschedNeeded
  cases hneeded : k.bss.link.userschedNeeded with
  | false =>
    refine ⟨[.testAndClear cpu],?_⟩
    simp [run_cons,step,hidle,Link.testAndClearUserschedNeeded,hlink,hneeded,KernelSide.setLink]
  | true =>
    have htested : step cfg s (.testAndClear cpu) =
        some ((s.setLink { s.link with userschedNeeded := false }).setDuty cpu (some .send)) := by
      simp [step,hidle,Link.testAndClearUserschedNeeded,hlink,hneeded]
    refine ⟨[.testAndClear cpu,.sendWake cpu],?_⟩
    rw [run_cons_of_step htested]
    simp only [run_cons,run_nil,step]
    rw [if_pos (by simp [setDuty]),Option.bind_some,setDuty_setLink_done hidle,hlink]
    unfold KernelSide.dispatchUserScheduler KernelSide.sendWakeMsg
    dsimp only [KernelSide.setLink]
    cases k.kern.pids.holder userschedPid <;> rfl

theorem drainEnqueuedMap_run (files : ℕ → Option (List UInt8)) (rounds : ℕ) (u : UserSide) :
    ∃ es pc, run (step cfg) { s with user := u, pc := .drain } es =
      some { s with user := u.drainEnqueuedMap cfg.pidMax files rounds, pc := pc } := by
  induction rounds generalizing u with
  | zero => exact ⟨[],.drain,rfl⟩
  | succ rounds ih =>
    unfold UserSide.drainEnqueuedMap
    rcases hround : u.drainRound cfg.pidMax (files rounds) with ⟨v,goesOn⟩
    cases goesOn with
    | false =>
      refine ⟨[.daemon (files rounds) true],.batch 0,?_⟩
      simp [run_cons,step,daemonStep,hround]
    | true =>
      obtain ⟨es,pc,hes⟩ := ih v
      refine ⟨.daemon (files rounds) true :: es,pc,?_⟩
      rw [run_cons_of_step (t := { s with user := v, pc := .drain }) (by simp [step,daemonStep,hround])]
      exact hes

theorem dispatchRounds_run (answers : ℕ → Bool) (i rounds : ℕ) (hi : i + rounds = cfg.batchSize.toNat)
    (u : UserSide) : ∃ es, run (step cfg) { s with user := u, pc := .batch i } es =
      some { s with user := (u.dispatchRounds answers rounds).endBatch, pc := .check } := by
  induction rounds generalizing i u with
  | zero =>
    refine ⟨[.daemon none true],?_⟩
    simp [run_cons,step,daemonStep,← hi,UserSide.dispatchRounds]
  | succ rounds ih =>
    have hlt : i < cfg.batchSize.toNat := by omega
    unfold UserSide.dispatchRounds
    rcases hround : u.dispatchRound (answers rounds) with ⟨v,goesOn⟩
    cases goesOn with
    | false =>
      refine ⟨[.daemon none (answers rounds)],?_⟩
      simp [run_cons,step,daemonStep,hlt,hround]
    | true =>
      obtain ⟨es,hes⟩ := ih (i + 1) (by omega) v
      refine ⟨.daemon none (answers rounds) :: es,?_⟩
      rw [run_cons_of_step (t := { s with user := v, pc := .batch (i + 1) })
        (by simp [step,daemonStep,hlt,hround])]
      exact hes

theorem dispatchBatch_run (answers : ℕ → Bool) (u : UserSide) :
    ∃ es, run (step cfg) { s with user := u, pc := .batch 0 } es =
      some { s with user := u.dispatchBatch cfg.batchSize answers, pc := .check } :=
  dispatchRounds_run answers 0 cfg.batchSize.toNat (Nat.zero_add _) u

end Uninterrupted

end MainLoop
end ServerlessSched.UserAssigned
