import ServerlessSched.Analyze.ParseTrace
import Mathlib.Tactic.Linarith

/-! # Two ways to go through a trace for one PID

By the text of the details, as the script does, and by their fields. Both advance the same
walk; the one by fields ends with the times of the process.
-/
namespace ServerlessSched.Analyze
open PythonText ParseTrace

/-- What a line says of a PID. -/
structure Marks where
  fork : Bool
  switch : Bool
  exit : Bool
  migrate : Bool

/-- What the script finds in the text. -/
def textMarks (pid : ℕ) (event : TraceEvent) : Marks where
  fork := event.eventType = Tracepoint.schedProcessFork.name &&
    contains ("child_pid=".toList ++ str pid) event.details
  switch := event.eventType = Tracepoint.schedSwitch.name &&
    contains ("next_pid=".toList ++ str pid) event.details
  exit := event.eventType = Tracepoint.schedProcessExit.name &&
    contains ("pid=".toList ++ str pid) event.details
  migrate := event.eventType = Tracepoint.schedMigrateTask.name &&
    contains ("pid=".toList ++ str pid) event.details

/-- What the fields say. -/
def Details.marks (pid : ℕ) : Details → Marks
  | fork _ _ _ childPid => ⟨childPid = pid,false,false,false⟩
  | switch _ _ _ _ _ nextPid _ => ⟨false,nextPid = pid,false,false⟩
  | exit _ p _ => ⟨false,false,p = pid,false⟩
  | migrate _ p _ _ _ => ⟨false,false,false,p = pid⟩

inductive Act
  | start
  | schedule
  | exit
  | migrate
  | pass
deriving DecidableEq

namespace ParseTrace.Walk

def act (w : Walk) (m : Marks) : Act :=
  if w.startTime = none ∧ m.fork = true then .start
  else if w.startTime ≠ none ∧ w.firstScheduledTime = none ∧ m.switch = true then .schedule
  else if w.firstScheduledTime ≠ none ∧ m.exit = true then .exit
  else if m.migrate = true then .migrate
  else .pass

/-- What each act is for. -/
theorem act_cases (w : Walk) (m : Marks) :
    (w.act m = .start ∧ w.startTime = none ∧ m.fork = true) ∨
      (w.act m = .schedule ∧ w.startTime ≠ none ∧ w.firstScheduledTime = none ∧ m.switch = true) ∨
      (w.act m = .exit ∧ w.firstScheduledTime ≠ none ∧ m.exit = true) ∨
      (w.act m = .migrate ∧ m.migrate = true) ∨ w.act m = .pass := by
  unfold act
  split
  case isTrue h => exact Or.inl ⟨rfl,h⟩
  case isFalse =>
    right
    split
    case isTrue h => exact Or.inl ⟨rfl,h⟩
    case isFalse =>
      right
      split
      case isTrue h => exact Or.inl ⟨rfl,h⟩
      case isFalse =>
        right
        split
        case isTrue h => exact Or.inl ⟨rfl,h⟩
        case isFalse => exact Or.inr rfl

def perform (w : Walk) (time : ℚ) : Act → Walk
  | .start => { w with startTime := some time }
  | .schedule => { w with firstScheduledTime := some time }
  | .exit => { w with exitTime := some time }
  | .migrate => { w with migrations := w.migrations + 1 }
  | .pass => w

/-- Past the exit nothing is looked at. -/
def step (w : Walk) (m : Marks) (time : ℚ) : Walk :=
  if w.exitTime = none then w.perform time (w.act m) else w

end ParseTrace.Walk

def textStep (pid : ℕ) (w : Walk) (event : TraceEvent) : Walk := w.step (textMarks pid event) event.timestamp

def Line.time (l : Line) : ℚ := l.event.timestamp

def fieldStep (pid : ℕ) (w : Walk) (l : Line) : Walk := w.step (l.details.marks pid) l.time

def fieldWalk (pid : ℕ) (trace : List Line) (w : Walk) : Walk := trace.foldl (fieldStep pid) w

variable {pid : ℕ} {w : Walk} {event : TraceEvent} {l : Line}

theorem textStep_of_exit (h : w.exitTime ≠ none) : textStep pid w event = w := if_neg h

theorem fieldStep_of_exit (h : w.exitTime ≠ none) : fieldStep pid w l = w := if_neg h

theorem foldl_textStep_of_exit (h : w.exitTime ≠ none) (events : List TraceEvent) :
    events.foldl (textStep pid) w = w := by
  induction events with
  | nil => rfl
  | cons event events ih => rw [List.foldl_cons,textStep_of_exit h,ih]

theorem fieldWalk_of_exit (h : w.exitTime ≠ none) (trace : List Line) : fieldWalk pid trace w = w := by
  induction trace with
  | nil => rfl
  | cons l trace ih => rw [fieldWalk,List.foldl_cons,fieldStep_of_exit h]; exact ih

/-- The loop of the script is a walk by text. -/
theorem scanEvents_eq_foldl (events : List TraceEvent) (hw : w.exitTime = none) :
    scanEvents pid events w = events.foldl (textStep pid) w := by
  induction events generalizing w with
  | nil => rfl
  | cons event events ih =>
    rw [List.foldl_cons,scanEvents,textStep,Walk.step,if_pos hw,Walk.act]
    simp only [textMarks,Bool.and_eq_true,decide_eq_true_eq]
    split
    case isTrue h => exact ih hw
    case isFalse h =>
      split
      case isTrue h => exact ih hw
      case isFalse h =>
        split
        case isTrue h => exact (foldl_textStep_of_exit (by simp) events).symm
        case isFalse h =>
          split
          case isTrue h => exact ih hw
          case isFalse h => exact ih hw

/-! ## What the text says beyond the fields -/

/-- What the script finds in details of a known event. -/
def Details.found (pid : ℕ) (d : Details) : Marks :=
  match d with
  | fork .. => ⟨contains ("child_pid=".toList ++ str pid) d.text,false,false,false⟩
  | switch .. => ⟨false,contains ("next_pid=".toList ++ str pid) d.text,false,false⟩
  | exit .. => ⟨false,false,contains ("pid=".toList ++ str pid) d.text,false⟩
  | migrate .. => ⟨false,false,false,contains ("pid=".toList ++ str pid) d.text⟩

theorem textMarks_line (pid : ℕ) (l : Line) : textMarks pid l.event = l.details.found pid := by
  unfold textMarks Details.found
  rw [l.eventType,l.text]
  simp only [Tracepoint.name_injective.eq_iff]
  cases l.details with
  | fork => simp [Details.tracepoint]
  | switch => simp [Details.tracepoint]
  | migrate => simp [Details.tracepoint]
  | exit => simp [Details.tracepoint]

theorem contains_eq_true {sub s : Text} : contains sub s = true ↔ sub <:+: s := decide_eq_true_iff

theorem Details.contains_part {d : Details} {part : Text} (h : part ∈ d.parts) : contains part d.text = true :=
  contains_eq_true.mpr (infix_join h)

/-- A field that is the PID is found in the text. -/
theorem Details.found_of_marks (pid : ℕ) (d : Details) :
    ((d.marks pid).fork = true → (d.found pid).fork = true) ∧
      ((d.marks pid).switch = true → (d.found pid).switch = true) ∧
      ((d.marks pid).exit = true → (d.found pid).exit = true) ∧
      ((d.marks pid).migrate = true → (d.found pid).migrate = true) := by
  cases d with
  | fork comm p childComm childPid =>
    refine ⟨fun h => ?_,fun h => (by cases h),fun h => (by cases h),fun h => (by cases h)⟩
    cases of_decide_eq_true h
    have hpart : field "child_pid" (str pid) ∈ (fork comm p childComm pid).parts := by simp [parts]
    exact contains_part hpart
  | switch comm p prio state comm' p' prio' =>
    refine ⟨fun h => (by cases h),fun h => ?_,fun h => (by cases h),fun h => (by cases h)⟩
    cases of_decide_eq_true h
    have hpart : field "next_pid" (str pid) ∈ (switch comm p prio state comm' pid prio').parts := by simp [parts]
    exact contains_part hpart
  | migrate comm p prio orig dest =>
    refine ⟨fun h => (by cases h),fun h => (by cases h),fun h => (by cases h),fun h => ?_⟩
    cases of_decide_eq_true h
    have hpart : field "pid" (str pid) ∈ (migrate comm pid prio orig dest).parts := by simp [parts]
    exact contains_part hpart
  | exit comm p prio =>
    refine ⟨fun h => (by cases h),fun h => (by cases h),fun h => ?_,fun h => (by cases h)⟩
    cases of_decide_eq_true h
    have hpart : field "pid" (str pid) ∈ (exit comm pid prio).parts := by simp [parts]
    exact contains_part hpart

namespace ParseTrace.Walk

theorem act_fork (w : Walk) (b : Bool) :
    w.act ⟨b,false,false,false⟩ = if w.startTime = none ∧ b = true then .start else .pass := by
  simp [act]

theorem act_switch (w : Walk) (b : Bool) : w.act ⟨false,b,false,false⟩ =
    if (w.startTime ≠ none ∧ w.firstScheduledTime = none) ∧ b = true then .schedule else .pass := by
  simp [act,and_assoc]

theorem act_exit (w : Walk) (b : Bool) :
    w.act ⟨false,false,b,false⟩ = if w.firstScheduledTime ≠ none ∧ b = true then .exit else .pass := by
  simp [act]

theorem act_migrate (w : Walk) (b : Bool) :
    w.act ⟨false,false,false,b⟩ = if True ∧ b = true then .migrate else .pass := by
  simp [act]

end ParseTrace.Walk

theorem Act.ite_cases {x : Act} (hx : x ≠ .pass) (P : Prop) [Decidable P] {b b' : Bool}
    (h : b' = true → b = true) :
    (if P ∧ b = true then x else .pass) = (if P ∧ b' = true then x else .pass) ∨
      (if P ∧ b' = true then x else .pass) = .pass ∧ (if P ∧ b = true then x else .pass) ≠ .pass := by
  by_cases hP : P
  · cases b' with
    | true => exact Or.inl (by simp [hP,h rfl])
    | false => cases b <;> simp [hP,hx]
  · exact Or.inl (by simp [hP])

/-- Where the fields ask for something, the text asks for the same. -/
theorem act_found (pid : ℕ) (w : Walk) (d : Details) :
    w.act (d.found pid) = w.act (d.marks pid) ∨
      w.act (d.marks pid) = .pass ∧ w.act (d.found pid) ≠ .pass := by
  obtain ⟨hfork,hswitch,hexit,hmigrate⟩ := d.found_of_marks pid
  cases d with
  | fork =>
    rw [Details.found,Details.marks,Walk.act_fork,Walk.act_fork]
    exact Act.ite_cases (by decide) _ hfork
  | switch =>
    rw [Details.found,Details.marks,Walk.act_switch,Walk.act_switch]
    exact Act.ite_cases (by decide) _ hswitch
  | exit =>
    rw [Details.found,Details.marks,Walk.act_exit,Walk.act_exit]
    exact Act.ite_cases (by decide) _ hexit
  | migrate =>
    rw [Details.found,Details.marks,Walk.act_migrate,Walk.act_migrate]
    exact Act.ite_cases (by decide) _ hmigrate

theorem contains_of_append {a b s : Text} (h : contains (a ++ b) s = true) : contains b s = true :=
  contains_eq_true.mpr ((List.suffix_append a b).isInfix.trans (contains_eq_true.mp h))

/-- Without the digits of the PID, the text says nothing of it. -/
theorem textStep_of_not_contains (h : contains (str pid) event.details = false) : textStep pid w event = w := by
  have hnone : ∀ a, contains (a ++ str pid) event.details = false := by
    intro a
    cases ha : contains (a ++ str pid) event.details with
    | false => rfl
    | true => exact absurd (contains_of_append ha) (by simp [h])
  have hmarks : textMarks pid event = ⟨false,false,false,false⟩ := by
    rw [textMarks,hnone,hnone,hnone]
    simp only [Bool.and_false]
  have hact : w.act ⟨false,false,false,false⟩ = .pass := by simp [Walk.act]
  rw [textStep,Walk.step,hmarks,hact]
  exact ite_self w

theorem contains_of_ends (h : ends (str pid) event = true) : contains (str pid) event.details = true := by
  obtain ⟨-,htext⟩ := Bool.and_eq_true_iff.mp h
  apply contains_eq_true.mpr
  have hpid : str pid <:+: "pid=".toList ++ str pid ++ [' '] := ⟨"pid=".toList,[' '],rfl⟩
  exact hpid.trans (contains_eq_true.mp htext)

theorem join_three (sep a b c : Text) : join sep [a,b,c] = a ++ sep ++ (b ++ sep ++ c) := by
  simp only [join,List.intercalate_cons_cons,List.intercalate_singleton]

/-- The exit of a process ends the search for its PID. -/
theorem ends_of_exit (h : (l.details.marks pid).exit = true) : ends (str pid) l.event = true := by
  rw [ends,l.eventType,l.text]
  generalize l.details = d at h ⊢
  cases d with
  | exit comm p prio =>
    cases of_decide_eq_true h
    apply Bool.and_eq_true_iff.mpr
    refine ⟨decide_eq_true rfl,contains_eq_true.mpr ?_⟩
    refine ⟨field "comm" comm ++ [' '],field "prio" prio,?_⟩
    rw [Details.text,Details.parts,join_three]
    simp only [field,List.append_assoc]
    rfl
  | _ => cases h

/-! ## The times of a process -/

/-- A trace cut at the first line with a property. -/
structure Cut where
  before : List Line
  line : Line
  after : List Line

def cutAt (q : Line → Bool) (trace : List Line) : Option Cut :=
  match trace.dropWhile (fun l => !q l) with
  | [] => none
  | line :: after => some ⟨trace.takeWhile (fun l => !q l),line,after⟩

theorem cutAt_eq_some {q : Line → Bool} {trace : List Line} {c : Cut} (h : cutAt q trace = some c) :
    trace = c.before ++ c.line :: c.after ∧ q c.line = true ∧ ∀ l ∈ c.before, q l = false := by
  unfold cutAt at h
  split at h
  case h_1 => cases h
  case h_2 line after hdrop =>
    cases h
    refine ⟨?_,?_,?_⟩
    · rw [← hdrop,List.takeWhile_append_dropWhile]
    · have hne : trace.dropWhile (fun l => !q l) ≠ [] := by
        rw [hdrop]
        exact List.cons_ne_nil line after
      have hhead := List.head_dropWhile_not _ hne
      simpa [hdrop] using hhead
    · intro l hl
      simpa using List.mem_takeWhile_imp hl

/-- The first fork of the PID, the first switch to it after that, and its first exit after
that; of its migrations before, the one out of the affinity set does not count. -/
def reference (pid : ℕ) (trace : List Line) : Option WorkloadTimes :=
  (cutAt (fun l => (l.details.marks pid).fork) trace).bind (fun fork =>
    (cutAt (fun l => (l.details.marks pid).switch) fork.after).bind (fun scheduled =>
      (cutAt (fun l => (l.details.marks pid).exit) scheduled.after).map (fun exit =>
        ⟨fork.line.time,scheduled.line.time - fork.line.time,exit.line.time,
          (fork.before ++ fork.line :: (scheduled.before ++ scheduled.line :: exit.before)).countP
            (fun l => (l.details.marks pid).migrate) - 1⟩)))

def migrationsOf (pid : ℕ) (trace : List Line) : ℕ := trace.countP (fun l => (l.details.marks pid).migrate)

/-- Lines that do not move the walk on only add migrations. -/
theorem fieldWalk_idle {trace : List Line} (hw : w.exitTime = none)
    (h : ∀ l ∈ trace, w.act (l.details.marks pid) = if (l.details.marks pid).migrate then .migrate else .pass) :
    fieldWalk pid trace w = { w with migrations := w.migrations + migrationsOf pid trace } := by
  induction trace generalizing w with
  | nil => simp [fieldWalk,migrationsOf]
  | cons l trace ih =>
    have hact := h l List.mem_cons_self
    have hrest : ∀ k ∈ trace, w.act (k.details.marks pid) =
        if (k.details.marks pid).migrate then .migrate else .pass := fun k hk => h k (List.mem_cons_of_mem l hk)
    rw [fieldWalk,List.foldl_cons,fieldStep,Walk.step,if_pos hw,hact,migrationsOf,List.countP_cons]
    cases hm : (l.details.marks pid).migrate with
    | false =>
      have htail := ih hw hrest
      simpa [fieldWalk,Walk.perform,migrationsOf] using htail
    | true =>
      have htail := ih (w := { w with migrations := w.migrations + 1 }) hw hrest
      simp only [fieldWalk] at htail
      simp only [Walk.perform,if_true,htail,migrationsOf]
      congr 1
      push_cast
      omega

theorem Details.act_of_not_fork {d : Details} (hstart : w.startTime = none) (hsched : w.firstScheduledTime = none)
    (h : (d.marks pid).fork = false) :
    w.act (d.marks pid) = if (d.marks pid).migrate then .migrate else .pass := by
  simp [Walk.act,hstart,hsched,h]

theorem Details.act_of_not_switch {d : Details} (hstart : w.startTime ≠ none) (hsched : w.firstScheduledTime = none)
    (h : (d.marks pid).switch = false) :
    w.act (d.marks pid) = if (d.marks pid).migrate then .migrate else .pass := by
  simp [Walk.act,hstart,hsched,h]

theorem Details.act_of_not_exit {d : Details} (hstart : w.startTime ≠ none) (hsched : w.firstScheduledTime ≠ none)
    (h : (d.marks pid).exit = false) :
    w.act (d.marks pid) = if (d.marks pid).migrate then .migrate else .pass := by
  simp [Walk.act,hstart,hsched,h]

theorem Details.not_migrate {d : Details}
    (h : (d.marks pid).fork = true ∨ (d.marks pid).switch = true ∨ (d.marks pid).exit = true) :
    (d.marks pid).migrate = false := by
  cases d with
  | migrate => rcases h with h | h | h <;> cases h
  | _ => rfl

theorem fieldWalk_append (pid : ℕ) (ls ms : List Line) (w : Walk) :
    fieldWalk pid (ls ++ ms) w = fieldWalk pid ms (fieldWalk pid ls w) := List.foldl_append

/-- The walk by fields ends with the times of the process. -/
theorem fieldWalk_of_reference {trace : List Line} {t : WorkloadTimes} (h : reference pid trace = some t) :
    fieldWalk pid trace .start =
      ⟨some t.startTime,some (t.startTime + t.startupLatency),some t.exitTime,t.migrations⟩ := by
  obtain ⟨fork,hfork,h⟩ := Option.bind_eq_some_iff.mp h
  obtain ⟨scheduled,hscheduled,h⟩ := Option.bind_eq_some_iff.mp h
  obtain ⟨exit,hexit,rfl⟩ := Option.map_eq_some_iff.mp h
  obtain ⟨htrace,hforked,hbeforeFork⟩ := cutAt_eq_some hfork
  obtain ⟨hafterFork,hswitched,hbeforeSwitch⟩ := cutAt_eq_some hscheduled
  obtain ⟨hafterSwitch,hexited,hbeforeExit⟩ := cutAt_eq_some hexit
  have hforkWalk : fieldWalk pid (fork.before ++ [fork.line]) .start =
      ⟨some fork.line.time,none,none,-1 + migrationsOf pid fork.before⟩ := by
    rw [fieldWalk_append,fieldWalk_idle rfl (fun l hl => Details.act_of_not_fork rfl rfl (hbeforeFork l hl))]
    simp [fieldWalk,fieldStep,Walk.step,Walk.act,Walk.start,Walk.perform,hforked]
  have hswitchWalk : ∀ m, fieldWalk pid (scheduled.before ++ [scheduled.line]) ⟨some fork.line.time,none,none,m⟩ =
      ⟨some fork.line.time,some scheduled.line.time,none,m + migrationsOf pid scheduled.before⟩ := by
    intro m
    rw [fieldWalk_append,
      fieldWalk_idle rfl (fun l hl => Details.act_of_not_switch (by simp) rfl (hbeforeSwitch l hl))]
    simp [fieldWalk,fieldStep,Walk.step,Walk.act,Walk.perform,hswitched]
  have hexitWalk : ∀ m, fieldWalk pid (exit.before ++ [exit.line])
      ⟨some fork.line.time,some scheduled.line.time,none,m⟩ =
      ⟨some fork.line.time,some scheduled.line.time,some exit.line.time,m + migrationsOf pid exit.before⟩ := by
    intro m
    rw [fieldWalk_append,
      fieldWalk_idle rfl (fun l hl => Details.act_of_not_exit (by simp) (by simp) (hbeforeExit l hl))]
    simp [fieldWalk,fieldStep,Walk.step,Walk.act,Walk.perform,hexited]
  have hcuts : trace = (fork.before ++ [fork.line]) ++ ((scheduled.before ++ [scheduled.line]) ++
      ((exit.before ++ [exit.line]) ++ exit.after)) := by
    rw [htrace,hafterFork,hafterSwitch]
    simp only [List.append_assoc,List.singleton_append]
  rw [hcuts,fieldWalk_append,hforkWalk,fieldWalk_append,hswitchWalk,fieldWalk_append,hexitWalk,
    fieldWalk_of_exit (by simp)]
  have hforkCount := Details.not_migrate (Or.inl hforked)
  have hswitchCount := Details.not_migrate (Or.inr (Or.inl hswitched))
  simp only [Walk.mk.injEq,true_and,migrationsOf,List.countP_append,List.countP_cons,hforkCount,hswitchCount]
  refine ⟨by rw [add_sub_cancel],?_⟩
  push_cast
  omega

theorem reference_le {trace : List Line} (hsorted : trace.Pairwise (fun l k => l.time ≤ k.time))
    {t : WorkloadTimes} (h : reference pid trace = some t) :
    t.startTime ≤ t.exitTime ∧ t.startTime + t.startupLatency ≤ t.exitTime := by
  obtain ⟨fork,hfork,h⟩ := Option.bind_eq_some_iff.mp h
  obtain ⟨scheduled,hscheduled,h⟩ := Option.bind_eq_some_iff.mp h
  obtain ⟨exit,hexit,rfl⟩ := Option.map_eq_some_iff.mp h
  obtain ⟨htrace,-,-⟩ := cutAt_eq_some hfork
  obtain ⟨hafterFork,-,-⟩ := cutAt_eq_some hscheduled
  obtain ⟨hafterSwitch,-,-⟩ := cutAt_eq_some hexit
  have hexitMem : exit.line ∈ scheduled.after := by simp [hafterSwitch]
  have hexitMem' : exit.line ∈ fork.after := by simp [hafterFork,hexitMem]
  rw [htrace] at hsorted
  obtain ⟨hforkLe,hafter⟩ := List.pairwise_cons.mp (List.pairwise_append.mp hsorted).2.1
  rw [hafterFork] at hafter
  obtain ⟨hschedLe,-⟩ := List.pairwise_cons.mp (List.pairwise_append.mp hafter).2.1
  refine ⟨hforkLe _ hexitMem',?_⟩
  rw [add_sub_cancel]
  exact hschedLe _ hexitMem

/-- In a trace in time order those times pass the checks of the script. -/
theorem times_of_reference {trace : List Line} (hsorted : trace.Pairwise (fun l k => l.time ≤ k.time))
    {t : WorkloadTimes} (h : reference pid trace = some t) : (fieldWalk pid trace .start).times = some t := by
  obtain ⟨hstart,hlatency⟩ := reference_le hsorted h
  rw [fieldWalk_of_reference h,Walk.times]
  dsimp only
  rw [add_sub_cancel_left,if_neg]
  rintro (hlt | hlt)
  · exact absurd hstart (not_le.mpr hlt)
  · linarith

/-- A walk ends with given times exactly when it has found them. -/
theorem walk_of_times {w : Walk} {t : WorkloadTimes} (h : w.times = some t) :
    w = ⟨some t.startTime,some (t.startTime + t.startupLatency),some t.exitTime,t.migrations⟩ := by
  obtain ⟨start,sched,exit,m⟩ := w
  unfold Walk.times at h
  split at h
  case h_1 a b c ha hb hc =>
    dsimp only at h ha hb hc
    split at h
    case isTrue => cases h
    case isFalse =>
      cases h
      rw [ha,hb,hc,add_sub_cancel]
  case h_2 => cases h

end ServerlessSched.Analyze
