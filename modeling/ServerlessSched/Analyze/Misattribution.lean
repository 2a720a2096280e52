import ServerlessSched.Analyze.Attribution

/-! # When they are not

A PID that comes first on every line is followed alone. If a line misleads the script about it,
the result is wrong: a time taken too early stays, and a migration too many is never lost.
-/
namespace ServerlessSched.Analyze
open PythonText ParseTrace

variable {l : Line} {p : ℕ} {ps qs : List ℕ} {dict : EventDict ℕ}
variable {pid : ℕ} {w : Walk} {pids : List ℕ} {done : List Line}

/-! ## The PID that comes first -/

/-- The set iterated over with one PID in front. -/
def frontOrder (pid : ℕ) (_ : ℕ) (pidsStr : List Text) : List Text :=
  if pidsStr.contains (str pid) then str pid :: pidsStr.erase (str pid) else pidsStr

theorem frontOrder_perm (pid : ℕ) (i : ℕ) (s : List Text) : (frontOrder pid i s).Perm s := by
  unfold frontOrder
  split
  case isTrue h => exact (List.perm_cons_erase (List.contains_iff_mem.mp h)).symm
  case isFalse => exact List.Perm.rfl

/-- What the script does for a PID that comes first on every line, until it lets the PID go. -/
def soloStep (pid : ℕ) (s : Walk × Bool) (l : Line) : Walk × Bool :=
  if s.2 = true then (textStep pid s.1 l.event,!ends (str pid) l.event) else s

def soloWalk (pid : ℕ) (trace : List Line) (s : Walk × Bool) : Walk × Bool := trace.foldl (soloStep pid) s

theorem soloWalk_of_gone {s : Walk × Bool} (h : s.2 = false) (trace : List Line) : soloWalk pid trace s = s := by
  induction trace with
  | nil => rfl
  | cons l trace ih =>
    rw [soloWalk,List.foldl_cons,soloStep,if_neg (by rw [h]; decide)]
    exact ih

theorem front_visited (hqs : frontOrder pid 0 (ps.map str) = qs.map str) (hpid : pid ∈ ps) :
    pid ∈ visited l qs := by
  rw [frontOrder,if_pos (List.contains_iff_mem.mpr (List.mem_map_of_mem hpid))] at hqs
  cases qs with
  | nil => cases hqs
  | cons q qs =>
    obtain ⟨hq,-⟩ := List.cons.inj hqs
    cases str_injective hq
    rw [visited]
    split <;> exact List.mem_cons_self

/-- Between two lines, for the PID that comes first. -/
structure Fronted (pid : ℕ) (done : List Line) (ps : List ℕ) (dict : EventDict ℕ) : Prop where
  keys_nodup : dict.keys.Nodup
  nodup : ps.Nodup
  live : pid ∈ ps ↔ (soloWalk pid done (.start,true)).2 = true
  walk : (dict.get pid).foldl (textStep pid) .start = (soloWalk pid done (.start,true)).1

theorem Fronted.line (hs : Fronted pid done ps dict) (hqs : frontOrder pid 0 (ps.map str) = qs.map str) :
    Fronted pid (done ++ [l]) (ps.filter (fun p => p ∉ leaving l qs)) (collect l (visited l qs) dict) := by
  have hperm : qs.Perm ps := by
    apply (List.map_perm_map_iff str_injective).mp
    rw [← hqs]
    exact frontOrder_perm pid 0 _
  have hqsNodup : qs.Nodup := hperm.nodup_iff.mpr hs.nodup
  have hsolo : soloWalk pid (done ++ [l]) (.start,true) = soloStep pid (soloWalk pid done (.start,true)) l :=
    List.foldl_append
  refine ⟨(keys_collect hs.keys_nodup).1,hs.nodup.filter _,?_,?_⟩
  · rw [hsolo,soloStep,List.mem_filter,hs.live]
    cases hin : (soloWalk pid done (.start,true)).2 with
    | false => simp [hin]
    | true =>
      have hvisited : pid ∈ visited l qs := front_visited hqs (hs.live.mpr hin)
      simp [leaving,hvisited]
  · rw [hsolo,soloStep,get_collect (visited_nodup hqsNodup)]
    cases hin : (soloWalk pid done (.start,true)).2 with
    | false =>
      have hgone : pid ∉ visited l qs := by
        intro hf
        have hlive := hs.live.mp (hperm.subset (visited_subset pid hf))
        cases hin.symm.trans hlive
      rw [if_neg (fun hf => hgone hf.1),if_neg (by decide),hs.walk]
    | true =>
      have hvisited : pid ∈ visited l qs := front_visited hqs (hs.live.mpr hin)
      rw [if_pos rfl]
      cases hconcerns : concerns pid l with
      | true => rw [if_pos ⟨hvisited,rfl⟩,List.foldl_append,hs.walk]; rfl
      | false =>
        rw [if_neg (fun hf => by cases hf.2),hs.walk,
          textStep_of_not_contains (contains_of_not_concerns hconcerns)]

theorem Fronted.lines {rest : List Line} (hs : Fronted pid done ps dict) (i : ℕ) {events : EventDict ℕ}
    (h : scanLines (frontOrder pid) i (rest.map Line.raw) (ps.map str) dict = some events) :
    ∃ ps', Fronted pid (done ++ rest) ps' events := by
  induction rest generalizing done ps dict i with
  | nil =>
    cases h
    exact ⟨ps,by rwa [List.append_nil]⟩
  | cons l rest ih =>
    obtain ⟨qs,-,hset⟩ := perm_numerals (frontOrder_perm pid i (ps.map str))
    rw [List.map_cons,scanLines_cons hset] at h
    have hassoc : done ++ [l] ++ rest = done ++ l :: rest := by simp
    rw [← hassoc]
    exact ih (hs.line hset) (i + 1) h

theorem mem_of_getWorkloadTimes {pidsWargs : List (ℕ × ℕ)} {rows : List ((ℕ × ℕ) × WorkloadTimes)}
    (h : getWorkloadTimes pidsWargs dict = some rows) {row : (ℕ × ℕ) × WorkloadTimes} (hrow : row ∈ rows) :
    ∃ entry ∈ dict, workloadTimes pidsWargs entry.1 entry.2 = some row := by
  induction dict generalizing rows with
  | nil => cases h; cases hrow
  | cons entry rest ih =>
    obtain ⟨first,rows',hentry,hrows,rfl⟩ := getWorkloadTimes_cons.mp h
    rcases List.mem_cons.mp hrow with rfl | hrow
    · exact ⟨entry,List.mem_cons_self,hentry⟩
    · obtain ⟨entry',hmem,h'⟩ := ih hrows hrow
      exact ⟨entry',List.mem_cons_of_mem entry hmem,h'⟩

/-- A PID that comes first and gets its times has been walked as by its fields. -/
theorem solo_of_attributed {file : Text} {trace : List Line} (hfile : (lines file).drop 1 = trace.map Line.raw)
    {pidsWargs : List (ℕ × ℕ)} (hpids : (pidsWargs.map Prod.snd).Nodup) (hpid : pid ∈ pidsWargs.map Prod.snd)
    (hlives : reference pid trace ≠ none) (h : Attributed (frontOrder pid) file pidsWargs trace) :
    (soloWalk pid trace (.start,true)).1 = fieldWalk pid trace .start := by
  obtain ⟨events,rows,hevents,hrows,hperm⟩ := h
  obtain ⟨t,ht⟩ := Option.ne_none_iff_exists'.mp hlives
  obtain ⟨p,hp,rfl⟩ := List.mem_map.mp hpid
  rw [parseFtrace,hfile] at hevents
  have hstart : Fronted p.2 [] (pidsWargs.map Prod.snd) [] :=
    ⟨List.nodup_nil,hpids,iff_of_true hpid rfl,rfl⟩
  obtain ⟨ps,hfronted⟩ := hstart.lines 0 hevents
  have hrow : (p,t) ∈ rows := by
    have hmem : some (p,t) ∈ rows.map some := by
      apply hperm.symm.subset
      exact List.mem_map.mpr ⟨p,hp,by rw [ht]; rfl⟩
    simpa using hmem
  obtain ⟨⟨key,es⟩,hentry,hwork⟩ := mem_of_getWorkloadTimes hrows hrow
  obtain ⟨hkey,htimes⟩ := times_of_workloadTimes hwork
  dsimp only at hkey htimes
  subst hkey
  have hget := EventDict.get_of_mem hfronted.keys_nodup hentry
  rw [← hget,scanEvents_eq_foldl _ rfl,hfronted.walk] at htimes
  rw [List.nil_append] at htimes
  rw [walk_of_times htimes,fieldWalk_of_reference ht]

/-! ## A PID that is not clear -/

theorem fieldStep_of_act (pid : ℕ) (l : Line) (hw : w.exitTime = none) :
    fieldStep pid w l = w.perform l.time (w.act (l.details.marks pid)) := if_pos hw

theorem textStep_of_act (pid : ℕ) (l : Line) (hw : w.exitTime = none) :
    textStep pid w l.event = w.perform l.time (w.act (textMarks pid l.event)) := if_pos hw

/-- What a walk has found stays. -/
theorem Walk.step_stable (w : Walk) (m : Marks) (time : ℚ) :
    (∀ a, w.startTime = some a → (w.step m time).startTime = some a) ∧
      (∀ a, w.firstScheduledTime = some a → (w.step m time).firstScheduledTime = some a) ∧
      ∀ a, w.exitTime = some a → (w.step m time).exitTime = some a := by
  unfold Walk.step
  split
  case isFalse => exact ⟨fun _ h => h,fun _ h => h,fun _ h => h⟩
  case isTrue hexit =>
    have habsurd : ∀ a, w.exitTime = some a → False := fun a h => by cases hexit.symm.trans h
    rcases w.act_cases m with ⟨ha,hnone,-⟩ | ⟨ha,-,hnone,-⟩ | ⟨ha,-,-⟩ | ⟨ha,-⟩ | ha
    · rw [ha]
      exact ⟨fun a h => (by cases hnone.symm.trans h),fun _ h => h,fun a h => (habsurd a h).elim⟩
    · rw [ha]
      exact ⟨fun _ h => h,fun a h => (by cases hnone.symm.trans h),fun a h => (habsurd a h).elim⟩
    all_goals
      rw [ha]
      exact ⟨fun _ h => h,fun _ h => h,fun a h => (habsurd a h).elim⟩

/-- What a walk finds, it finds on the line it is at. -/
theorem Walk.step_found (w : Walk) (m : Marks) (time : ℚ) :
    (∀ a, (w.step m time).startTime = some a → w.startTime = some a ∨ time = a) ∧
      (∀ a, (w.step m time).firstScheduledTime = some a → w.firstScheduledTime = some a ∨ time = a) ∧
      ∀ a, (w.step m time).exitTime = some a → w.exitTime = some a ∨ time = a := by
  unfold Walk.step
  split
  case isFalse => exact ⟨fun _ h => Or.inl h,fun _ h => Or.inl h,fun _ h => Or.inl h⟩
  case isTrue =>
    cases w.act m with
    | start => exact ⟨fun _ h => Or.inr (Option.some.inj h),fun _ h => Or.inl h,fun _ h => Or.inl h⟩
    | schedule => exact ⟨fun _ h => Or.inl h,fun _ h => Or.inr (Option.some.inj h),fun _ h => Or.inl h⟩
    | exit => exact ⟨fun _ h => Or.inl h,fun _ h => Or.inl h,fun _ h => Or.inr (Option.some.inj h)⟩
    | migrate => exact ⟨fun _ h => Or.inl h,fun _ h => Or.inl h,fun _ h => Or.inl h⟩
    | pass => exact ⟨fun _ h => Or.inl h,fun _ h => Or.inl h,fun _ h => Or.inl h⟩

theorem soloWalk_stable (pid : ℕ) (trace : List Line) (s : Walk × Bool) :
    (∀ a, s.1.startTime = some a → (soloWalk pid trace s).1.startTime = some a) ∧
      (∀ a, s.1.firstScheduledTime = some a → (soloWalk pid trace s).1.firstScheduledTime = some a) ∧
      ∀ a, s.1.exitTime = some a → (soloWalk pid trace s).1.exitTime = some a := by
  induction trace generalizing s with
  | nil => exact ⟨fun _ h => h,fun _ h => h,fun _ h => h⟩
  | cons l trace ih =>
    obtain ⟨hstart,hsched,hexit⟩ := ih (soloStep pid s l)
    cases hs : s.2 with
    | false =>
      have hgone : soloStep pid s l = s := if_neg (by rw [hs]; decide)
      rw [hgone] at hstart hsched hexit
      rw [soloWalk,List.foldl_cons,hgone]
      exact ⟨hstart,hsched,hexit⟩
    | true =>
      have hin : (soloStep pid s l).1 = textStep pid s.1 l.event := by rw [soloStep,if_pos hs]
      rw [hin] at hstart hsched hexit
      obtain ⟨hstart',hsched',hexit'⟩ := Walk.step_stable s.1 (textMarks pid l.event) l.event.timestamp
      exact ⟨fun a h => hstart a (hstart' a h),fun a h => hsched a (hsched' a h),fun a h => hexit a (hexit' a h)⟩

theorem fieldWalk_found (pid : ℕ) (trace : List Line) (w : Walk) :
    (∀ a, (fieldWalk pid trace w).startTime = some a → w.startTime = some a ∨ ∃ l ∈ trace, l.time = a) ∧
      (∀ a, (fieldWalk pid trace w).firstScheduledTime = some a →
        w.firstScheduledTime = some a ∨ ∃ l ∈ trace, l.time = a) ∧
      ∀ a, (fieldWalk pid trace w).exitTime = some a → w.exitTime = some a ∨ ∃ l ∈ trace, l.time = a := by
  induction trace generalizing w with
  | nil => exact ⟨fun _ h => Or.inl h,fun _ h => Or.inl h,fun _ h => Or.inl h⟩
  | cons l trace ih =>
    have hlift : ∀ {P : Prop} {a : ℚ}, (P ∨ l.time = a) ∨ (∃ k ∈ trace, k.time = a) →
        P ∨ ∃ k ∈ l :: trace, k.time = a := by
      rintro P a ((h | h) | ⟨k,hk,h⟩)
      · exact Or.inl h
      · exact Or.inr ⟨l,List.mem_cons_self,h⟩
      · exact Or.inr ⟨k,List.mem_cons_of_mem l hk,h⟩
    obtain ⟨hstart,hsched,hexit⟩ := ih (fieldStep pid w l)
    obtain ⟨hstart',hsched',hexit'⟩ := Walk.step_found w (l.details.marks pid) l.time
    exact ⟨fun a h => hlift ((hstart a h).imp_left (hstart' a)),fun a h => hlift ((hsched a h).imp_left (hsched' a)),
      fun a h => hlift ((hexit a h).imp_left (hexit' a))⟩

/-- The same walk but for migrations counted too often. -/
structure Leads (w w' : Walk) : Prop where
  start : w.startTime = w'.startTime
  scheduled : w.firstScheduledTime = w'.firstScheduledTime
  exit : w.exitTime = none
  exit' : w'.exitTime = none
  migrations : w'.migrations ≤ w.migrations

theorem Leads.act {w' : Walk} (h : Leads w w') (m : Marks) : w.act m = w'.act m := by
  unfold Walk.act
  rw [h.start,h.scheduled]

theorem not_ends_of_migrate (h : (textMarks pid l.event).migrate = true) : ends (str pid) l.event = false := by
  obtain ⟨htype,-⟩ := Bool.and_eq_true_iff.mp h
  have hne : l.event.eventType ≠ Tracepoint.schedProcessExit.name := by
    rw [of_decide_eq_true htype]
    exact fun hf => by cases Tracepoint.name_injective hf
  simp [ends,hne]

/-- Taking a time from a line that does not have it cannot be made up for. -/
theorem Leads.diverge {w' : Walk} {rest : List Line} (hw : Leads w w') (hlater : ∀ k ∈ rest, l.time < k.time)
    (hact : w'.act (textMarks pid l.event) ≠ .pass) (hmigrate : w'.act (textMarks pid l.event) ≠ .migrate)
    (x : Bool) : (soloWalk pid rest (textStep pid w l.event,x)).1 ≠ fieldWalk pid rest w' := by
  intro hsame
  have htext := textStep_of_act pid l hw.exit
  rw [hw.act] at htext
  obtain ⟨hstart,hsched,hexit⟩ := soloWalk_stable pid rest (textStep pid w l.event,x)
  obtain ⟨hstart',hsched',hexit'⟩ := fieldWalk_found pid rest w'
  rw [hsame,htext] at hstart hsched hexit
  have hnotLater : ¬∃ k ∈ rest, k.time = l.time := by
    rintro ⟨k,hk,htime⟩
    exact (hlater k hk).ne htime.symm
  rcases w'.act_cases (textMarks pid l.event) with ⟨ha,hnone,-⟩ | ⟨ha,-,hnone,-⟩ | ⟨ha,-,-⟩ | ⟨ha,-⟩ | ha
  · rw [ha] at hstart
    rcases hstart' l.time (hstart l.time rfl) with hf | hf
    · cases hnone.symm.trans hf
    · exact hnotLater hf
  · rw [ha] at hsched
    rcases hsched' l.time (hsched l.time rfl) with hf | hf
    · cases hnone.symm.trans hf
    · exact hnotLater hf
  · rw [ha] at hexit
    rcases hexit' l.time (hexit l.time rfl) with hf | hf
    · cases hw.exit'.symm.trans hf
    · exact hnotLater hf
  · exact hmigrate ha
  · exact hact ha

theorem Leads.perform {w' : Walk} (hw : Leads w w') (time : ℚ) {a : Act} (ha : a ≠ .exit) :
    Leads (w.perform time a) (w'.perform time a) := by
  obtain ⟨hstart,hscheduled,hexit,hexit',hmigrations⟩ := hw
  cases a with
  | start => exact ⟨rfl,hscheduled,hexit,hexit',hmigrations⟩
  | schedule => exact ⟨hstart,rfl,hexit,hexit',hmigrations⟩
  | exit => exact absurd rfl ha
  | migrate => exact ⟨hstart,hscheduled,hexit,hexit',Int.add_le_add_right hmigrations 1⟩
  | pass => exact ⟨hstart,hscheduled,hexit,hexit',hmigrations⟩

theorem perform_migrations {w' : Walk} (time : ℚ) (a : Act)
    (h : (w.perform time a).migrations = (w'.perform time a).migrations) : w.migrations = w'.migrations := by
  cases a with
  | migrate => exact add_right_cancel h
  | _ => exact h

/-- With times that increase, no line can mislead the script without changing its result. -/
theorem clear_of_same {rest : List Line} (hstrict : rest.Pairwise (fun l k => l.time < k.time)) {w w' : Walk}
    (hw : Leads w w') (hend : (fieldWalk pid rest w').exitTime ≠ none)
    (hsame : (soloWalk pid rest (w,true)).1 = fieldWalk pid rest w') :
    w.migrations = w'.migrations ∧ ClearFrom pid w' rest := by
  induction rest generalizing w w' with
  | nil => exact absurd hw.exit' hend
  | cons l rest ih =>
    obtain ⟨hlater,hrest⟩ := List.pairwise_cons.mp hstrict
    have hfield := fieldStep_of_act pid l hw.exit'
    have htext := textStep_of_act pid l hw.exit
    rw [hw.act] at htext
    have hsolo : soloWalk pid (l :: rest) (w,true) =
        soloWalk pid rest (textStep pid w l.event,!ends (str pid) l.event) := rfl
    have hwalk : fieldWalk pid (l :: rest) w' = fieldWalk pid rest (fieldStep pid w' l) := rfl
    rw [hsolo,hwalk] at hsame
    rw [hwalk] at hend
    rcases act_found pid w' l.details with hact | ⟨hpass,hact⟩
    · rw [← textMarks_line] at hact
      rw [hact] at htext
      cases hends : ends (str pid) l.event with
      | true =>
        rw [hends,soloWalk_of_gone rfl] at hsame
        have hexit : w'.act (l.details.marks pid) = .exit := by
          by_contra hne
          rw [← hsame,htext,Ne,Walk.perform_exitTime hw.exit] at hend
          exact hend hne
        have hended : (fieldStep pid w' l).exitTime ≠ none := by
          rw [hfield,Ne,Walk.perform_exitTime hw.exit']
          exact not_not.mpr hexit
        rw [fieldWalk_of_exit hended,htext,hfield] at hsame
        refine ⟨perform_migrations _ _ (congrArg Walk.migrations hsame),fun _ => ⟨⟨hact,fun _ => hexit⟩,?_⟩⟩
        exact clearFrom_of_exit hended rest
      | false =>
        have hne : w'.act (l.details.marks pid) ≠ .exit := by
          intro hexit
          cases hends.symm.trans (ends_of_exit (Walk.exit_of_act hexit))
        rw [hends] at hsame
        have hleads := hw.perform l.time hne
        rw [← hfield,← htext] at hleads
        obtain ⟨hmigrations,hclear⟩ := ih hrest hleads hend hsame
        rw [hfield,htext] at hmigrations
        refine ⟨perform_migrations _ _ hmigrations,fun _ => ⟨⟨hact,fun hf => ?_⟩,hclear⟩⟩
        cases hends.symm.trans hf
    · rw [← textMarks_line] at hact
      have hstay : fieldStep pid w' l = w' := by rw [hfield,hpass]; rfl
      rw [hstay] at hsame hend
      by_cases hmigrate : w'.act (textMarks pid l.event) = .migrate
      · have hends := not_ends_of_migrate (Walk.migrate_of_act hmigrate)
        rw [hends] at hsame
        rw [hmigrate] at htext
        have hleads : Leads (textStep pid w l.event) w' := by
          rw [htext]
          exact ⟨hw.start,hw.scheduled,hw.exit,hw.exit',hw.migrations.trans (Int.le_add_one le_rfl)⟩
        -- One migration too many cannot be lost again.
        have hcount := (ih hrest hleads hend hsame).1
        rw [htext] at hcount
        have hmore : w.migrations + 1 = w'.migrations := hcount
        have hfewer := hw.migrations
        omega
      · exact absurd hsame (hw.diverge hlater hact hmigrate _)

theorem clear_of_attributed {file : Text} {trace : List Line} (hfile : (lines file).drop 1 = trace.map Line.raw)
    (hstrict : trace.Pairwise (fun l k => l.time < k.time)) {pidsWargs : List (ℕ × ℕ)}
    (hpids : (pidsWargs.map Prod.snd).Nodup) (hpid : pid ∈ pidsWargs.map Prod.snd)
    (hlives : reference pid trace ≠ none) (h : Attributed (frontOrder pid) file pidsWargs trace) :
    Clear pid trace := by
  obtain ⟨t,ht⟩ := Option.ne_none_iff_exists'.mp hlives
  have hsame := solo_of_attributed hfile hpids hpid hlives h
  have hend : (fieldWalk pid trace .start).exitTime ≠ none := by simp [fieldWalk_of_reference ht]
  exact (clear_iff pid trace).mpr (clear_of_same hstrict ⟨rfl,rfl,rfl,rfl,le_rfl⟩ hend hsame).2

/-- The script is right in every iteration order where every PID of the set is clear, and
nowhere else if no two lines have the same time. -/
theorem attributed_iff_clear {file : Text} {trace : List Line} {pidsWargs : List (ℕ × ℕ)}
    (hfile : (lines file).drop 1 = trace.map Line.raw) (hsorted : trace.Pairwise (fun l k => l.time ≤ k.time))
    (hpids : (pidsWargs.map Prod.snd).Nodup) (hlives : ∀ p ∈ pidsWargs.map Prod.snd, reference p trace ≠ none) :
    ((∀ p ∈ pidsWargs.map Prod.snd, Clear p trace) →
      ∀ order, (∀ i s, (order i s).Perm s) → Attributed order file pidsWargs trace) ∧
    (trace.Pairwise (fun l k => l.time ≠ k.time) →
      (∀ order, (∀ i s, (order i s).Perm s) → Attributed order file pidsWargs trace) →
      ∀ p ∈ pidsWargs.map Prod.snd, Clear p trace) := by
  constructor
  · exact fun hclear order horder => attributed_of_clear horder hfile hsorted hpids hlives hclear
  · intro hdistinct hright p hp
    have hstrict : trace.Pairwise (fun l k => l.time < k.time) :=
      (hsorted.and hdistinct).imp (fun h => lt_of_le_of_ne h.1 h.2)
    exact clear_of_attributed hfile hstrict hpids hp (hlives p hp) (hright _ (frontOrder_perm p))

section TwoProcesses

/-- A line of CPU 0 as the tracer prints it. -/
def printed (stamp : String) (d : Details) : Text :=
  "loadgen-7 [000] ".toList ++ stamp.toList ++ ": ".toList ++ d.tracepoint.name ++ ": ".toList ++ d.text

def eventOf (stamp : String) (time : ℚ) (d : Details) : TraceEvent :=
  ⟨"loadgen".toList,7,0,time,d.tracepoint.name,d.text,printed stamp d⟩

def lineOf (stamp : String) (time : ℚ) (d : Details)
    (h : parseEventFromLine (strip (printed stamp d)) = some (eventOf stamp time d)) : Line :=
  ⟨printed stamp d,eventOf stamp time d,d,h,rfl,rfl⟩

def fib : Text := "fib".toList

def low : Text := "120".toList

def twoProcesses : List Line :=
  [lineOf "1.0" 1 (.fork fib 7 fib 12) (by decide +kernel),
    lineOf "2.0" 2 (.fork fib 7 fib 123) (by decide +kernel),
    lineOf "3.0" 3 (.switch fib 7 low "S".toList fib 12 low) (by decide +kernel),
    lineOf "4.0" 4 (.switch fib 12 low "R".toList fib 123 low) (by decide +kernel),
    lineOf "5.0" 5 (.exit fib 123 low) (by decide +kernel),
    lineOf "6.0" 6 (.exit fib 12 low) (by decide +kernel)]

def traceFile (trace : List Line) : Text := join ['\n'] ("cpus=8".toList :: trace.map Line.raw) ++ ['\n']

/-- The exit of PID 123 is taken for that of PID 12, unless PID 123 comes first. -/
theorem exit_of_longer_pid :
    (parseFtrace (fun _ s => s) (traceFile twoProcesses) [12,123]).bind (getWorkloadTimes [(30,12),(31,123)]) =
      some [((30,12),⟨1,2,5,-1⟩),((31,123),⟨2,2,5,-1⟩)] ∧
    (parseFtrace (fun _ s => s.reverse) (traceFile twoProcesses) [12,123]).bind
      (getWorkloadTimes [(30,12),(31,123)]) = some [((30,12),⟨1,2,6,-1⟩),((31,123),⟨2,2,5,-1⟩)] ∧
    reference 12 twoProcesses = some ⟨1,2,6,-1⟩ ∧
    ¬Attributed (fun _ s => s) (traceFile twoProcesses) [(30,12),(31,123)] twoProcesses := by
  have hrows : (parseFtrace (fun _ s => s) (traceFile twoProcesses) [12,123]).bind
      (getWorkloadTimes [(30,12),(31,123)]) = some [((30,12),⟨1,2,5,-1⟩),((31,123),⟨2,2,5,-1⟩)] := by
    decide +kernel
  have htimes : reference 12 twoProcesses = some ⟨1,2,6,-1⟩ := by decide +kernel
  refine ⟨hrows,by decide +kernel,htimes,?_⟩
  rintro ⟨events,rows,hevents,hworkload,hperm⟩
  have hboth : some rows = some [((30,12),⟨1,2,5,-1⟩),((31,123),⟨2,2,5,-1⟩)] := by
    rw [← hrows,← hworkload]
    exact (congrArg (fun events => Option.bind events (getWorkloadTimes [(30,12),(31,123)])) hevents).symm
  cases hboth
  have hmem : some ((30,12),⟨1,2,6,-1⟩) ∈
      [((30,12),(⟨1,2,5,-1⟩ : WorkloadTimes)),((31,123),⟨2,2,5,-1⟩)].map some := by
    apply hperm.symm.subset
    rw [List.map_cons,htimes]
    exact List.mem_cons_self
  revert hmem
  decide

/-- Two jobs of which no PID's digits occur in the other's. -/
def apartProcesses : List Line :=
  [lineOf "1.0" 1 (.fork fib 7 fib 12) (by decide +kernel),
    lineOf "2.0" 2 (.fork fib 7 fib 345) (by decide +kernel),
    lineOf "3.0" 3 (.switch fib 7 low "S".toList fib 12 low) (by decide +kernel),
    lineOf "4.0" 4 (.switch fib 12 low "R".toList fib 345 low) (by decide +kernel),
    lineOf "5.0" 5 (.exit fib 345 low) (by decide +kernel),
    lineOf "6.0" 6 (.exit fib 12 low) (by decide +kernel)]

theorem attributed_iff_clear_two : (∀ p ∈ [12,345], Clear p apartProcesses) ∧
    reference 12 apartProcesses = some ⟨1,2,6,-1⟩ ∧ reference 345 apartProcesses = some ⟨2,2,5,-1⟩ ∧
    Attributed (fun _ s => s) (traceFile apartProcesses) [(30,12),(31,345)] apartProcesses ∧
    Attributed (fun _ s => s.reverse) (traceFile apartProcesses) [(30,12),(31,345)] apartProcesses := by
  have hclear : ∀ p ∈ [12,345], Clear p apartProcesses := by decide +kernel
  have htimes : reference 12 apartProcesses = some ⟨1,2,6,-1⟩ ∧
      reference 345 apartProcesses = some ⟨2,2,5,-1⟩ := by decide +kernel
  have hlives : ∀ p ∈ [12,345], reference p apartProcesses ≠ none := by
    intro p hp
    rcases List.mem_pair.mp hp with rfl | rfl
    · rw [htimes.1]
      exact Option.some_ne_none _
    · rw [htimes.2]
      exact Option.some_ne_none _
  have hpids : ([(30,12),(31,345)].map Prod.snd).Nodup := by decide
  have hfile : (lines (traceFile apartProcesses)).drop 1 = apartProcesses.map Line.raw := by decide +kernel
  have hright := (attributed_iff_clear hfile (by decide +kernel) hpids hlives).1 hclear
  exact ⟨hclear,htimes.1,htimes.2,hright _ (fun _ _ => List.Perm.rfl),hright _ (fun _ s => s.reverse_perm)⟩

/-- The first of them alone in the trace. -/
def oneProcess : List Line :=
  [lineOf "1.0" 1 (.fork fib 7 fib 12) (by decide +kernel),
    lineOf "3.0" 3 (.switch fib 7 low "S".toList fib 12 low) (by decide +kernel),
    lineOf "6.0" 6 (.exit fib 12 low) (by decide +kernel)]

end TwoProcesses

end ServerlessSched.Analyze
