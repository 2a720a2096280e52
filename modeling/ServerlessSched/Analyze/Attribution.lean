import ServerlessSched.Analyze.Collecting

/-! # When the events of a trace are attributed to their PIDs

The script looks for digits where it means numbers. Its times are those of the processes as
long as, up to the exit of each, no line shows the text that is looked for without the field.
-/
namespace ServerlessSched.Analyze
open PythonText ParseTrace

variable {l : Line} {p : ℕ} {ps qs : List ℕ} {dict : EventDict ℕ}
variable {pid : ℕ} {w : Walk} {pids : List ℕ} {done : List Line}

/-! ## When the text agrees with the fields -/

/-- The script takes the line as the fields have it, and lets the PID go at its exit. -/
def Agree (pid : ℕ) (w : Walk) (l : Line) : Prop :=
  w.act (textMarks pid l.event) = w.act (l.details.marks pid) ∧
    (ends (str pid) l.event = true → w.act (l.details.marks pid) = .exit)

/-- Up to the exit of the process, every line says of its PID what the fields say. -/
def Clear (pid : ℕ) (trace : List Line) : Prop :=
  ∀ before l after, trace = before ++ l :: after → (fieldWalk pid before .start).exitTime = none →
    Agree pid (fieldWalk pid before .start) l

/-- The same line by line. -/
def ClearFrom (pid : ℕ) : Walk → List Line → Prop
  | _, [] => True
  | w, l :: rest => w.exitTime = none → Agree pid w l ∧ ClearFrom pid (fieldStep pid w l) rest

instance (pid : ℕ) (w : Walk) (l : Line) : Decidable (Agree pid w l) := inferInstanceAs (Decidable (_ ∧ _))

instance decidableClearFrom (pid : ℕ) : (w : Walk) → (trace : List Line) → Decidable (ClearFrom pid w trace)
  | _, [] => isTrue trivial
  | w, l :: rest =>
    have : Decidable (ClearFrom pid (fieldStep pid w l) rest) := decidableClearFrom pid (fieldStep pid w l) rest
    inferInstanceAs (Decidable (_ → _))

theorem clearFrom_iff (pid : ℕ) (trace : List Line) (w : Walk) : ClearFrom pid w trace ↔
    ∀ before l after, trace = before ++ l :: after → (fieldWalk pid before w).exitTime = none →
      Agree pid (fieldWalk pid before w) l := by
  induction trace generalizing w with
  | nil =>
    refine iff_of_true trivial ?_
    intro before l after h
    cases before <;> cases h
  | cons l trace ih =>
    constructor
    · intro h before k after hsplit hexit
      have hnone : w.exitTime = none := by
        by_contra hne
        rw [fieldWalk_of_exit hne] at hexit
        exact hne hexit
      obtain ⟨hfirst,hrest⟩ := h hnone
      cases before with
      | nil =>
        obtain ⟨rfl,-⟩ := List.cons.inj hsplit
        exact hfirst
      | cons l' before =>
        obtain ⟨rfl,htail⟩ := List.cons.inj hsplit
        exact (ih (fieldStep pid w l)).mp hrest before k after htail hexit
    · intro h hnone
      refine ⟨h [] l trace rfl hnone,(ih (fieldStep pid w l)).mpr ?_⟩
      intro before k after hsplit hexit
      exact h (l :: before) k after (by rw [hsplit]; rfl) hexit

theorem clearFrom_of_exit (h : w.exitTime ≠ none) (trace : List Line) : ClearFrom pid w trace := by
  cases trace with
  | nil => trivial
  | cons l trace => exact fun hnone => absurd hnone h

theorem clear_iff (pid : ℕ) (trace : List Line) : Clear pid trace ↔ ClearFrom pid .start trace :=
  (clearFrom_iff pid trace .start).symm

instance (pid : ℕ) (trace : List Line) : Decidable (Clear pid trace) :=
  decidable_of_iff _ (clear_iff pid trace).symm

/-- The rows of the script are the times of the processes, in some order. -/
def Attributed (order : ℕ → List Text → List Text) (file : Text) (pidsWargs : List (ℕ × ℕ)) (trace : List Line) :
    Prop :=
  ∃ events rows, parseFtrace order file (pidsWargs.map Prod.snd) = some events ∧
    getWorkloadTimes pidsWargs events = some rows ∧
    (rows.map some).Perm (pidsWargs.map (fun p => (reference p.2 trace).map (fun t => (p,t))))

theorem Agree.textStep (h : Agree pid w l) : textStep pid w l.event = fieldStep pid w l := by
  rw [Analyze.textStep,fieldStep,Walk.step,Walk.step,h.1]
  rfl

theorem Walk.exit_of_act {m : Marks} (h : w.act m = .exit) : m.exit = true := by
  rcases w.act_cases m with ⟨ha,-⟩ | ⟨ha,-⟩ | ⟨-,-,hexit⟩ | ⟨ha,-⟩ | ha
  case inr.inr.inl => exact hexit
  all_goals cases h.symm.trans ha

theorem Walk.migrate_of_act {m : Marks} (h : w.act m = .migrate) : m.migrate = true := by
  rcases w.act_cases m with ⟨ha,-⟩ | ⟨ha,-⟩ | ⟨ha,-⟩ | ⟨-,hmigrate⟩ | ha
  case inr.inr.inr.inl => exact hmigrate
  all_goals cases h.symm.trans ha

/-- An exit is that of one process. -/
theorem Details.exit_unique {d : Details} {q : ℕ} (hp : (d.marks p).exit = true) (hq : (d.marks q).exit = true) :
    p = q := by
  cases d with
  | exit comm r prio => exact (of_decide_eq_true hp).symm.trans (of_decide_eq_true hq)
  | _ => cases hp

theorem Details.act_of_other {d : Details} {q : ℕ} (hq : (d.marks q).exit = true) (hne : q ≠ p) :
    w.act (d.marks p) = .pass := by
  cases d with
  | exit comm r prio =>
    cases of_decide_eq_true hq
    simp [Details.marks,Walk.act,hne]
  | _ => cases hq

theorem Walk.perform_exitTime (hw : w.exitTime = none) (time : ℚ) (a : Act) :
    (w.perform time a).exitTime = none ↔ a ≠ .exit := by
  cases a <;> simp [Walk.perform,hw]

/-- Between two lines: the PIDs still looked for are those that have not exited, and what is
collected for a PID leads as far as the fields do. -/
structure Followed (pids : List ℕ) (done : List Line) (ps : List ℕ) (dict : EventDict ℕ) : Prop where
  keys_nodup : dict.keys.Nodup
  keys_mem : ∀ k ∈ dict.keys, k ∈ pids
  nodup : ps.Nodup
  live : ∀ p, p ∈ ps ↔ p ∈ pids ∧ (fieldWalk p done .start).exitTime = none
  walks : ∀ p ∈ pids, (dict.get p).foldl (Analyze.textStep p) .start = fieldWalk p done .start

theorem Followed.line (hs : Followed pids done ps dict) (hqs : qs.Perm ps)
    (hagree : ∀ p ∈ ps, Agree p (fieldWalk p done .start) l) :
    Followed pids (done ++ [l]) (ps.filter (fun p => p ∉ leaving l qs)) (collect l (visited l qs) dict) := by
  have hqsNodup : qs.Nodup := hqs.nodup_iff.mpr hs.nodup
  have hexit : ∀ q ∈ visited l qs, ends (str q) l.event = true → (l.details.marks q).exit = true :=
    fun q hq hends => Walk.exit_of_act ((hagree q (hqs.subset (visited_subset q hq))).2 hends)
  have hwalk : ∀ p, fieldWalk p (done ++ [l]) .start = fieldStep p (fieldWalk p done .start) l :=
    fun p => fieldWalk_append p done [l] .start
  refine ⟨(keys_collect hs.keys_nodup).1,?_,hs.nodup.filter _,fun p => ?_,fun p hp => ?_⟩
  · intro k hk
    rcases (keys_collect hs.keys_nodup).2 k hk with hk | hk
    · exact hs.keys_mem k hk
    · exact ((hs.live k).mp (hqs.subset (visited_subset k hk))).1
  · rw [hwalk,List.mem_filter,hs.live,and_assoc]
    apply and_congr_right
    intro hp
    cases hw : (fieldWalk p done .start).exitTime with
    | some time =>
      have hdone : (fieldWalk p done .start).exitTime ≠ none := by simp [hw]
      simp [fieldStep_of_exit hdone,hw]
    | none =>
      have hpqs : p ∈ qs := hqs.symm.subset ((hs.live p).mpr ⟨hp,hw⟩)
      have hag := hagree p (hqs.subset hpqs)
      rw [fieldStep,Walk.step,if_pos hw,Walk.perform_exitTime hw]
      simp only [true_and,decide_eq_true_eq]
      apply not_congr
      constructor
      · intro hleaving
        exact hag.2 (List.mem_filter.mp hleaving).2
      · intro hact
        have hmark := Walk.exit_of_act hact
        rcases mem_visited_or hpqs with hvisited | ⟨q,hq,hends,hne⟩
        · exact List.mem_filter.mpr ⟨hvisited,ends_of_exit hmark⟩
        · exact absurd (Details.exit_unique (hexit q hq hends) hmark) hne
  · rw [hwalk,get_collect (visited_nodup hqsNodup)]
    cases hw : (fieldWalk p done .start).exitTime with
    | some time =>
      have hdone : (fieldWalk p done .start).exitTime ≠ none := by simp [hw]
      have hgone : p ∉ visited l qs := by
        intro hf
        exact hdone ((hs.live p).mp (hqs.subset (visited_subset p hf))).2
      rw [if_neg (fun hf => hgone hf.1),hs.walks p hp,fieldStep_of_exit hdone]
    | none =>
      have hpqs : p ∈ qs := hqs.symm.subset ((hs.live p).mpr ⟨hp,hw⟩)
      have hag := (hagree p (hqs.subset hpqs)).textStep
      by_cases hvisited : p ∈ visited l qs
      · cases hconcerns : concerns p l with
        | true => rw [if_pos ⟨hvisited,rfl⟩,List.foldl_append,hs.walks p hp,← hag]; rfl
        | false =>
          rw [if_neg (fun hf => by cases hf.2),hs.walks p hp,← hag,
            textStep_of_not_contains (contains_of_not_concerns hconcerns)]
      · -- The loop was left at the exit of another process, which says nothing of this one.
        obtain ⟨q,hq,hends,hne⟩ := (mem_visited_or hpqs).resolve_left hvisited
        have hpass := Details.act_of_other (w := fieldWalk p done .start) (hexit q hq hends) hne
        rw [if_neg (fun hf => hvisited hf.1),hs.walks p hp,fieldStep,Walk.step,if_pos hw,hpass]
        rfl

/-- The whole file, with any iteration order. -/
theorem Followed.lines {order : ℕ → List Text → List Text} (horder : ∀ i s, (order i s).Perm s)
    {rest : List Line} (hclear : ∀ p ∈ pids, Clear p (done ++ rest)) (hs : Followed pids done ps dict) (i : ℕ) :
    ∃ events ps', scanLines order i (rest.map Line.raw) (ps.map str) dict = some events ∧
      Followed pids (done ++ rest) ps' events := by
  induction rest generalizing done ps dict i with
  | nil => exact ⟨dict,ps,rfl,by rwa [List.append_nil]⟩
  | cons l rest ih =>
    obtain ⟨qs,hqs,hset⟩ := perm_numerals (horder i (ps.map str))
    have hagree : ∀ p ∈ ps, Agree p (fieldWalk p done .start) l := by
      intro p hp
      obtain ⟨hmem,hexit⟩ := (hs.live p).mp hp
      exact hclear p hmem done l rest rfl hexit
    have hnext := hs.line hqs hagree
    have hassoc : done ++ [l] ++ rest = done ++ l :: rest := by simp
    rw [← hassoc] at hclear ⊢
    rw [List.map_cons,scanLines_cons hset]
    exact ih hclear hnext (i + 1)

theorem followed_start (hpids : pids.Nodup) : Followed pids [] pids [] :=
  ⟨List.nodup_nil,fun _ h => (List.not_mem_nil h).elim,hpids,fun _ => (and_iff_left rfl).symm,fun _ _ => rfl⟩

/-- The row of a PID, with the argument the set has for it. -/
def rowOf (pidsWargs : List (ℕ × ℕ)) (trace : List Line) (pid : ℕ) : Option ((ℕ × ℕ) × WorkloadTimes) :=
  (reference pid trace).bind (fun t => (pidsWargs.find? (fun p => p.2 = pid)).map (fun p => ((p.1,pid),t)))

theorem getWorkloadTimes_rows {pidsWargs : List (ℕ × ℕ)} {trace : List Line}
    (h : ∀ entry ∈ dict, ∃ row, workloadTimes pidsWargs entry.1 entry.2 = some row ∧
      rowOf pidsWargs trace entry.1 = some row) :
    ∃ rows, getWorkloadTimes pidsWargs dict = some rows ∧ rows.map some = dict.keys.map (rowOf pidsWargs trace) := by
  induction dict with
  | nil => exact ⟨[],rfl,rfl⟩
  | cons entry rest ih =>
    obtain ⟨rows,hrows,hmap⟩ := ih (fun e he => h e (List.mem_cons_of_mem entry he))
    obtain ⟨row,hrow,hof⟩ := h entry List.mem_cons_self
    refine ⟨row :: rows,getWorkloadTimes_cons.mpr ⟨row,rows,hrow,hrows,rfl⟩,?_⟩
    rw [List.map_cons,hmap,← hof]
    rfl

theorem find_pid {pidsWargs : List (ℕ × ℕ)} (hpids : (pidsWargs.map Prod.snd).Nodup) {p : ℕ × ℕ}
    (hp : p ∈ pidsWargs) : pidsWargs.find? (fun q => q.2 = p.2) = some p := by
  induction pidsWargs with
  | nil => cases hp
  | cons q rest ih =>
    obtain ⟨hq,hrest⟩ := List.nodup_cons.mp hpids
    rcases List.mem_cons.mp hp with rfl | hp
    · simp
    · have hne : q.2 ≠ p.2 := fun hf => hq (hf ▸ List.mem_map_of_mem hp)
      rw [List.find?_cons_of_neg (by simpa using hne)]
      exact ih hrest hp

/-- With one argument for each PID, the rows of the set are the rows of its PIDs. -/
theorem map_rowOf {pidsWargs : List (ℕ × ℕ)} (hpids : (pidsWargs.map Prod.snd).Nodup) (trace : List Line) :
    (pidsWargs.map Prod.snd).map (rowOf pidsWargs trace) =
      pidsWargs.map (fun p => (reference p.2 trace).map (fun t => (p,t))) := by
  rw [List.map_map]
  apply List.map_congr_left
  intro p hp
  simp only [Function.comp_apply,rowOf,find_pid hpids hp,Option.map_some]
  cases reference p.2 trace <;> rfl

theorem Followed.times {trace : List Line} (hs : Followed pids trace ps dict)
    (hsorted : trace.Pairwise (fun l k => l.time ≤ k.time)) (hp : p ∈ pids) {t : WorkloadTimes}
    (ht : reference p trace = some t) : (scanEvents p (dict.get p) .start).times = some t := by
  rw [scanEvents_eq_foldl _ rfl,hs.walks p hp]
  exact times_of_reference hsorted ht

theorem Followed.keys_perm {trace : List Line} (hs : Followed pids trace ps dict) (hpids : pids.Nodup)
    (hlives : ∀ p ∈ pids, reference p trace ≠ none) : dict.keys.Perm pids := by
  apply (List.perm_ext_iff_of_nodup hs.keys_nodup hpids).mpr
  intro p
  refine ⟨hs.keys_mem p,fun hp => ?_⟩
  by_contra hkey
  obtain ⟨t,ht⟩ := Option.ne_none_iff_exists'.mp (hlives p hp)
  have hwalk := hs.walks p hp
  rw [EventDict.get_of_notMem hkey,fieldWalk_of_reference ht] at hwalk
  cases hwalk

/-- Where every PID of the set is clear, the script is right in every iteration order. -/
theorem attributed_of_clear {order : ℕ → List Text → List Text} (horder : ∀ i s, (order i s).Perm s)
    {file : Text} {trace : List Line} (hfile : (lines file).drop 1 = trace.map Line.raw)
    (hsorted : trace.Pairwise (fun l k => l.time ≤ k.time)) {pidsWargs : List (ℕ × ℕ)}
    (hpids : (pidsWargs.map Prod.snd).Nodup) (hlives : ∀ p ∈ pidsWargs.map Prod.snd, reference p trace ≠ none)
    (hclear : ∀ p ∈ pidsWargs.map Prod.snd, Clear p trace) : Attributed order file pidsWargs trace := by
  obtain ⟨events,ps,hevents,hfollowed⟩ := (followed_start hpids).lines horder hclear 0
  rw [List.nil_append] at hfollowed
  have hperm : events.keys.Perm (pidsWargs.map Prod.snd) := hfollowed.keys_perm hpids hlives
  have hentries : ∀ entry ∈ events, ∃ row, workloadTimes pidsWargs entry.1 entry.2 = some row ∧
      rowOf pidsWargs trace entry.1 = some row := by
    intro entry hentry
    have hmem : entry.1 ∈ pidsWargs.map Prod.snd := hperm.subset (List.mem_map_of_mem hentry)
    obtain ⟨t,ht⟩ := Option.ne_none_iff_exists'.mp (hlives entry.1 hmem)
    obtain ⟨p,hp,hpid⟩ := List.mem_map.mp hmem
    have htimes := hfollowed.times hsorted hmem ht
    rw [EventDict.get_of_mem hfollowed.keys_nodup hentry] at htimes
    have hfind := find_pid hpids hp
    rw [hpid] at hfind
    refine ⟨((p.1,entry.1),t),?_,?_⟩
    · rw [workloadTimes,htimes,hfind]
      rfl
    · rw [rowOf,ht,hfind]
      rfl
  obtain ⟨rows,hrows,hmap⟩ := getWorkloadTimes_rows hentries
  refine ⟨events,rows,?_,hrows,?_⟩
  · rw [parseFtrace,hfile]
    exact hevents
  · rw [hmap,← map_rowOf hpids trace]
    exact hperm.map _

end ServerlessSched.Analyze
