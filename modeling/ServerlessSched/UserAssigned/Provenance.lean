import ServerlessSched.UserAssigned.Transfer

/-! # Whom a decision was made for

PIDs are all that records and decisions carry. An observer notes beside each of them the
task and the enabling behind it and, once the daemon has handled it, whose command line
was read.
-/
namespace ServerlessSched.UserAssigned
open Runs
open Machine (demoConfig)

/-- The enabling a record was pushed by: a task and the number of times it had been enabled. -/
structure Origin where
  task : Proc
  epoch : ℕ
deriving DecidableEq

/-- How the daemon answered a record: the process that held the PID and what was read of it. -/
structure Answer where
  origin : Origin
  reader : Option Proc
  file : Option (List UInt8)

/-- The notes: one origin for each record, one answer for each listed task and each decision. -/
structure Trail where
  epoch : Proc → ℕ
  records : List Origin
  listed : List Answer
  decided : List Answer

namespace Trail

def start : Trail := ⟨fun _ => 0,[],[],[]⟩

/-- The enablings behind everything under way. -/
def origins (g : Trail) : List Origin := g.records ++ (g.listed ++ g.decided).map Answer.origin

/-- What the observer writes down, from the states before and after a step. -/
def follow (s : Transfer) (e : TransferEvent) (t : Transfer) (g : Trail) : Trail :=
  match e with
  | .kernel (.enable p _) =>
    if (t.kern.task p).enabled then
      { g with
        epoch := Function.update g.epoch p (g.epoch p + 1)
        records := if t.link.enqueued.items = s.link.enqueued.items then g.records
          else g.records ++ [⟨p,g.epoch p + 1⟩] }
    else g
  | .kernel (.dispatch _ _) => { g with decided := [] }
  | .insert readable =>
    match g.records with
    | [] => g
    | o :: rest =>
      if s.daemon.Took t.daemon o.task.pid then
        { g with
          records := rest
          listed := g.listed ++ [⟨o,s.kern.pids.holder o.task.pid,s.cmdlineOf o.task.pid readable⟩] }
      else { g with records := rest }
  | .dispatch _ =>
    if t.daemon.dispatchHead = s.daemon.dispatchHead then g
    else { g with
      listed := g.listed.tail
      decided := g.decided ++ g.listed.head?.toList }
  | _ => g

end Trail

namespace Transfer
variable {cfg : Config} {s t : Transfer} {g : Trail}

/-- No task is enabled while its PID is still under way. -/
def FreshlyAnnounced (cfg : Config) (s : Transfer) : TransferEvent → Prop
  | .kernel (.enable p true) => p.pid ≠ cfg.userschedPid → p.pid ∉ s.pendingPids
  | _ => True

/-- A decision is its holder's own: should an enabled task hold the PID, the decision answers
the record of its latest enabling, and the slice is the one requested for its command line. -/
def AnsweredFor (s : Transfer) (g : Trail) (u : DispatchedTask) (a : Answer) : Prop :=
  u.slice = requestedSlice a.file ∧ ∀ p, s.kern.pids.holder u.pid = some p →
    (s.kern.task p).enabled = true → a.origin = ⟨p,g.epoch p⟩ ∧ a.reader = some p

def OwnDecisions (s : Transfer) (g : Trail) : Prop :=
  List.Forall₂ (AnsweredFor s g) s.link.dispatched.items g.decided

/-- The notes and the maps run in parallel. -/
structure Parallel (s : Transfer) (g : Trail) : Prop where
  records : g.records.map (fun o => o.task.pid) = s.arriving
  listed : g.listed.map (fun a => a.origin.task.pid) = s.daemon.dispatchHead
  slices : ∀ a ∈ g.listed, (s.daemon.tasks a.origin.task.pid).slice = requestedSlice a.file
  decided : List.Forall₂ (fun u a => u.pid = a.origin.task.pid ∧ u.slice = requestedSlice a.file)
    s.link.dispatched.items g.decided

/-- What is under way for the PID of an enabled task comes from its latest enabling, and the
daemon's answers were read from the task itself. -/
structure Owned (cfg : Config) (s : Transfer) (g : Trail) : Prop where
  others : ∀ o ∈ g.origins, o.task.pid ≠ cfg.userschedPid
  origin : ∀ o ∈ g.origins, ∀ p, s.board.enabled p = true → p.pid = o.task.pid → o = ⟨p,g.epoch p⟩
  reader : ∀ a ∈ g.listed ++ g.decided, ∀ p, s.board.enabled p = true →
    p.pid = a.origin.task.pid → a.reader = some p

theorem Owned.ownDecisions (hpar : Parallel s g) (hown : Owned cfg s g) : OwnDecisions s g := by
  have hmem : ∀ a ∈ g.decided, ∀ p, s.board.enabled p = true → p.pid = a.origin.task.pid →
      a.origin = ⟨p,g.epoch p⟩ ∧ a.reader = some p := by
    intro a ha p henabled hpid
    have hanswer : a ∈ g.listed ++ g.decided := List.mem_append_right _ ha
    exact ⟨hown.origin _ (List.mem_append_right _ (List.mem_map_of_mem hanswer)) p henabled hpid,
      hown.reader a hanswer p henabled hpid⟩
  refine List.forall₂_iff_zip.mpr ⟨hpar.decided.length_eq,fun {u a} hua => ?_⟩
  obtain ⟨hpid,hslice⟩ := List.forall₂_zip hpar.decided hua
  refine ⟨hslice,fun p hp henabled => hmem a (List.of_mem_zip hua).2 p henabled ?_⟩
  rw [← hpid]
  exact s.kern.pids.holder_pid _ _ hp

theorem follow_join {p : Proc} (alloc : Bool) (henabled : (t.kern.task p).enabled = true)
    (hb : t.board = s.board.join cfg.userschedPid p) :
    Trail.follow s (.kernel (.enable p alloc)) t g =
        { g with epoch := Function.update g.epoch p (g.epoch p + 1) } ∧
      t.link.enqueued = s.link.enqueued ∨
    Trail.follow s (.kernel (.enable p alloc)) t g =
        { g with
          epoch := Function.update g.epoch p (g.epoch p + 1)
          records := g.records ++ [⟨p,g.epoch p + 1⟩] } ∧
      t.link.enqueued.items = s.link.enqueued.items ++ [p.pid] ∧ p.pid ≠ cfg.userschedPid := by
  have henq : t.link.enqueued = (s.board.join cfg.userschedPid p).enqueued := congrArg Board.enqueued hb
  simp only [Trail.follow,henabled,if_true]
  rcases Board.join_enqueued cfg.userschedPid s.board p with ⟨hsame,-⟩ | ⟨hpid,-,hitems⟩
  · have hitems : t.link.enqueued = s.link.enqueued := henq.trans hsame
    exact Or.inl ⟨by rw [if_pos (by rw [hitems])],hitems⟩
  · have hpushed : t.link.enqueued.items = s.link.enqueued.items ++ [p.pid] := by
      rw [henq]
      exact hitems
    have hne : t.link.enqueued.items ≠ s.link.enqueued.items := by simp [hpushed]
    exact Or.inr ⟨by rw [if_neg hne],hpushed,hpid⟩

theorem Parallel.kernel {e : KernelEvent} (hw : s.WellFormed) (hp : Parallel s g)
    (h : step cfg s (.kernel e) = some t) : Parallel t (Trail.follow s (.kernel e) t g) := by
  obtain ⟨hk,hd,hhand⟩ := step_ops h
  obtain ⟨-,hb⟩ := KernelSide.board_step hk
  have hquiet : ∀ g' : Trail, g'.records = g.records → g'.listed = g.listed → g'.decided = g.decided →
      t.link.enqueued = s.link.enqueued → t.link.dispatched = s.link.dispatched → Parallel t g' := by
    intro g' hrecords hlisted hdecided henq hdisp
    refine ⟨?_,?_,?_,?_⟩
    · rw [hrecords,arriving_congr hhand henq]; exact hp.records
    · rw [hlisted,hd]; exact hp.listed
    · rw [hlisted,hd]; exact hp.slices
    · rw [hdecided,hdisp]; exact hp.decided
  cases e with
  | enable p alloc =>
    rcases KernelSide.enable_step hw.board hk with ⟨-,hsame,hdisabled⟩ | ⟨-,hjoin,henabled,-⟩
    · have hfollow : Trail.follow s (.kernel (.enable p alloc)) t g = g :=
        if_neg (by rw [Bool.not_eq_true]; exact hdisabled)
      rw [hfollow]
      exact hquiet g rfl rfl rfl (congrArg Board.enqueued hsame) (congrArg Board.dispatched hsame)
    · have hdisp : t.link.dispatched = s.link.dispatched := congrArg Board.dispatched hjoin
      rcases follow_join (g := g) alloc henabled hjoin with ⟨hfollow,henq⟩ | ⟨hfollow,hitems,-⟩
      · rw [hfollow]
        exact hquiet _ rfl rfl rfl henq hdisp
      · rw [hfollow]
        refine ⟨?_,by rw [hd]; exact hp.listed,by rw [hd]; exact hp.slices,by rw [hdisp]; exact hp.decided⟩
        rw [List.map_append,hp.records,arriving_push hhand hitems]
        rfl
  | dispatch cpu env =>
    have hdisp : t.link.dispatched = .empty := congrArg Board.dispatched hb
    refine ⟨?_,by rw [hd]; exact hp.listed,by rw [hd]; exact hp.slices,by rw [hdisp]; exact List.Forall₂.nil⟩
    have henq : t.link.enqueued = s.link.enqueued := congrArg Board.enqueued hb
    have harr : t.arriving = s.arriving := arriving_congr hhand henq
    exact hp.records.trans harr.symm
  | _ => exact hquiet g rfl rfl rfl (congrArg Board.enqueued hb) (congrArg Board.dispatched hb)

theorem follow_insert {readable : Bool} (hw : s.WellFormed) (hp : Parallel s g)
    (h : step cfg s (.insert readable) = some t) :
    ∃ o os, g.records = o :: os ∧ os.map (fun o => o.task.pid) = t.arriving ∧ t.board = s.board ∧
      ((Trail.follow s (.insert readable) t g = { g with records := os } ∧
        t.daemon.tasks = s.daemon.tasks ∧ t.daemon.dispatchHead = s.daemon.dispatchHead) ∨
      (Trail.follow s (.insert readable) t g = { g with
          records := os
          listed := g.listed ++ [⟨o,s.kern.pids.holder o.task.pid,s.cmdlineOf o.task.pid readable⟩] } ∧
        o.task.pid ∉ s.daemon.dispatchHead ∧
        t.daemon.dispatchHead = s.daemon.dispatchHead ++ [o.task.pid] ∧
        t.daemon.tasks = Function.update s.daemon.tasks o.task.pid
          ⟨requestedSlice (s.cmdlineOf o.task.pid readable),true⟩)) := by
  obtain ⟨pid,rest,hhead,htail,hb,hcase⟩ := step_insert h
  obtain ⟨o,os,hos,rfl,hrest⟩ := List.map_eq_cons_iff.mp (hp.records.trans hhead)
  refine ⟨o,os,hos,hrest.trans htail.symm,hb,?_⟩
  have hignored : t.daemon.tasks = s.daemon.tasks →
      Trail.follow s (.insert readable) t g = { g with records := os } := by
    intro htasks
    simp only [Trail.follow,hos]
    rw [if_neg (Daemon.not_took_of_tasks htasks)]
  rcases hcase with ⟨-,hd⟩ | ⟨-,-,hd⟩ | ⟨hacc,hlist,htasks,-⟩
  · exact Or.inl ⟨hignored (by rw [hd]),by rw [hd],by rw [hd]⟩
  · exact Or.inl ⟨hignored (by rw [hd]),by rw [hd],by rw [hd]⟩
  · have htook : s.daemon.Took t.daemon o.task.pid := ⟨hacc.2,by simp [htasks]⟩
    refine Or.inr ⟨?_,(hw.daemon.accepts_iff hacc.1).mp hacc,hlist,htasks⟩
    simp only [Trail.follow,hos]
    rw [if_pos htook]

theorem Parallel.insert {readable : Bool} (hw : s.WellFormed) (hp : Parallel s g)
    (h : step cfg s (.insert readable) = some t) : Parallel t (Trail.follow s (.insert readable) t g) := by
  obtain ⟨o,os,-,hrest,hb,⟨hg,htasks,hlist⟩ | ⟨hg,hnew,hlist,htasks⟩⟩ := follow_insert hw hp h
  all_goals
    have hdisp : t.link.dispatched = s.link.dispatched := congrArg Board.dispatched hb
    rw [hg]
  · exact ⟨hrest,by rw [hlist]; exact hp.listed,by rw [htasks]; exact hp.slices,
      by rw [hdisp]; exact hp.decided⟩
  · refine ⟨hrest,?_,?_,by rw [hdisp]; exact hp.decided⟩
    · rw [List.map_append,hp.listed,hlist]
      rfl
    · intro a ha
      rw [htasks]
      rcases List.mem_append.mp ha with ha | ha
      · have hmem : a.origin.task.pid ∈ s.daemon.dispatchHead := by
          rw [← hp.listed]
          exact List.mem_map_of_mem ha
        rw [Function.update_of_ne (ne_of_mem_of_not_mem hmem hnew)]
        exact hp.slices a ha
      · rw [List.mem_singleton.mp ha,Function.update_self]

/-- A step after which the daemon and what it has to read and hand over are as before. -/
theorem Parallel.congr (hp : Parallel s g) (harr : t.arriving = s.arriving) (hd : t.daemon = s.daemon)
    (hdisp : t.link.dispatched = s.link.dispatched) : Parallel t g :=
  ⟨by rw [harr]; exact hp.records,by rw [hd]; exact hp.listed,by rw [hd]; exact hp.slices,
    by rw [hdisp]; exact hp.decided⟩

theorem follow_dispatch {ok : Bool} (hp : Parallel s g) (h : step cfg s (.dispatch ok) = some t) :
    (Trail.follow s (.dispatch ok) t g = g ∧ t.board = s.board ∧ t.daemon.tasks = s.daemon.tasks ∧
      t.daemon.dispatchHead = s.daemon.dispatchHead) ∨
    ∃ a as q, g.listed = a :: as ∧ as.map (fun a => a.origin.task.pid) = t.daemon.dispatchHead ∧
      q.items = s.link.dispatched.items ++
        [⟨a.origin.task.pid,(s.daemon.tasks a.origin.task.pid).slice⟩] ∧
      t.board = { s.board with dispatched := q } ∧
      t.daemon.tasks = Function.update s.daemon.tasks a.origin.task.pid
        { s.daemon.tasks a.origin.task.pid with isQueued := false } ∧
      Trail.follow s (.dispatch ok) t g = { g with listed := as, decided := g.decided ++ [a] } := by
  rcases Machine.step_dispatch_cases (step_dispatch h).1 with
    ⟨-,hb,htasks,hlist,-⟩ | ⟨pid,rest,q,hhead,hq,hb,hrest,htasks,-⟩
  · refine Or.inl ⟨?_,hb,htasks,hlist⟩
    rw [Trail.follow,if_pos hlist]
  · obtain ⟨a,as,has,rfl,hmap⟩ := List.map_eq_cons_iff.mp (hp.listed.trans hhead)
    refine Or.inr ⟨a,as,q,has,hmap.trans hrest.symm,hq,hb,htasks,?_⟩
    have hmoved : t.daemon.dispatchHead ≠ s.daemon.dispatchHead := by
      rw [hrest,hhead]
      exact (List.cons_ne_self _ _).symm
    simp only [Trail.follow,if_neg hmoved,has]
    rfl

theorem Parallel.dispatch {ok : Bool} (hp : Parallel s g)
    (h : step cfg s (.dispatch ok) = some t) : Parallel t (Trail.follow s (.dispatch ok) t g) := by
  rcases follow_dispatch hp h with ⟨hg,hb,htasks,hlist⟩ | ⟨a,as,q,has,hmap,hq,hb,htasks,hg⟩
  all_goals
    have henq : t.link.enqueued = s.link.enqueued := congrArg Board.enqueued hb
    have harr : t.arriving = s.arriving := arriving_congr (step_dispatch h).2 henq
    rw [hg]
  · have hdisp : t.link.dispatched = s.link.dispatched := congrArg Board.dispatched hb
    exact ⟨by rw [harr]; exact hp.records,by rw [hlist]; exact hp.listed,
      by rw [htasks]; exact hp.slices,by rw [hdisp]; exact hp.decided⟩
  · have hdisp : t.link.dispatched = q := congrArg Board.dispatched hb
    refine ⟨by rw [harr]; exact hp.records,hmap,?_,?_⟩
    · intro b hb
      have hslice := hp.slices b (by rw [has]; exact List.mem_cons_of_mem a hb)
      rw [htasks]
      by_cases heq : b.origin.task.pid = a.origin.task.pid
      · rw [heq,Function.update_self]
        rw [heq] at hslice
        exact hslice
      · rw [Function.update_of_ne heq]
        exact hslice
    · rw [hdisp,hq]
      refine List.rel_append hp.decided (List.Forall₂.cons ⟨rfl,?_⟩ List.Forall₂.nil)
      exact hp.slices a (by rw [has]; exact List.mem_cons_self)

theorem Parallel.step {e : TransferEvent} (hw : s.WellFormed) (hp : Parallel s g)
    (h : step cfg s e = some t) : Parallel t (Trail.follow s e t g) := by
  cases e with
  | kernel e => exact hp.kernel hw h
  | insert readable => exact hp.insert hw h
  | dispatch ok => exact hp.dispatch h
  | pop =>
    obtain ⟨pid,rest,-,hb,hd,harr⟩ := step_pop h
    exact hp.congr harr hd (congrArg Board.dispatched hb)
  | drained =>
    obtain ⟨hempty,hstill,hb,hd⟩ := step_drained h
    exact hp.congr (hstill.trans hempty.symm) hd (congrArg Board.dispatched hb)
  | endBatch =>
    obtain ⟨harr,hb,hd⟩ := step_endBatch h
    exact hp.congr harr hd (congrArg Board.dispatched hb)

/-! ## Ownership -/

theorem Parallel.pendingPids (hp : Parallel s g) :
    g.origins.map (fun o => o.task.pid) = s.pendingPids := by
  have hdecided : s.link.dispatched.items.map DispatchedTask.pid =
      g.decided.map (fun a => a.origin.task.pid) := by
    have h : List.Forall₂ (· = ·) (s.link.dispatched.items.map DispatchedTask.pid)
        (g.decided.map (fun a => a.origin.task.pid)) :=
      List.forall₂_map_left_iff.mpr (List.forall₂_map_right_iff.mpr (hp.decided.imp (fun u a h => h.1)))
    rwa [List.forall₂_eq_eq_eq] at h
  rw [Transfer.pendingPids,hdecided,← hp.records,← hp.listed,Trail.origins]
  simp [Function.comp_def]

theorem Owned.mono {g' : Trail} (ho : Owned cfg s g)
    (henabled : ∀ p, t.board.enabled p = true → s.board.enabled p = true) (hepoch : g'.epoch = g.epoch)
    (hrecords : ∀ o ∈ g'.records, o ∈ g.records)
    (hanswers : ∀ a ∈ g'.listed ++ g'.decided, a ∈ g.listed ++ g.decided) : Owned cfg t g' := by
  have horigins : ∀ o ∈ g'.origins, o ∈ g.origins := by
    intro o ho
    rcases List.mem_append.mp ho with ho | ho
    · exact List.mem_append_left _ (hrecords o ho)
    · obtain ⟨a,ha,rfl⟩ := List.mem_map.mp ho
      exact List.mem_append_right _ (List.mem_map_of_mem (hanswers a ha))
  refine ⟨fun o h => ho.others o (horigins o h),fun o h p hp hpid => ?_,fun a h p hp hpid => ?_⟩
  · rw [hepoch]
    exact ho.origin o (horigins o h) p (henabled p hp) hpid
  · exact ho.reader a (hanswers a h) p (henabled p hp) hpid

theorem Owned.enable {p : Proc} {alloc : Bool} (hw : s.WellFormed) (hp : Parallel s g)
    (ho : Owned cfg s g) (hfresh : FreshlyAnnounced cfg s (.kernel (.enable p alloc)))
    (h : step cfg s (.kernel (.enable p alloc)) = some t) :
    Owned cfg t (Trail.follow s (.kernel (.enable p alloc)) t g) := by
  obtain ⟨hk,hd,hhand⟩ := step_ops h
  rcases KernelSide.enable_step hw.board hk with ⟨-,hsame,hdisabled⟩ | ⟨rfl,hjoin,henabled,-⟩
  · have hfollow : Trail.follow s (.kernel (.enable p alloc)) t g = g :=
      if_neg (by rw [Bool.not_eq_true]; exact hdisabled)
    rw [hfollow]
    exact ho.mono (fun q hq => by rwa [show t.board = s.board from hsame] at hq) rfl (fun _ h => h)
      (fun _ h => h)
  · obtain ⟨hlive,hnew⟩ := (KernelSide.board_step hk).1
    have hnone : ∀ o ∈ g.origins, o.task.pid ≠ p.pid := by
      intro o ho' hpid
      have hpending : p.pid ∈ s.pendingPids := by
        rw [← hp.pendingPids,← hpid]
        exact List.mem_map_of_mem ho'
      by_cases hdaemon : p.pid = cfg.userschedPid
      · exact ho.others o ho' (hpid.trans hdaemon)
      · exact hfresh hdaemon hpending
    have hother : ∀ q, t.board.enabled q = true → q ≠ p → s.board.enabled q = true ∧ q.pid ≠ p.pid := by
      intro q hq hqp
      rw [show t.board = s.board.join cfg.userschedPid p from hjoin] at hq
      have hq' : s.board.enabled q = true := by simpa [Board.join,hqp] using hq
      exact ⟨hq',fun hpid => hqp ((hw.board.live q hq').unique hlive hpid)⟩
    have hold : ∀ o ∈ g.origins, ∀ q, t.board.enabled q = true → q.pid = o.task.pid →
        o = ⟨q,Function.update g.epoch p (g.epoch p + 1) q⟩ := by
      intro o ho' q hq hpid
      have hqp : q ≠ p := by
        rintro rfl
        exact hnone o ho' hpid.symm
      rw [Function.update_of_ne hqp]
      exact ho.origin o ho' q (hother q hq hqp).1 hpid
    have hreader : ∀ a ∈ g.listed ++ g.decided, ∀ q, t.board.enabled q = true →
        q.pid = a.origin.task.pid → a.reader = some q := by
      intro a ha q hq hpid
      have hqp : q ≠ p := by
        rintro rfl
        exact hnone _ (List.mem_append_right _ (List.mem_map_of_mem ha)) hpid.symm
      exact ho.reader a ha q (hother q hq hqp).1 hpid
    rcases follow_join (g := g) true henabled hjoin with ⟨hfollow,-⟩ | ⟨hfollow,-,hpid⟩
    · rw [hfollow]
      exact ⟨ho.others,hold,hreader⟩
    · rw [hfollow]
      have hsplit : ∀ o, o ∈ (g.records ++ [⟨p,g.epoch p + 1⟩]) ++
          (g.listed ++ g.decided).map Answer.origin → o ∈ g.origins ∨ o = ⟨p,g.epoch p + 1⟩ := by
        intro o ho'
        simp only [Trail.origins,List.mem_append,List.mem_singleton] at ho' ⊢
        tauto
      refine ⟨fun o ho' => ?_,fun o ho' q hq hq' => ?_,hreader⟩
      · rcases hsplit o ho' with hmem | rfl
        · exact ho.others o hmem
        · exact hpid
      · rcases hsplit o ho' with hmem | rfl
        · exact hold o hmem q hq hq'
        · by_cases hqp : q = p
          · subst hqp
            change _ = Origin.mk q (Function.update g.epoch q (g.epoch q + 1) q)
            rw [Function.update_self]
          · exact absurd hq' (hother q hq hqp).2

/-- The daemon reads from the process that holds the PID: an enabled task is alive, so that it
is this process. -/
theorem Owned.insert {readable : Bool} (hw : s.WellFormed) (hp : Parallel s g) (ho : Owned cfg s g)
    (h : step cfg s (.insert readable) = some t) :
    Owned cfg t (Trail.follow s (.insert readable) t g) := by
  obtain ⟨o,os,hos,-,hb,⟨hg,-,-⟩ | ⟨hg,-,-,-⟩⟩ := follow_insert hw hp h
  all_goals
    have henabled : ∀ p, t.board.enabled p = true → s.board.enabled p = true :=
      fun p hp => by rwa [hb] at hp
    rw [hg]
  · exact ho.mono henabled rfl (fun _ h => by rw [hos]; exact List.mem_cons_of_mem o h) (fun _ h => h)
  · have hmem : o ∈ g.origins := List.mem_append_left _ (by rw [hos]; exact List.mem_cons_self)
    have hsplit : ∀ a a' : Answer, a ∈ (g.listed ++ [a']) ++ g.decided →
        a ∈ g.listed ++ g.decided ∨ a = a' := by
      intro a a' ha
      simp only [List.mem_append,List.mem_singleton] at ha ⊢
      tauto
    have horigins : ∀ o', o' ∈ os ++ ((g.listed ++ [(⟨o,s.kern.pids.holder o.task.pid,
        s.cmdlineOf o.task.pid readable⟩ : Answer)]) ++ g.decided).map Answer.origin → o' ∈ g.origins := by
      intro o' ho'
      rcases List.mem_append.mp ho' with ho' | ho'
      · exact List.mem_append_left _ (by rw [hos]; exact List.mem_cons_of_mem o ho')
      · obtain ⟨a,ha,rfl⟩ := List.mem_map.mp ho'
        rcases hsplit a _ ha with ha | rfl
        · exact List.mem_append_right _ (List.mem_map_of_mem ha)
        · exact hmem
    refine ⟨fun o' h => ho.others o' (horigins o' h),fun o' h p hp hpid =>
      ho.origin o' (horigins o' h) p (henabled p hp) hpid,fun a ha p hp hpid => ?_⟩
    rcases hsplit a _ ha with ha | rfl
    · exact ho.reader a ha p (henabled p hp) hpid
    · have hlive : s.kern.pids.holder p.pid = some p := hw.board.live p (henabled p hp)
      rw [← hpid]
      exact hlive

theorem Owned.dispatch {ok : Bool} (hp : Parallel s g) (ho : Owned cfg s g)
    (h : step cfg s (.dispatch ok) = some t) : Owned cfg t (Trail.follow s (.dispatch ok) t g) := by
  rcases follow_dispatch hp h with ⟨hg,hb,-,-⟩ | ⟨a,as,q,has,-,-,hb,-,hg⟩
  all_goals
    have henabled : ∀ p, t.board.enabled p = true → s.board.enabled p = true :=
      fun p hp => by rwa [hb] at hp
    rw [hg]
  · exact ho.mono henabled rfl (fun _ h => h) (fun _ h => h)
  · refine ho.mono henabled rfl (fun _ h => h) (fun b hb => ?_)
    rw [has]
    simp only [List.mem_append,List.mem_cons] at hb ⊢
    tauto

theorem Owned.step {e : TransferEvent} (hw : s.WellFormed) (hp : Parallel s g) (ho : Owned cfg s g)
    (hfresh : FreshlyAnnounced cfg s e) (h : step cfg s e = some t) :
    Owned cfg t (Trail.follow s e t g) := by
  have hleave : ∀ p pids, t.board = { s.board.leave p with pids := pids } →
      ∀ q, t.board.enabled q = true → s.board.enabled q = true := by
    intro p pids hb q hq
    rw [hb] at hq
    by_cases hqp : q = p
    · subst hqp
      simp [Board.leave] at hq
    · simpa [Board.leave,hqp] using hq
  cases e with
  | kernel e =>
    obtain ⟨-,hb⟩ := KernelSide.board_step (step_ops h).1
    cases e with
    | enable p alloc => exact ho.enable hw hp hfresh h
    | spawn p cpu mm => exact ho.mono (hleave p _ hb) rfl (fun _ h => h) (fun _ h => h)
    | exit p => exact ho.mono (hleave p _ hb) rfl (fun _ h => h) (fun _ h => h)
    | disable p => exact ho.mono (hleave p s.board.pids hb) rfl (fun _ h => h) (fun _ h => h)
    | dispatch cpu env =>
      refine ho.mono (fun p hp => ?_) rfl (fun _ h => h) (fun a ha => ?_)
      · rwa [show t.board = s.board.consume from hb] at hp
      · exact List.mem_append_left _ (by simpa [Trail.follow] using ha)
    | _ =>
      exact ho.mono (fun p hp => by rwa [show t.board = s.board from hb] at hp) rfl (fun _ h => h)
        (fun _ h => h)
  | insert readable => exact ho.insert hw hp h
  | dispatch ok => exact ho.dispatch hp h
  | pop =>
    obtain ⟨pid,rest,-,hb,-,-⟩ := step_pop h
    exact ho.mono (fun p hp => by rwa [hb] at hp) rfl (fun _ h => h) (fun _ h => h)
  | drained =>
    obtain ⟨-,-,hb,-⟩ := step_drained h
    exact ho.mono (fun p hp => by rwa [hb] at hp) rfl (fun _ h => h) (fun _ h => h)
  | endBatch =>
    obtain ⟨-,hb,-⟩ := step_endBatch h
    exact ho.mono (fun p hp => by rwa [hb] at hp) rfl (fun _ h => h) (fun _ h => h)

end Transfer

open Transfer in
/-- In every run that enables a task only while its PID is not under way, every decision that
waits for the kernel is its holder's own. -/
theorem decisions_are_own {cfg : Config} {k : Kern TaskCtx} {es : List TransferEvent}
    (hfresh : Along (withGhost (step cfg) Trail.follow) (fun p e => FreshlyAnnounced cfg p.1 e)
      (start k,Trail.start) es) :
    Always (withGhost (step cfg) Trail.follow) (fun p => OwnDecisions p.1 p.2)
      (start k,Trail.start) es := by
  have hall := always_of_along
    (P := fun p : Transfer × Trail => p.1.WellFormed ∧ Parallel p.1 p.2 ∧ Owned cfg p.1 p.2)
    (fun p e q hp hC hq => by
      obtain ⟨hstep,hghost⟩ := withGhost_eq_some.mp hq
      rw [hghost]
      exact ⟨wellFormed_step hp.1 hstep,hp.2.1.step hp.1 hstep,hp.2.2.step hp.1 hp.2.1 hC hstep⟩)
    ⟨Machine.wellFormed_start k,⟨rfl,rfl,fun a ha => (List.not_mem_nil ha).elim,List.Forall₂.nil⟩,
      ⟨fun o ho => (List.not_mem_nil ho).elim,fun o ho => (List.not_mem_nil ho).elim,
        fun a ha => (List.not_mem_nil ha).elim⟩⟩ hfresh
  exact hall.mono (fun p hp => hp.2.2.ownDecisions hp.2.1)

/-- PID 7 asks for job 30 with the command line `f 30`. -/
def askFor30 : List TransferEvent := Transfer.arrival ⟨7,0⟩ (.ofArea 4096 [102,0,51,48,0])

/-- PID 8 asks for job 40 while the daemon holds the record of PID 7. -/
def askBoth : List TransferEvent :=
  askFor30 ++ [.pop] ++ Transfer.arrival ⟨8,0⟩ (.ofArea 4096 [102,0,52,48,0]) ++
    [.insert true,.pop,.insert true,.dispatch true,.dispatch true]

open Transfer in
theorem decisions_are_own_two : ∃ p, run (withGhost (step demoConfig) Trail.follow)
      (start Kern.fresh,Trail.start) askBoth = some p ∧
    p.1.link.dispatched.items = [⟨7,1⟩,⟨8,0⟩] ∧ OwnDecisions p.1 p.2 := by
  have hfresh : Along (withGhost (step demoConfig) Trail.follow)
      (fun p e => FreshlyAnnounced demoConfig p.1 e) (start Kern.fresh,Trail.start) askBoth := by
    refine .cons rfl trivial (.cons rfl (fun _ => by decide) (.cons rfl trivial (.cons rfl trivial ?_)))
    refine .cons rfl (fun _ => by decide) (.cons rfl trivial (.cons rfl trivial (.cons rfl trivial ?_)))
    exact .cons rfl trivial (.cons rfl trivial trivial)
  have hall := decisions_are_own hfresh
  refine ⟨_,rfl,by decide +kernel,?_⟩
  exact always_iff_visited.mp hall _ _ List.prefix_rfl rfl

/-- Job 30 exits after the daemon has read its command line, and the next holder of the PID,
with the command line `f 40`, is enabled before the decision is pushed. -/
def pidReuse : List TransferEvent :=
  askFor30 ++ [.pop,.insert true,.kernel (.exit ⟨7,0⟩)] ++
    Transfer.arrival ⟨7,1⟩ (.ofArea 4096 [102,0,52,48,0]) ++ [.dispatch true]

open Transfer in
/-- The decision for job 30 waits for job 40, and the next dispatch gives job 40 the infinite
slice where its own command line asks for the default. -/
theorem decision_for_earlier_holder : ∃ p, run (withGhost (step demoConfig) Trail.follow)
      (start Kern.fresh,Trail.start) pidReuse = some p ∧ ¬OwnDecisions p.1 p.2 ∧
    ∃ t, step demoConfig p.1 (.kernel (.dispatch 2 ⟨fun _ => false,fun _ => none,true⟩)) = some t ∧
      (t.kern.task ⟨7,1⟩).enabled = true ∧ (t.kern.task ⟨7,1⟩).slice = sliceInf ∧
      translateSlice (requestedSlice (t.procCmdline 7)) = sliceDfl := by
  refine ⟨_,rfl,fun hown => ?_,_,rfl,rfl,by decide +kernel,by decide +kernel⟩
  cases hown with
  | cons hfirst _ =>
    have horigin := (hfirst.2 ⟨7,1⟩ rfl rfl).1
    have hother : (⟨⟨7,0⟩,1⟩ : Origin) ≠ ⟨⟨7,1⟩,1⟩ := by decide
    exact hother horigin

end ServerlessSched.UserAssigned
