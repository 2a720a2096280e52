import ServerlessSched.Loadgen.Launchers
import Mathlib.Tactic.Abel

/-! # Is every job collected once, under its own index?

The reaper finds a child by its PID, some time after the kernel has let go of that PID, and a
`Popen` object goes on asking for its own. Every item is collected as long as no launch fails and
no PID is given to two children.
-/
namespace ServerlessSched.Loadgen
open Runs

/-- The items a launcher holds that have no child yet. -/
def Launcher.held : Launcher → Multiset Request
  | .taken item | .locked item => {item}
  | .waiting | .forked _ _ | .finishing | .leaving | .gone => 0

/-- An item is on its way from the queue to the table. -/
def Launcher.handling : Launcher → Bool
  | .taken _ | .locked _ | .forked _ _ => true
  | .waiting | .finishing | .leaving | .gone => false

theorem Launcher.held_of_not_handling {l : Launcher} (h : l.handling = false) : l.held = 0 := by
  cases l <;> first | rfl | cases h

/-- The child the reaper has waited for and not looked up. -/
def ReaperPc.child : ReaperPc → Multiset Child
  | .reaped proc => {proc}
  | .testing | .waiting | .popped _ | .ended => 0

def ReaperPc.items : ReaperPc → Multiset Request
  | .reaped proc => {proc.item}
  | .popped info => {info.proc.item}
  | .testing | .waiting | .ended => 0

/-- The entry a launcher makes for its child. -/
def Child.info (proc : Child) : TaskInfo := ⟨proc.item.arg,proc.item.requestTime,proc.item.index,proc⟩

namespace Executor
variable {total : ℕ} {workload : List Request} {s t : Executor} {e : ExecutorEvent}

/-- The children whose entry the reaper has not taken out yet. -/
def unprocessed (s : Executor) : Multiset Child := s.running + s.zombies + s.reaper.child

/-- Between its fork and the insertion of its entry. -/
def Inserting (s : Executor) (proc : Child) : Prop := ∃ i item, s.launchers i = .forked item proc

/-- Everything queued is handled, and every child is waited for and processed. -/
structure AllHandled (s : Executor) : Prop where
  pending : s.pendingItems = []
  launchers : ∀ i, (s.launchers i).handling = false
  running : s.running = 0
  zombies : s.zombies = 0
  reaper : s.reaper.items = 0

/-- No index is written twice; a result is that of the child launched for the index; the entry
of a child stays until the reaper takes it; and when all is handled, all is collected and the
reaper ends. -/
structure Collects (workload : List Request) (s : Executor) : Prop where
  once : (s.written.map (fun proc => proc.item.index)).Nodup
  own : ∀ i result, s.results i = some result → ∃ proc ∈ s.written, proc.item ∈ workload ∧
    proc.item.index = i ∧ s.stdout proc = some result.output ∧ result.arg = proc.item.arg ∧
      result.requestTime = proc.item.requestTime
  kept : ∀ proc ∈ s.unprocessed, ¬s.Inserting proc → s.activeTasks proc.pid = some proc.info
  complete : s.AllHandled → s.reapedCount = workload.length ∧
    (∀ i < workload.length, s.results i ≠ none) ∧ (s.reaper = .ended ∨
      step workload.length s .test = some { s with reaper := .ended })

/-- No launch fails, and none gets a PID that a child of the run has had. -/
def CleanLaunch (s : Executor) : ExecutorEvent → Prop
  | .popenRaises _ => False
  | .popen _ pid => pid ∉ s.launched.map Child.pid
  | _ => True

/-- Where the items are that are not collected yet. -/
def uncollected (s : Executor) : Multiset Request :=
  ↑s.pendingItems + ∑ i, (s.launchers i).held + (s.running + s.zombies).map Child.item + s.reaper.items

structure Tracked (workload : List Request) (s : Executor) : Prop where
  accounts : Accounts workload s
  placed : s.uncollected + ↑(s.written.map Child.item) = ↑workload
  pids : (s.unprocessed.map Child.pid).Nodup
  fresh : (s.launched.map Child.pid).Nodup
  known : ∀ proc ∈ s.unprocessed, proc ∈ s.launched
  forked : ∀ i item proc, s.launchers i = .forked item proc → proc.item = item ∧ proc ∈ s.unprocessed
  entry : ∀ proc ∈ s.unprocessed, ¬s.Inserting proc → s.activeTasks proc.pid = some proc.info
  popped : ∀ info, s.reaper = .popped info → info = info.proc.info
  counted : s.reapedCount = s.written.length
  waiting : s.reaper = .waiting → s.reapedCount < workload.length
  results : ∀ proc ∈ s.written, ∃ output returnTime, s.stdout proc = some output ∧
    s.results proc.item.index = some ⟨output,proc.item.arg,proc.item.requestTime,returnTime⟩
  writes : ∀ i, s.results i ≠ none → ∃ proc ∈ s.written, proc.item.index = i

theorem tracked_start : Tracked workload (start workload) where
  accounts := accounts_start
  placed := by simp [uncollected,start,pendingItems,todo,Launcher.held,ReaperPc.items]
  pids := by simp [unprocessed,start,ReaperPc.child]
  fresh := List.nodup_nil
  known proc h := by simp [unprocessed,start,ReaperPc.child] at h
  forked i item proc h := by cases h
  entry proc h := by simp [unprocessed,start,ReaperPc.child] at h
  popped info h := by cases h
  counted := rfl
  waiting h := by cases h
  results proc h := by cases h
  writes i h := absurd rfl h

/-! ## What the invariant gives -/

section Indices
variable (hindex : workload.map Request.index = List.range workload.length)
include hindex

theorem Tracked.index_nodup (hs : Tracked workload s) :
    (s.uncollected.map Request.index + ↑((s.written.map Child.item).map Request.index)).Nodup := by
  rw [← Multiset.map_coe,← Multiset.map_add,hs.placed,Multiset.map_coe,hindex]
  exact Multiset.coe_nodup.mpr List.nodup_range

theorem Tracked.index_ne (hs : Tracked workload s) {item : Request} {proc : Child} (hitem : item ∈ s.uncollected)
    (hproc : proc ∈ s.written) : item.index ≠ proc.item.index := by
  intro heq
  have hdisjoint := (Multiset.nodup_add.mp (hs.index_nodup hindex)).2.2
  refine Multiset.disjoint_left.mp hdisjoint (Multiset.mem_map_of_mem _ hitem) ?_
  rw [heq,Multiset.mem_coe]
  exact List.mem_map_of_mem (List.mem_map_of_mem hproc)

theorem Tracked.collects (hs : Tracked workload s) : Collects workload s where
  once := by
    have hnodup := (Multiset.nodup_add.mp (hs.index_nodup hindex)).2.1
    rwa [List.map_map] at hnodup
  own i result hresult := by
    obtain ⟨proc,hproc,rfl⟩ := hs.writes i (by rw [hresult]; exact Option.some_ne_none _)
    obtain ⟨output,returnTime,houtput,hwritten⟩ := hs.results proc hproc
    cases hresult.symm.trans hwritten
    have hitem : proc.item ∈ (↑workload : Multiset Request) := by
      rw [← hs.placed]
      exact Multiset.mem_add.mpr (Or.inr (List.mem_map_of_mem hproc))
    exact ⟨proc,hproc,hitem,rfl,houtput,rfl,rfl⟩
  kept := hs.entry
  complete hall := by
    have hplaced : (↑(s.written.map Child.item) : Multiset Request) = ↑workload := by
      rw [← hs.placed,uncollected,hall.pending,hall.running,hall.zombies,hall.reaper]
      simp [Launcher.held_of_not_handling (hall.launchers _)]
    have hcount : s.reapedCount = workload.length := by
      rw [hs.counted,← List.length_map (f := Child.item)]
      exact congrArg Multiset.card hplaced
    refine ⟨hcount,fun i hi => ?_,?_⟩
    · have hmem : i ∈ workload.map Request.index := by rw [hindex]; exact List.mem_range.mpr hi
      obtain ⟨item,hitem,rfl⟩ := List.mem_map.mp hmem
      have hwritten : item ∈ (↑(s.written.map Child.item) : Multiset Request) := by
        rw [hplaced]; exact hitem
      obtain ⟨proc,hproc,rfl⟩ := List.mem_map.mp (Multiset.mem_coe.mp hwritten)
      obtain ⟨output,returnTime,-,hresult⟩ := hs.results proc hproc
      rw [hresult]
      exact Option.some_ne_none _
    · cases hreaper : s.reaper with
      | testing => exact Or.inr (by simp [step,reaperStep,hreaper,hcount])
      | waiting => exact absurd (hs.waiting hreaper) (by rw [hcount]; exact lt_irrefl _)
      | reaped proc =>
        have h := hall.reaper
        rw [hreaper] at h
        exact absurd h (Multiset.singleton_ne_zero _)
      | popped info =>
        have h := hall.reaper
        rw [hreaper] at h
        exact absurd h (Multiset.singleton_ne_zero _)
      | ended => exact Or.inl rfl

end Indices

/-! ## Steps -/

theorem Accounts.pending_eq (hs : Accounts workload s) (ht : Accounts workload t) (items : List Request)
    (htaken : t.taken = s.taken ++ items) : s.pendingItems = items ++ t.pendingItems := by
  have h := hs.taken.trans ht.taken.symm
  rw [htaken,List.append_assoc] at h
  exact List.append_cancel_left h

/-- Steps of `main` move items within the part that is pending. -/
theorem Tracked.main (hs : Tracked workload s) {main : MainPc} {queue : List (Option Request)}
    {unfinished : ℕ}
    (ht : Accounts workload { s with main := main, queue := queue, unfinished := unfinished }) :
    Tracked workload { s with main := main, queue := queue, unfinished := unfinished } := by
  have hpending := hs.accounts.pending_eq ht [] (List.append_nil _).symm
  refine ⟨ht,?_,hs.pids,hs.fresh,hs.known,hs.forked,hs.entry,hs.popped,hs.counted,hs.waiting,hs.results,hs.writes⟩
  rw [← hs.placed,uncollected,uncollected,hpending]
  rfl

/-- A launcher that has no child moves on without one. -/
theorem Tracked.move (hs : Tracked workload s) {i : Fin numLaunchers} {l : Launcher}
    {queue : List (Option Request)} {unfinished : ℕ} {lock : Option (Fin numLaunchers)}
    {taken : List Request} (items : List Request) (hold : ∀ item proc, s.launchers i ≠ .forked item proc)
    (hl : ∀ item proc, l ≠ .forked item proc) (hheld : l.held = (s.launchers i).held + ↑items)
    (htaken : taken = s.taken ++ items)
    (ht : Accounts workload ({ s with
      queue := queue, unfinished := unfinished, lock := lock, taken := taken }.setLauncher i l)) :
    Tracked workload ({ s with
      queue := queue, unfinished := unfinished, lock := lock, taken := taken }.setLauncher i l) := by
  have hpending := hs.accounts.pending_eq ht items htaken
  have hsum := sum_setLauncher Launcher.held s i l
  have hforked : ∀ j item proc, (s.setLauncher i l).launchers j = .forked item proc ↔
      s.launchers j = .forked item proc := by
    intro j item proc
    by_cases hj : j = i
    · rw [hj,setLauncher_self]
      exact iff_of_false (hl item proc) (hold item proc)
    · rw [setLauncher_ne s l hj]
  refine ⟨ht,?_,hs.pids,hs.fresh,hs.known,fun j item proc h => hs.forked j item proc ((hforked j item proc).mp h),
    fun proc hproc hinserting => hs.entry proc hproc ?_,hs.popped,hs.counted,hs.waiting,hs.results,hs.writes⟩
  · have hheld' : ∑ j, ((s.setLauncher i l).launchers j).held = ∑ j, (s.launchers j).held + ↑items := by
      rw [hheld,← add_assoc,add_right_comm] at hsum
      exact add_right_cancel hsum
    have hplaced := hs.placed
    rw [uncollected,hpending,← Multiset.coe_add] at hplaced
    rw [← hplaced,uncollected]
    change _ + ∑ j, ((s.setLauncher i l).launchers j).held + (s.running + s.zombies).map Child.item +
      s.reaper.items + ↑(s.written.map Child.item) = _
    rw [hheld']
    abel
  · rintro ⟨j,item,hj⟩
    exact hinserting ⟨j,item,(hforked j item proc).mpr hj⟩

/-- The kernel moves a child, or the reaper does, and no entry is touched. -/
theorem Tracked.observe (hs : Tracked workload s) {running zombies : Multiset Child}
    {stdout : Child → Option String} {reaper : ReaperPc}
    (hchildren : running + zombies + reaper.child = s.unprocessed)
    (hitems : (running + zombies).map Child.item + reaper.items =
      (s.running + s.zombies).map Child.item + s.reaper.items)
    (hstdout : ∀ proc ∈ s.written, stdout proc = s.stdout proc)
    (hpopped : ∀ info, reaper = .popped info → s.reaper = .popped info)
    (hwaiting : reaper = .waiting → s.reapedCount < workload.length) :
    Tracked workload { s with running := running, zombies := zombies, stdout := stdout, reaper := reaper } := by
  obtain ⟨ha,hplaced,hpids,hfresh,hknown,hforked,hentry,hpopped',hcounted,-,hresults,hwrites⟩ := hs
  have hunprocessed : unprocessed { s with
      running := running, zombies := zombies, stdout := stdout, reaper := reaper } = s.unprocessed := hchildren
  refine ⟨⟨ha.taken,ha.plain,ha.staying,ha.joined,ha.unfinished,ha.locked⟩,?_,?_,hfresh,?_,?_,?_,?_,hcounted,
    hwaiting,?_,hwrites⟩
  · rw [← hplaced,uncollected,uncollected]
    rw [add_assoc _ (Multiset.map _ _),add_assoc _ (Multiset.map _ _)]
    exact congrArg (fun m => _ + m + _) hitems
  · rw [hunprocessed]; exact hpids
  · rw [hunprocessed]; exact hknown
  · rw [hunprocessed]; exact hforked
  · rw [hunprocessed]; exact hentry
  · exact fun info hinfo => hpopped' info (hpopped info hinfo)
  · intro proc hproc
    obtain ⟨output,returnTime,houtput,hresult⟩ := hresults proc hproc
    exact ⟨output,returnTime,(hstdout proc hproc).trans houtput,hresult⟩

/-- While the lock is free, no child is without its entry. -/
theorem Tracked.entry_of_unlocked (hs : Tracked workload s) (hlock : s.lock = none) {proc : Child}
    (hproc : proc ∈ s.unprocessed) : s.activeTasks proc.pid = some proc.info := by
  refine hs.entry proc hproc ?_
  rintro ⟨i,item,hi⟩
  have hheld := (hs.accounts.locked i).mpr (by rw [hi]; rfl)
  rw [hlock] at hheld
  cases hheld

theorem Tracked.pid_ne (hs : Tracked workload s) {p q : Child} (hp : p ∈ s.unprocessed)
    (hq : q ∈ s.unprocessed) (h : q ≠ p) : q.pid ≠ p.pid :=
  fun hpid => h (Multiset.inj_on_of_nodup_map hs.pids q hq p hp hpid)

theorem Tracked.popen (hs : Tracked workload s) {i : Fin numLaunchers} {item : Request} {pid : ℕ}
    (hi : s.launchers i = .locked item) (hclean : pid ∉ s.launched.map Child.pid)
    (ht : Accounts workload ({ s with
      running := ⟨pid,item⟩ ::ₘ s.running
      launched := ⟨pid,item⟩ :: s.launched }.setLauncher i (.forked item ⟨pid,item⟩))) :
    Tracked workload ({ s with
      running := ⟨pid,item⟩ ::ₘ s.running
      launched := ⟨pid,item⟩ :: s.launched }.setLauncher i (.forked item ⟨pid,item⟩)) := by
  have hpending := hs.accounts.pending_eq ht [] (List.append_nil _).symm
  have hsum := sum_setLauncher Launcher.held s i (.forked item ⟨pid,item⟩)
  rw [hi] at hsum
  have hunprocessed : ({ s with
      running := ⟨pid,item⟩ ::ₘ s.running
      launched := ⟨pid,item⟩ :: s.launched }.setLauncher i (.forked item ⟨pid,item⟩)).unprocessed =
        ⟨pid,item⟩ ::ₘ s.unprocessed := by
    simp only [unprocessed,setLauncher,Multiset.cons_add]
  have hothers : ∀ j, j ≠ i → (s.setLauncher i (.forked item ⟨pid,item⟩)).launchers j = s.launchers j :=
    fun j hj => setLauncher_ne s _ hj
  refine ⟨ht,?_,?_,?_,fun proc hproc => ?_,fun j item' proc hj => ?_,fun proc hproc hinserting => ?_,hs.popped,
    hs.counted,hs.waiting,hs.results,hs.writes⟩
  · rw [← hs.placed,uncollected,uncollected,hpending]
    change ↑(pendingItems _) + ∑ j, ((s.setLauncher i _).launchers j).held +
      ((⟨pid,item⟩ ::ₘ s.running) + s.zombies).map Child.item + s.reaper.items + ↑(s.written.map Child.item) = _
    have hchildren : ((⟨pid,item⟩ ::ₘ s.running) + s.zombies).map Child.item =
        {item} + (s.running + s.zombies).map Child.item := by
      rw [Multiset.cons_add,Multiset.map_cons,Multiset.singleton_add]
    have hheld : ∑ j, (s.launchers j).held =
        ∑ j, ((s.setLauncher i (.forked item ⟨pid,item⟩)).launchers j).held + {item} := by
      rw [← add_zero (∑ j, (s.launchers j).held)]
      exact hsum.symm
    rw [hchildren,hheld,List.nil_append]
    abel
  · rw [hunprocessed,Multiset.map_cons,Multiset.nodup_cons]
    refine ⟨fun hmem => ?_,hs.pids⟩
    obtain ⟨proc,hproc,heq⟩ := Multiset.mem_map.mp hmem
    exact hclean (List.mem_map.mpr ⟨proc,hs.known proc hproc,heq⟩)
  · exact List.nodup_cons.mpr ⟨hclean,hs.fresh⟩
  · rw [hunprocessed] at hproc
    exact List.mem_cons.mpr ((Multiset.mem_cons.mp hproc).imp_right (hs.known proc))
  · rw [hunprocessed]
    by_cases hji : j = i
    · rw [hji,setLauncher_self] at hj
      cases hj
      exact ⟨rfl,Multiset.mem_cons_self _ _⟩
    · rw [setLauncher_ne _ _ hji] at hj
      obtain ⟨hitem,hproc⟩ := hs.forked j item' proc hj
      exact ⟨hitem,Multiset.mem_cons_of_mem hproc⟩
  · rw [hunprocessed] at hproc
    rcases Multiset.mem_cons.mp hproc with rfl | hproc
    · exact absurd ⟨i,item,setLauncher_self _ i _⟩ hinserting
    · refine hs.entry proc hproc ?_
      rintro ⟨j,item',hj⟩
      refine hinserting ⟨j,item',(hothers j ?_).trans hj⟩
      rintro rfl
      rw [hi] at hj
      cases hj

theorem Tracked.insert (hs : Tracked workload s) {i : Fin numLaunchers} {item : Request} {proc : Child}
    (hi : s.launchers i = .forked item proc)
    (ht : Accounts workload ({ s with
      activeTasks := Function.update s.activeTasks proc.pid
        (some ⟨item.arg,item.requestTime,item.index,proc⟩)
      lock := none }.setLauncher i .finishing)) :
    Tracked workload ({ s with
      activeTasks := Function.update s.activeTasks proc.pid
        (some ⟨item.arg,item.requestTime,item.index,proc⟩)
      lock := none }.setLauncher i .finishing) := by
  obtain ⟨rfl,hproc⟩ := hs.forked i item proc hi
  have hpending := hs.accounts.pending_eq ht [] (List.append_nil _).symm
  have hsum := sum_setLauncher Launcher.held s i .finishing
  rw [hi] at hsum
  have hothers : ∀ j, j ≠ i → (s.setLauncher i .finishing).launchers j = s.launchers j :=
    fun j hj => setLauncher_ne s _ hj
  refine ⟨ht,?_,hs.pids,hs.fresh,hs.known,fun j item' proc' hj => ?_,fun q hq hinserting => ?_,hs.popped,
    hs.counted,hs.waiting,hs.results,hs.writes⟩
  · rw [← hs.placed,uncollected,uncollected,hpending]
    change ↑(pendingItems _) + ∑ j, ((s.setLauncher i .finishing).launchers j).held +
      (s.running + s.zombies).map Child.item + s.reaper.items + ↑(s.written.map Child.item) = _
    rw [add_right_cancel hsum,List.nil_append]
  · refine hs.forked j item' proc' ((hothers j ?_).symm.trans hj)
    rintro rfl
    rw [setLauncher_self] at hj
    cases hj
  · change Function.update s.activeTasks proc.pid (some proc.info) q.pid = some q.info
    by_cases hqp : q = proc
    · rw [hqp,Function.update_self]
    · rw [Function.update_of_ne (hs.pid_ne hproc hq hqp)]
      refine hs.entry q hq ?_
      rintro ⟨j,item',hj⟩
      refine hinserting ⟨j,item',(hothers j ?_).trans hj⟩
      rintro rfl
      cases hi.symm.trans hj
      exact hqp rfl

theorem Tracked.pop (hs : Tracked workload s) {proc : Child} {info : TaskInfo}
    (hreaper : s.reaper = .reaped proc) (hlock : s.lock = none) (hinfo : s.activeTasks proc.pid = some info)
    (ht : Accounts workload { s with
      activeTasks := Function.update s.activeTasks proc.pid none, reaper := .popped info }) :
    Tracked workload { s with
      activeTasks := Function.update s.activeTasks proc.pid none, reaper := .popped info } := by
  have hunprocessed : s.unprocessed = s.running + s.zombies + {proc} := by rw [unprocessed,hreaper]; rfl
  have hproc : proc ∈ s.unprocessed := by
    rw [hunprocessed]
    exact Multiset.mem_add.mpr (Or.inr (Multiset.mem_singleton_self proc))
  cases hinfo.symm.trans (hs.entry_of_unlocked hlock hproc)
  have hpids := hs.pids
  rw [hunprocessed,Multiset.map_add] at hpids
  obtain ⟨hchildren,-,hdisjoint⟩ := Multiset.nodup_add.mp hpids
  have hnone : ∀ i item proc, s.launchers i ≠ .forked item proc := by
    intro i item proc hi
    have hheld := (hs.accounts.locked i).mpr (by rw [hi]; rfl)
    rw [hlock] at hheld
    cases hheld
  refine ⟨ht,?_,?_,hs.fresh,fun q hq => ?_,fun i item q hi => absurd hi (hnone i item q),fun q hq _ => ?_,
    fun info hinfo => (by cases hinfo; rfl),hs.counted,fun h => (by cases h),hs.results,hs.writes⟩
  · rw [← hs.placed,uncollected,uncollected,hreaper]
    rfl
  · rw [unprocessed,ReaperPc.child,add_zero]
    exact hchildren
  · refine hs.known q ?_
    rw [unprocessed,ReaperPc.child,add_zero] at hq
    rw [hunprocessed]
    exact Multiset.mem_add.mpr (Or.inl hq)
  · have hq' : q ∈ s.running + s.zombies := by rwa [unprocessed,ReaperPc.child,add_zero] at hq
    have hpid : q.pid ≠ proc.pid := by
      intro hpid
      refine Multiset.disjoint_left.mp hdisjoint (Multiset.mem_map_of_mem Child.pid hq') ?_
      rw [hpid]
      exact Multiset.mem_map_of_mem Child.pid (Multiset.mem_singleton_self proc)
    change Function.update s.activeTasks proc.pid none q.pid = some q.info
    rw [Function.update_of_ne hpid]
    apply hs.entry_of_unlocked hlock
    rw [hunprocessed]
    exact Multiset.mem_add.mpr (Or.inl hq')

theorem Tracked.write (hs : Tracked workload s)
    (hindex : workload.map Request.index = List.range workload.length) {info : TaskInfo} {output : String}
    {returnTime : ℚ} (hreaper : s.reaper = .popped info) (houtput : s.stdout info.proc = some output)
    (ht : Accounts workload { s with
      results := Function.update s.results info.index (some ⟨output,info.arg,info.requestTime,returnTime⟩)
      reapedCount := s.reapedCount + 1
      written := s.written ++ [info.proc]
      reaper := .testing }) :
    Tracked workload { s with
      results := Function.update s.results info.index (some ⟨output,info.arg,info.requestTime,returnTime⟩)
      reapedCount := s.reapedCount + 1
      written := s.written ++ [info.proc]
      reaper := .testing } := by
  obtain ⟨proc,hproc⟩ : ∃ proc, info.proc = proc := ⟨_,rfl⟩
  have hinfo := hs.popped info hreaper
  rw [hproc] at hinfo
  subst hinfo
  have hunprocessed : s.unprocessed = s.running + s.zombies + 0 := by rw [unprocessed,hreaper]; rfl
  have hitem : proc.item ∈ s.uncollected := by
    rw [uncollected,hreaper]
    exact Multiset.mem_add.mpr (Or.inr (Multiset.mem_singleton_self proc.item))
  refine ⟨ht,?_,?_,hs.fresh,?_,?_,?_,fun info hinfo => (by cases hinfo),?_,fun h => (by cases h),fun q hq => ?_,
    fun i hi => ?_⟩
  · rw [← hs.placed,uncollected,uncollected,hreaper,List.map_append,← Multiset.coe_add]
    change ↑s.pendingItems + ∑ i, (s.launchers i).held + (s.running + s.zombies).map Child.item + 0 +
      (↑(s.written.map Child.item) + {proc.item}) = ↑s.pendingItems + ∑ i, (s.launchers i).held +
        (s.running + s.zombies).map Child.item + {proc.item} + ↑(s.written.map Child.item)
    abel
  · have hpids := hs.pids
    rwa [hunprocessed] at hpids
  · have hknown := hs.known
    rwa [hunprocessed] at hknown
  · have hforked := hs.forked
    rwa [hunprocessed] at hforked
  · have hentry := hs.entry
    rwa [hunprocessed] at hentry
  · rw [List.length_append,hs.counted]
    rfl
  · rcases List.mem_append.mp hq with hq | hq
    · obtain ⟨output',returnTime',houtput',hresult⟩ := hs.results q hq
      refine ⟨output',returnTime',houtput',?_⟩
      change Function.update s.results proc.item.index _ q.item.index = _
      rw [Function.update_of_ne (hs.index_ne hindex hitem hq).symm,hresult]
    · rw [List.mem_singleton.mp hq]
      exact ⟨output,returnTime,houtput,Function.update_self _ _ _⟩
  · by_cases hin : i = proc.item.index
    · exact ⟨proc,List.mem_append_right _ List.mem_cons_self,hin.symm⟩
    · change Function.update s.results proc.item.index _ i ≠ none at hi
      rw [Function.update_of_ne hin] at hi
      obtain ⟨q,hq,hqi⟩ := hs.writes i hi
      exact ⟨q,List.mem_append_left _ hq,hqi⟩

theorem Tracked.step (hindex : workload.map Request.index = List.range workload.length)
    (hs : Tracked workload s) (hclean : CleanLaunch s e) (h : step workload.length s e = some t) :
    Tracked workload t := by
  have ht : Accounts workload t := hs.accounts.step h
  cases stepped h with
  | put _ => exact hs.main ht
  | endDispatch _ => exact hs.main ht
  | joinQueue _ _ => exact hs.main ht
  | putSentinel _ _ => exact hs.main ht
  | endSentinels _ _ => exact hs.main ht
  | joinLaunchers _ _ => exact hs.main ht
  | joinReaper _ _ => exact hs.main ht
  | @getItem i item queue hi _ =>
    exact hs.move [item] (fun _ _ hf => by cases hi.symm.trans hf)
      (fun _ _ hf => by cases hf) (by rw [hi]; rfl) rfl ht
  | getSentinel hi _ =>
    exact hs.move [] (fun _ _ hf => by cases hi.symm.trans hf) (fun _ _ hf => by cases hf) (by rw [hi]; rfl)
      (List.append_nil _).symm ht
  | timeout hi =>
    exact hs.move [] (fun _ _ hf => by cases hi.1.symm.trans hf) (fun _ _ hf => by cases hf) (by rw [hi.1]; rfl)
      (List.append_nil _).symm ht
  | acquire hi _ =>
    exact hs.move [] (fun _ _ hf => by cases hi.symm.trans hf) (fun _ _ hf => by cases hf)
      (by rw [hi]; exact (add_zero _).symm) (List.append_nil _).symm ht
  | popen hi _ => exact hs.popen hi hclean ht
  | popenRaises _ => exact hclean.elim
  | insert hi => exact hs.insert hi ht
  | itemDone hi =>
    exact hs.move [] (fun _ _ hf => by cases hi.symm.trans hf) (fun _ _ hf => by cases hf) (by rw [hi]; rfl)
      (List.append_nil _).symm ht
  | sentinelDone hi =>
    exact hs.move [] (fun _ _ hf => by cases hi.symm.trans hf) (fun _ _ hf => by cases hf) (by rw [hi]; rfl)
      (List.append_nil _).symm ht
  | @exit proc output hproc =>
    have hchildren : s.running.erase proc + proc ::ₘ s.zombies = s.running + s.zombies := by
      rw [Multiset.add_cons,← Multiset.cons_add,Multiset.cons_erase hproc]
    refine hs.observe (by rw [hchildren]; rfl) (by rw [hchildren]) (fun q hq => ?_) (fun _ hf => hf) hs.waiting
    have hitem : proc.item ∈ s.uncollected := by
      refine Multiset.mem_add.mpr (Or.inl (Multiset.mem_add.mpr (Or.inr ?_)))
      exact Multiset.mem_map_of_mem _ (Multiset.mem_add.mpr (Or.inl hproc))
    have hne : q ≠ proc := fun heq => hs.index_ne hindex hitem hq (by rw [heq])
    exact Function.update_of_ne hne _ _
  | @reclaim proc hproc =>
    -- two children of the run would have the PID
    obtain ⟨hzombie,old,hold,hne,hpid⟩ := hproc
    have hmem : proc ∈ s.unprocessed := Multiset.mem_add.mpr (Or.inl (Multiset.mem_add.mpr (Or.inr hzombie)))
    exact absurd (List.inj_on_of_nodup_map hs.fresh hold (hs.known proc hmem) hpid) hne
  | test hreaper =>
    refine hs.observe ?_ ?_ (fun _ _ => rfl) (fun info hf => ?_) (fun hf => ?_)
    · rw [unprocessed,hreaper]
      split <;> rfl
    · rw [hreaper]
      split <;> rfl
    · split at hf <;> cases hf
    · split at hf
      case isTrue hlt => exact hlt
      case isFalse => cases hf
  | @wait proc hreaper hproc =>
    have hchildren : s.running + s.zombies.erase proc + {proc} = s.running + s.zombies := by
      rw [add_assoc,add_comm _ ({proc} : Multiset Child),Multiset.singleton_add,Multiset.cons_erase hproc]
    refine hs.observe ?_ ?_ (fun _ _ => rfl) (fun _ hf => by cases hf) (fun hf => by cases hf)
    · rw [unprocessed,hreaper]
      exact hchildren.trans (add_zero _).symm
    · rw [hreaper,← hchildren,Multiset.map_add _ _ ({proc} : Multiset Child),Multiset.map_singleton]
      exact (add_zero _).symm
  | noChild hreaper _ =>
    refine hs.observe ?_ ?_ (fun _ _ => rfl) (fun _ hf => by cases hf) (fun hf => by cases hf)
    · rw [unprocessed,hreaper]
      rfl
    · rw [hreaper]
      rfl
  | pop hreaper hlock hinfo => exact hs.pop hreaper hlock hinfo ht
  | popUnknown hreaper hlock hinfo =>
    rename_i proc
    have hproc : proc ∈ s.unprocessed := by
      rw [unprocessed,hreaper]
      exact Multiset.mem_add.mpr (Or.inr (Multiset.mem_singleton_self proc))
    cases hinfo.symm.trans (hs.entry_of_unlocked hlock hproc)
  | write hreaper houtput => exact hs.write hindex hreaper houtput ht

/-! ## Runs -/

/-- In a run without a failed launch and without a PID that is given to two children, every job is
collected once, under its own index. -/
theorem every_job_collected {es : List ExecutorEvent}
    (hindex : workload.map Request.index = List.range workload.length)
    (hclean : Along (step workload.length) CleanLaunch (start workload) es) :
    Always (step workload.length) (Collects workload) (start workload) es := by
  have htracked : Always (step workload.length) (Tracked workload) (start workload) es :=
    always_of_along (fun _ _ _ hs hc h => hs.step hindex hc h) tracked_start hclean
  exact htracked.mono (fun _ hs => hs.collects hindex)

def nextItem : Request := ⟨"31",1,6⟩

def failedLaunch : List ExecutorEvent := [.put,.get 0,.acquire 0,.popenRaises 0,.taskDone 0]

/-- PID 100 is waited for, given to the second child, and then looked up for the first. -/
def reusedPid : List ExecutorEvent :=
  [.put,.put,.get 0,.get 1,.acquire 0,.popen 0 100,.insert 0,.exit ⟨100,lateItem⟩ "100",.test,
    .wait ⟨100,lateItem⟩,.acquire 1,.popen 1 100,.insert 1]

def otherItems : List Request := [⟨"32",2,7⟩,⟨"33",3,8⟩]

/-- From the queue to the table, by one launcher. -/
def launch (i : Fin numLaunchers) (pid : ℕ) : List ExecutorEvent :=
  [.get i,.acquire i,.popen i pid,.insert i,.taskDone i]

def collect (proc : Child) (output : String) : List ExecutorEvent :=
  [.exit proc output,.test,.wait proc,.pop,.write 9]

/-- The third child gets the PID of the first, and exits. The fourth launch makes launcher 0, the
last to refer to it, drop the `Popen` object of the first. -/
def droppedPopen : List ExecutorEvent :=
  [.put,.put,.put,.put] ++ launch 0 100 ++ launch 1 101 ++ collect ⟨100,lateItem⟩ "100" ++
    collect ⟨101,nextItem⟩ "101" ++ launch 1 100 ++ [.exit ⟨100,⟨"32",2,7⟩⟩ "100",.get 0,.acquire 0,.popen 0 102,
      .reclaim ⟨100,⟨"32",2,7⟩⟩,.insert 0,.taskDone 0,.endDispatch] ++ collect ⟨102,⟨"33",3,8⟩⟩ "102"

/-- A failed launch leaves the reaper waiting for a child that never was; a PID that comes back
costs the first child its entry, or the other one its `os.wait`. -/
theorem job_lost :
    (∃ s, run (step 1) (start [lateItem]) failedLaunch = some s ∧ s.AllHandled ∧ s.reapedCount = 0 ∧
      ¬Collects [lateItem] s) ∧
    (∃ s, run (step 2) (start [lateItem,nextItem]) reusedPid = some s ∧ s.reaper = .reaped ⟨100,lateItem⟩ ∧
      s.activeTasks 100 = some (Child.info ⟨100,nextItem⟩) ∧ ¬Collects [lateItem,nextItem] s) ∧
    ∃ s, run (step 4) (start (lateItem :: nextItem :: otherItems)) droppedPopen = some s ∧ s.AllHandled ∧
      s.reapedCount = 3 ∧ ¬Collects (lateItem :: nextItem :: otherItems) s := by
  refine ⟨?_,?_,?_⟩
  · have hhandled : ∀ s, run (step 1) (start [lateItem]) failedLaunch = some s → s.AllHandled := by
      rintro s ⟨⟩
      exact ⟨rfl,by decide,rfl,rfl,rfl⟩
    refine ⟨_,rfl,hhandled _ rfl,rfl,fun h => ?_⟩
    cases (h.complete (hhandled _ rfl)).1
  · have hidle : ∀ s, run (step 2) (start [lateItem,nextItem]) reusedPid = some s →
        ∀ i, (s.launchers i).handling = false := by
      rintro s ⟨⟩
      decide
    refine ⟨_,rfl,rfl,rfl,fun h => ?_⟩
    have hentry := h.kept ⟨100,lateItem⟩ (Multiset.mem_add.mpr (Or.inr (Multiset.mem_singleton_self _))) ?_
    · revert hentry
      decide
    · rintro ⟨i,item,hi⟩
      have hhandling := hidle _ rfl i
      rw [hi] at hhandling
      cases hhandling
  · have hhandled : ∀ s, run (step 4) (start (lateItem :: nextItem :: otherItems)) droppedPopen = some s →
        s.AllHandled := by
      rintro s ⟨⟩
      exact ⟨rfl,by decide,rfl,rfl,rfl⟩
    refine ⟨_,rfl,hhandled _ rfl,rfl,fun h => ?_⟩
    cases (h.complete (hhandled _ rfl)).1

/-- Two jobs from the file to the table, the second of which ends first. -/
def twoJobs : List ExecutorEvent :=
  [.put,.put,.get 0,.get 1,.acquire 1,.popen 1 101,.insert 1,.acquire 0,.popen 0 100,.insert 0,
    .exit ⟨101,nextItem⟩ "101",.test,.wait ⟨101,nextItem⟩,.pop,.exit ⟨100,lateItem⟩ "100",.write 7,.test,
    .wait ⟨100,lateItem⟩,.pop,.write 9]

theorem every_job_collected_two : (∃ s, run (step 2) (start [lateItem,nextItem]) twoJobs = some s ∧
      s.results 0 = some ⟨"100","30",5,9⟩ ∧ s.results 1 = some ⟨"101","31",6,7⟩) ∧
    Always (step 2) (Collects [lateItem,nextItem]) (start [lateItem,nextItem]) twoJobs := by
  have hindex : [lateItem,nextItem].map Request.index = List.range [lateItem,nextItem].length := rfl
  have hclean : Along (step [lateItem,nextItem].length) CleanLaunch (start [lateItem,nextItem]) twoJobs := by
    refine .cons rfl trivial (.cons rfl trivial (.cons rfl trivial (.cons rfl trivial (.cons rfl trivial ?_))))
    refine .cons rfl List.not_mem_nil (.cons rfl trivial (.cons rfl trivial (.cons rfl ?_ ?_)))
    · exact List.not_mem_cons_of_ne_of_not_mem (by decide) List.not_mem_nil
    · refine .cons rfl trivial (.cons rfl trivial (.cons rfl trivial (.cons rfl trivial (.cons rfl trivial ?_))))
      exact .cons rfl trivial (.cons rfl trivial (.cons rfl trivial (.cons rfl trivial (.cons rfl trivial
        (.cons rfl trivial trivial)))))
  exact ⟨⟨_,rfl,rfl,rfl⟩,every_job_collected hindex hclean⟩

end Executor
end ServerlessSched.Loadgen
