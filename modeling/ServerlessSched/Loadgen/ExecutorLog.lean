import ServerlessSched.Loadgen.Collection
import ServerlessSched.Loadgen.ResultLog
import Mathlib.Data.List.Perm.Basic

/-! # What a run of the executor leaves in its log

Children exit in any order, and the reaper collects them in that order. A launch that fails or
a PID that comes back too early may keep `main` from its end; but once `main` is there, the log
has every item, in the order of the workload.
-/
namespace ServerlessSched.Loadgen
open Runs PythonText

/-- The loop over `task_results`, which takes every entry apart. -/
def taskResults (total : ℕ) (results : ℕ → Option Result) : Option (List Result) := (List.range total).mapM results

/-- `log_tasks_output(results, outputfile)`. -/
def Executor.log (total : ℕ) (s : Executor) : Option (Text × List Timing) :=
  (taskResults total s.results).bind logTasksOutput

/-- An output that begins with the PID of the child. -/
def Child.Prints (proc : Child) (output : String) : Prop := ∃ rest, output.toList = str proc.pid ++ ' ' :: rest

/-- What `launch_function` prints begins with its PID. -/
def PrintsPid : ExecutorEvent → Prop
  | .exit proc output => proc.Prints output
  | _ => True

/-- A child that exits has written what `writes` allows it to. -/
def ExitsWith (writes : Child → String → Prop) : ExecutorEvent → Prop
  | .exit proc output => writes proc output
  | _ => True

theorem PrintsPid.exitsWith {e : ExecutorEvent} (h : PrintsPid e) : ExitsWith Child.Prints e := by
  cases e with
  | exit proc output => exact h
  | _ => trivial

/-- The line of a child in the log. -/
def Child.line (proc : Child) : Text := str proc.pid ++ ' ' :: proc.item.arg.toList

/-- The PID of a child and the number it was launched with. -/
def Child.logged (proc : Child) : ℕ × ℕ := (proc.pid,intOfDigits proc.item.arg.toList)

/-- The child as a job of the log. -/
def Child.job (proc : Child) : Job := ⟨intOfDigits proc.item.arg.toList,some (proc.pid,0),proc.item.requestTime,0⟩

/-- The file has a line for each item, in the order of the workload, with the PID of a child that
was launched for it. These are the children that were collected, each of them once, and the rows
of the timings go with the lines. -/
structure LogsWorkload (workload : List Request) (s : Executor) (file : Text) (timings : List Timing)
    (procs : List Child) : Prop where
  items : procs.map Child.item = workload
  collected : procs.Perm s.written
  lines : lines file = procs.map Child.line
  timings : timings.map (fun t => (t.pid,t.arg,t.requestTime)) =
    procs.map (fun proc => (str proc.pid,proc.item.arg.toList,proc.item.requestTime))

/-- The items a launcher holds that are not in the table. -/
def Launcher.carried : Launcher → Multiset Request
  | .taken item | .locked item | .forked item _ => {item}
  | .waiting | .finishing | .leaving | .gone => 0

/-- The item of the entry the reaper has taken out. -/
def ReaperPc.removed : ReaperPc → Multiset Request
  | .popped info => {info.proc.item}
  | .testing | .waiting | .reaped _ | .ended => 0

namespace Executor
variable {workload : List Request} {total : ℕ} {s t : Executor} {e : ExecutorEvent}

/-! ## The reaper ends last -/

/-- The reaper ends when everything is counted, and `main` after the reaper. -/
structure Counted (total : ℕ) (s : Executor) : Prop where
  ended : s.reaper = .ended → total ≤ s.reapedCount
  done : s.main = .done → s.reaper = .ended

/-- A step that neither ends `main` nor moves the reaper. -/
theorem Counted.of_main (hs : Counted total s) (hreaper : t.reaper = s.reaper)
    (hcount : t.reapedCount = s.reapedCount) (hmain : t.main = .done → s.main = .done) : Counted total t := by
  refine ⟨fun hended => ?_,fun hdone => ?_⟩
  · rw [hcount]
    exact hs.ended (hreaper.symm.trans hended)
  · rw [hreaper]
    exact hs.done (hmain hdone)

/-- A step of the reaper that does not end it. -/
theorem Counted.of_reaper (hs : Counted total s) (hbefore : s.reaper ≠ .ended) (hafter : t.reaper ≠ .ended)
    (hmain : t.main = s.main) : Counted total t := by
  refine ⟨fun hended => absurd hended hafter,fun hdone => ?_⟩
  rw [hmain] at hdone
  exact absurd (hs.done hdone) hbefore

theorem Counted.step (hs : Counted total s) (h : step total s e = some t) : Counted total t := by
  cases stepped h with
  | put _ | endDispatch _ | joinQueue _ _ | putSentinel _ _ | endSentinels _ _ | joinLaunchers _ _ =>
    exact hs.of_main rfl rfl (fun hf => by cases hf)
  | joinReaper _ hended => exact ⟨hs.ended,fun _ => hended⟩
  | getItem _ _ | getSentinel _ _ | timeout _ | acquire _ _ | popen _ _ | popenRaises _ | insert _ | itemDone _
  | sentinelDone _ | exit _ | reclaim _ => exact hs.of_main rfl rfl id
  | test hreaper =>
    refine ⟨fun hended => ?_,fun hdone => by cases hreaper.symm.trans (hs.done hdone)⟩
    change (if s.reapedCount < total then ReaperPc.waiting else .ended) = .ended at hended
    by_cases hlt : s.reapedCount < total
    · rw [if_pos hlt] at hended
      cases hended
    · exact not_lt.mp hlt
  | wait hreaper _ | noChild hreaper _ | pop hreaper _ _ | popUnknown hreaper _ _ | write hreaper _ =>
    exact hs.of_reaper (fun hf => by cases hreaper.symm.trans hf) (fun hf => by cases hf) rfl

/-! ## The entries of the table -/

/-- The items that have not got an entry in the table. -/
def unentered (s : Executor) : Multiset Request := ↑s.pendingItems + ∑ i, (s.launchers i).carried

/-- `entered` has a child for each entry in the table. An entry is taken out once and written once,
so no item is in two places. What is written is what the child has said. -/
structure Ledger (writes : Child → String → Prop) (workload : List Request) (entered : Multiset Child) (s : Executor) :
    Prop where
  accounts : Accounts workload s
  placed : s.unentered + entered.map Child.item + s.reaper.removed + ↑(s.written.map Child.item) ≤ ↑workload
  forked : ∀ i item proc, s.launchers i = .forked item proc → proc.item = item
  entry : ∀ pid info, s.activeTasks pid = some info → info = info.proc.info ∧ info.proc.pid = pid ∧ info.proc ∈ entered
  popped : ∀ info, s.reaper = .popped info → info = info.proc.info
  counted : s.reapedCount = s.written.length
  printed : ∀ proc output, s.stdout proc = some output → writes proc output
  results : ∀ proc ∈ s.written, ∃ output returnTime, writes proc output ∧
    s.results proc.item.index = some ⟨output,proc.item.arg,proc.item.requestTime,returnTime⟩

variable {writes : Child → String → Prop}

theorem ledger_start : Ledger writes workload 0 (start workload) where
  accounts := accounts_start
  placed := by simp [unentered,start,pendingItems,todo,Launcher.carried,ReaperPc.removed]
  forked i item proc h := by cases h
  entry pid info h := by cases h
  popped info h := by cases h
  counted := rfl
  printed proc output h := by cases h
  results proc h := by cases h

variable {entered : Multiset Child}

theorem Ledger.main (hs : Ledger writes workload entered s) {main : MainPc} {queue : List (Option Request)}
    {unfinished : ℕ}
    (ht : Accounts workload { s with main := main, queue := queue, unfinished := unfinished }) :
    Ledger writes workload entered { s with main := main, queue := queue, unfinished := unfinished } := by
  have hpending := hs.accounts.pending_eq ht [] (List.append_nil _).symm
  refine ⟨ht,?_,hs.forked,hs.entry,hs.popped,hs.counted,hs.printed,hs.results⟩
  have hplaced := hs.placed
  rw [unentered,hpending] at hplaced
  exact hplaced

/-- A launcher moves on with what it has and what it takes, or loses it. -/
theorem Ledger.move (hs : Ledger writes workload entered s) {i : Fin numLaunchers} {l : Launcher}
    {queue : List (Option Request)} {unfinished : ℕ} {lock : Option (Fin numLaunchers)}
    {taken : List Request} {running : Multiset Child} {launched : List Child} (items : List Request)
    (hl : ∀ item proc, l = .forked item proc → proc.item = item)
    (hcarried : l.carried ≤ (s.launchers i).carried + ↑items) (htaken : taken = s.taken ++ items)
    (ht : Accounts workload ({ s with queue := queue, unfinished := unfinished, lock := lock, taken := taken
                                      running := running, launched := launched }.setLauncher i l)) :
    Ledger writes workload entered ({ s with queue := queue, unfinished := unfinished, lock := lock, taken := taken
                                             running := running, launched := launched }.setLauncher i l) := by
  have hpending := hs.accounts.pending_eq ht items htaken
  have hsum : ∑ j, ((s.setLauncher i l).launchers j).carried ≤ ∑ j, (s.launchers j).carried + ↑items := by
    apply le_of_add_le_add_right (a := (s.launchers i).carried)
    rw [sum_setLauncher Launcher.carried,add_right_comm,add_assoc]
    exact add_le_add le_rfl hcarried
  refine ⟨ht,le_trans ?_ hs.placed,fun j item proc hj => ?_,hs.entry,hs.popped,hs.counted,hs.printed,hs.results⟩
  · have hunentered : ({ s with queue := queue, unfinished := unfinished, lock := lock, taken := taken
                                running := running, launched := launched }.setLauncher i l).unentered ≤
        s.unentered := by
      refine le_trans (add_le_add le_rfl hsum) (le_of_eq ?_)
      rw [unentered,hpending,← Multiset.coe_add]
      abel
    exact add_le_add (add_le_add (add_le_add hunentered le_rfl) le_rfl) le_rfl
  · by_cases hji : j = i
    · rw [hji,setLauncher_self] at hj
      exact hl item proc hj
    · rw [setLauncher_ne _ _ hji] at hj
      exact hs.forked j item proc hj

/-- The table takes over what the launcher had. -/
theorem Ledger.insert (hs : Ledger writes workload entered s) {i : Fin numLaunchers} {item : Request} {proc : Child}
    (hi : s.launchers i = .forked item proc)
    (ht : Accounts workload ({ s with
      activeTasks := Function.update s.activeTasks proc.pid
        (some ⟨item.arg,item.requestTime,item.index,proc⟩)
      lock := none }.setLauncher i .finishing)) :
    Ledger writes workload (proc ::ₘ entered) ({ s with
      activeTasks := Function.update s.activeTasks proc.pid
        (some ⟨item.arg,item.requestTime,item.index,proc⟩)
      lock := none }.setLauncher i .finishing) := by
  obtain rfl := hs.forked i item proc hi
  have hpending := hs.accounts.pending_eq ht [] (List.append_nil _).symm
  have hsum := sum_setLauncher Launcher.carried s i .finishing
  rw [hi] at hsum
  refine ⟨ht,le_trans (le_of_eq ?_) hs.placed,fun j item' q hj => ?_,fun pid info hinfo => ?_,hs.popped,
    hs.counted,hs.printed,hs.results⟩
  · have hcarried : ∑ j, (s.launchers j).carried =
        ∑ j, ((s.setLauncher i .finishing).launchers j).carried + {proc.item} := by
      rw [← add_zero (∑ j, (s.launchers j).carried)]
      exact hsum.symm
    rw [unentered,unentered,hpending,hcarried,List.nil_append,Multiset.map_cons,← Multiset.singleton_add,
      ← add_assoc,← add_assoc]
    rfl
  · by_cases hji : j = i
    · rw [hji,setLauncher_self] at hj
      cases hj
    · rw [setLauncher_ne _ _ hji] at hj
      exact hs.forked j item' q hj
  · change Function.update s.activeTasks proc.pid (some proc.info) pid = some info at hinfo
    by_cases hpid : pid = proc.pid
    · rw [hpid,Function.update_self] at hinfo
      cases hinfo
      exact ⟨rfl,hpid.symm,Multiset.mem_cons_self _ _⟩
    · rw [Function.update_of_ne hpid] at hinfo
      obtain ⟨hown,hpid,hmem⟩ := hs.entry pid info hinfo
      exact ⟨hown,hpid,Multiset.mem_cons_of_mem hmem⟩

/-- The reaper moves, or a child does, and the table stays as it is. -/
theorem Ledger.observe (hs : Ledger writes workload entered s) {running zombies : Multiset Child}
    {stdout : Child → Option String} {reaper : ReaperPc} (hremoved : reaper.removed ≤ s.reaper.removed)
    (hpopped : ∀ info, reaper = .popped info → s.reaper = .popped info)
    (hprinted : ∀ proc output, stdout proc = some output → writes proc output) :
    Ledger writes workload entered { s with running := running, zombies := zombies, stdout := stdout, reaper := reaper } := by
  obtain ⟨ha,hplaced,hforked,hentry,hpopped',hcounted,-,hresults⟩ := hs
  refine ⟨⟨ha.taken,ha.plain,ha.staying,ha.joined,ha.unfinished,ha.locked⟩,le_trans ?_ hplaced,hforked,hentry,
    fun info hinfo => hpopped' info (hpopped info hinfo),hcounted,hprinted,hresults⟩
  exact add_le_add (add_le_add le_rfl hremoved) le_rfl

/-- The entry of another PID is that of another child. -/
theorem Ledger.pop (hs : Ledger writes workload entered s) {proc : Child} {info : TaskInfo}
    (hreaper : s.reaper = .reaped proc) (hinfo : s.activeTasks proc.pid = some info)
    (ht : Accounts workload { s with
      activeTasks := Function.update s.activeTasks proc.pid none, reaper := .popped info }) :
    Ledger writes workload (entered.erase info.proc) { s with
      activeTasks := Function.update s.activeTasks proc.pid none, reaper := .popped info } := by
  obtain ⟨hown,hpid,hmem⟩ := hs.entry proc.pid info hinfo
  refine ⟨ht,le_trans (le_of_eq ?_) hs.placed,hs.forked,fun pid other hother => ?_,fun other h => ?_,hs.counted,
    hs.printed,hs.results⟩
  · have hentered : entered.map Child.item = (entered.erase info.proc).map Child.item + {info.proc.item} := by
      conv_lhs => rw [← Multiset.cons_erase hmem]
      rw [Multiset.map_cons,← Multiset.singleton_add,add_comm]
    rw [hentered,hreaper,ReaperPc.removed,ReaperPc.removed,add_zero,← add_assoc]
    rfl
  · change Function.update s.activeTasks proc.pid none pid = some other at hother
    by_cases heq : pid = proc.pid
    · rw [heq,Function.update_self] at hother
      cases hother
    · rw [Function.update_of_ne heq] at hother
      obtain ⟨hown',hpid',hmem'⟩ := hs.entry pid other hother
      refine ⟨hown',hpid',(Multiset.mem_erase_of_ne ?_).mpr hmem'⟩
      intro hproc
      exact heq (by rw [← hpid',hproc,hpid])
  · cases h
    exact hown

/-- The index of the entry was not written before. -/
theorem Ledger.write (hs : Ledger writes workload entered s)
    (hindex : workload.map Request.index = List.range workload.length) {info : TaskInfo} {output : String}
    {returnTime : ℚ} (hreaper : s.reaper = .popped info) (houtput : s.stdout info.proc = some output)
    (ht : Accounts workload { s with
      results := Function.update s.results info.index (some ⟨output,info.arg,info.requestTime,returnTime⟩)
      reapedCount := s.reapedCount + 1
      written := s.written ++ [info.proc]
      reaper := .testing }) :
    Ledger writes workload entered { s with
      results := Function.update s.results info.index (some ⟨output,info.arg,info.requestTime,returnTime⟩)
      reapedCount := s.reapedCount + 1
      written := s.written ++ [info.proc]
      reaper := .testing } := by
  obtain ⟨proc,hproc⟩ : ∃ proc, info.proc = proc := ⟨_,rfl⟩
  have hinfo := hs.popped info hreaper
  rw [hproc] at hinfo
  subst hinfo
  have hplaced := hs.placed
  rw [hreaper] at hplaced
  have hfresh : ∀ q ∈ s.written, q.item.index ≠ proc.item.index := by
    intro q hq heq
    have hle : ({proc.item} : Multiset Request) + ↑(s.written.map Child.item) ≤ ↑workload :=
      le_trans (add_le_add (Multiset.le_add_left _ _) le_rfl) hplaced
    have hnodup : (Multiset.map Request.index ({proc.item} + ↑(s.written.map Child.item))).Nodup := by
      refine Multiset.nodup_of_le (Multiset.map_le_map hle) ?_
      rw [Multiset.map_coe,hindex]
      exact Multiset.coe_nodup.mpr List.nodup_range
    rw [Multiset.singleton_add,Multiset.map_cons,Multiset.nodup_cons,← heq,Multiset.map_coe] at hnodup
    exact hnodup.1 (List.mem_map_of_mem (List.mem_map_of_mem hq))
  refine ⟨ht,le_trans (le_of_eq ?_) hplaced,hs.forked,hs.entry,fun info h => (by cases h),?_,hs.printed,fun q hq => ?_⟩
  · rw [List.map_append,← Multiset.coe_add]
    change s.unentered + entered.map Child.item + 0 + (↑(s.written.map Child.item) + {proc.item}) =
      s.unentered + entered.map Child.item + {proc.item} + ↑(s.written.map Child.item)
    abel
  · rw [List.length_append,hs.counted]
    rfl
  · rcases List.mem_append.mp hq with hq | hq
    · obtain ⟨output',returnTime',hprints,hresult⟩ := hs.results q hq
      refine ⟨output',returnTime',hprints,?_⟩
      change Function.update s.results proc.item.index _ q.item.index = _
      rw [Function.update_of_ne (hfresh q hq),hresult]
    · rw [List.mem_singleton.mp hq]
      exact ⟨output,returnTime,hs.printed proc output houtput,Function.update_self _ _ _⟩

theorem Ledger.step (hindex : workload.map Request.index = List.range workload.length)
    (hs : Ledger writes workload entered s) (he : ExitsWith writes e) (h : step workload.length s e = some t) :
    ∃ entered', Ledger writes workload entered' t := by
  have ht : Accounts workload t := hs.accounts.step h
  cases stepped h with
  | put _ | endDispatch _ | joinQueue _ _ | putSentinel _ _ | endSentinels _ _ | joinLaunchers _ _
  | joinReaper _ _ => exact ⟨entered,hs.main ht⟩
  | @getItem i item queue hi _ =>
    exact ⟨entered,hs.move [item] (fun _ _ hf => by cases hf) (by rw [hi]; exact le_rfl) rfl ht⟩
  | getSentinel _ _ | timeout _ | popenRaises _ | itemDone _ | sentinelDone _ =>
    exact ⟨entered,hs.move [] (fun _ _ hf => by cases hf) (Multiset.zero_le _) (List.append_nil _).symm ht⟩
  | acquire hi _ =>
    exact ⟨entered,hs.move [] (fun _ _ hf => by cases hf) (by rw [hi]; exact le_rfl) (List.append_nil _).symm ht⟩
  | popen hi _ =>
    refine ⟨entered,hs.move [] ?_ (by rw [hi]; exact le_rfl) (List.append_nil _).symm ht⟩
    rintro item proc ⟨⟩
    rfl
  | insert hi => exact ⟨_,hs.insert hi ht⟩
  | @exit proc output _ =>
    refine ⟨entered,hs.observe le_rfl (fun _ hf => hf) fun q out hout => ?_⟩
    by_cases hq : q = proc
    · rw [hq,Function.update_self] at hout
      cases hout
      rw [hq]
      exact he
    · rw [Function.update_of_ne hq] at hout
      exact hs.printed q out hout
  | reclaim _ => exact ⟨entered,hs.observe le_rfl (fun _ hf => hf) hs.printed⟩
  | test _ =>
    refine ⟨entered,hs.observe ?_ (fun info hf => ?_) hs.printed⟩
    · split <;> exact Multiset.zero_le _
    · split at hf <;> cases hf
  | wait _ _ | noChild _ _ | popUnknown _ _ _ =>
    exact ⟨entered,hs.observe (Multiset.zero_le _) (fun _ hf => by cases hf) hs.printed⟩
  | pop hreaper _ hinfo => exact ⟨_,hs.pop hreaper hinfo ht⟩
  | write hreaper houtput => exact ⟨entered,hs.write hindex hreaper houtput ht⟩

/-! ## The log -/

/-- When as many are collected as there are, the collected children are in the order of the
workload but for a permutation. -/
theorem Ledger.collected (hs : Ledger writes workload entered s) (hcount : workload.length ≤ s.reapedCount) :
    ∃ procs : List Child, procs.Perm s.written ∧ procs.map Child.item = workload := by
  have hle : (↑(s.written.map Child.item) : Multiset Request) ≤ ↑workload :=
    le_trans (Multiset.le_add_left _ _) hs.placed
  have hall : (s.written.map Child.item).Perm workload := by
    refine Multiset.coe_eq_coe.mp (Multiset.eq_of_le_of_card_le hle ?_)
    rw [Multiset.coe_card,Multiset.coe_card,List.length_map,← hs.counted]
    exact hcount
  have hcomp : Relation.Comp (List.Forall₂ (fun proc item => Child.item proc = item)) List.Perm s.written workload := by
    refine ⟨_,?_,hall⟩
    rw [List.forall₂_map_right_iff,List.forall₂_same]
    exact fun _ _ => rfl
  rw [List.forall₂_comp_perm_eq_perm_comp_forall₂] at hcomp
  obtain ⟨procs,hperm,hitems⟩ := hcomp
  refine ⟨procs,hperm.symm,?_⟩
  rw [← List.forall₂_eq_eq_eq,List.forall₂_map_left_iff]
  exact hitems

/-- Each child in a list has left a result that gives its line. -/
theorem logs_of_results {results : ℕ → Option Result} {procs : List Child}
    (h : ∀ proc ∈ procs, ∃ output returnTime, proc.Prints output ∧
      results proc.item.index = some ⟨output,proc.item.arg,proc.item.requestTime,returnTime⟩) :
    ∃ rs rows, ((procs.map Child.item).map Request.index).mapM results = some rs ∧ logTasks rs = some rows ∧
      rows.map Prod.fst = procs.map Child.line ∧
      (rows.map Prod.snd).map (fun t => (t.pid,t.arg,t.requestTime)) =
        procs.map (fun proc => (str proc.pid,proc.item.arg.toList,proc.item.requestTime)) := by
  induction procs with
  | nil => exact ⟨[],[],rfl,rfl,rfl,rfl⟩
  | cons proc procs ih =>
    obtain ⟨rs,rows,hrs,hrows,hlines,htimings⟩ := ih (fun q hq => h q (List.mem_cons_of_mem proc hq))
    obtain ⟨output,returnTime,⟨rest,houtput⟩,hresult⟩ := h proc List.mem_cons_self
    have hsplit : split output.toList = str proc.pid :: split rest := by
      rw [houtput]
      exact (isWord_str proc.pid).split_append rest
    refine ⟨⟨output,proc.item.arg,proc.item.requestTime,returnTime⟩ :: rs,
      (proc.line,⟨str proc.pid,proc.item.arg.toList,proc.item.requestTime,returnTime,
        returnTime - proc.item.requestTime⟩) :: rows,?_,?_,?_,?_⟩
    · rw [List.map_cons,List.map_cons,List.mapM_cons,hresult,hrs]
      rfl
    · rw [logTasks,logTask,hsplit,hrows]
      rfl
    · rw [List.map_cons,List.map_cons,hlines]
    · rw [List.map_cons,List.map_cons,List.map_cons,htimings]

theorem line_inline {proc : Child} (h : Inline proc.item.arg.toList) : Inline proc.line :=
  (isWord_str proc.pid).inline.append (h.cons (by decide))

theorem Ledger.logs (hs : Ledger Child.Prints workload entered s) (hcount : workload.length ≤ s.reapedCount)
    (hindex : workload.map Request.index = List.range workload.length) (hne : workload ≠ [])
    (hargs : ∀ item ∈ workload, Inline item.arg.toList) :
    ∃ procs file timings, s.log workload.length = some (file,timings) ∧
      LogsWorkload workload s file timings procs := by
  obtain ⟨procs,hperm,hitems⟩ := hs.collected hcount
  obtain ⟨rs,rows,hrs,hrows,hlines,htimings⟩ :=
    logs_of_results (fun proc hproc => hs.results proc (hperm.mem_iff.mp hproc))
  rw [hitems,hindex] at hrs
  refine ⟨procs,join ['\n'] (rows.map Prod.fst) ++ ['\n'],rows.map Prod.snd,?_,hitems,hperm,?_,htimings⟩
  · rw [log,taskResults,hrs,Option.bind_some,logTasksOutput,hrows]
    rfl
  · rw [hlines]
    apply lines_join
    · rintro hnil
      rw [List.map_eq_nil_iff] at hnil
      rw [hnil] at hitems
      exact hne hitems.symm
    · intro l hl
      obtain ⟨proc,hproc,rfl⟩ := List.mem_map.mp hl
      refine line_inline (hargs proc.item ?_)
      rw [← hitems]
      exact List.mem_map_of_mem hproc

/-- A run that takes `main` to its end has counted everything. -/
theorem ledger_of_run {es : List ExecutorEvent} (hindex : workload.map Request.index = List.range workload.length)
    (hwrites : ∀ e ∈ es, ExitsWith writes e) (hr : run (step workload.length) (start workload) es = some s)
    (hdone : s.main = .done) : (∃ entered, Ledger writes workload entered s) ∧ workload.length ≤ s.reapedCount := by
  have halong : Along (step workload.length) (fun _ e => ExitsWith writes e) (start workload) es :=
    along_of_forall (fun _ e he => hwrites e he)
  have halways : Always (step workload.length) (fun s => ∃ entered, Ledger writes workload entered s) (start workload) es :=
    always_of_along (fun _ _ _ hs he h => hs.choose_spec.step hindex he h) ⟨0,ledger_start⟩ halong
  have hfirst : Counted workload.length (start workload) := ⟨nofun,nofun⟩
  have hcounted : Counted workload.length s := run_invariant (fun _ _ _ hs h => hs.step h) hfirst hr
  exact ⟨always_iff_visited.mp halways es s List.prefix_rfl hr,hcounted.ended (hcounted.done hdone)⟩

/-- Whatever happened on the way, a run that takes `main` to its end has a log of the whole
workload. -/
theorem workload_logged {es : List ExecutorEvent} (hindex : workload.map Request.index = List.range workload.length)
    (hne : workload ≠ []) (hargs : ∀ item ∈ workload, Inline item.arg.toList) (hprints : ∀ e ∈ es, PrintsPid e)
    (hr : run (step workload.length) (start workload) es = some s) (hdone : s.main = .done) :
    ∃ procs file timings, s.log workload.length = some (file,timings) ∧
      LogsWorkload workload s file timings procs := by
  obtain ⟨⟨entered,hs⟩,hcount⟩ := ledger_of_run hindex (fun e he => (hprints e he).exitsWith) hr hdone
  exact hs.logs hcount hindex hne hargs

/-- The run of a workload of two items to the end of `main`. The second child exits first. -/
def pairRun (p q : Child) (pOutput qOutput : String) : List ExecutorEvent :=
  [.put,.put,.endDispatch,.get 0,.acquire 0,.popen 0 p.pid,.insert 0,.taskDone 0,.get 1,.acquire 1,.popen 1 q.pid,
    .insert 1,.taskDone 1,.joinQueue,.putSentinel,.putSentinel,.putSentinel,.putSentinel,.putSentinel,.get 0,.get 1,
    .get 2,.get 3,.taskDone 0,.taskDone 1,.taskDone 2,.taskDone 3,.joinLaunchers,.exit q qOutput,.test,.wait q,.pop,
    .write 7,.exit p pOutput,.test,.wait p,.pop,.write 9,.test,.joinReaper]

def wholeRun : List ExecutorEvent := pairRun ⟨100,lateItem⟩ ⟨101,nextItem⟩ "100 1346269" "101 2178309"

theorem wholeRun_prints : ∀ e ∈ wholeRun, PrintsPid e := by
  simp only [wholeRun,pairRun,List.forall_mem_cons,PrintsPid,true_and]
  exact ⟨⟨"2178309".toList,by decide⟩,⟨"1346269".toList,by decide⟩,by simp⟩

theorem workload_logged_two : ∃ s, run (step 2) (start [lateItem,nextItem]) wholeRun = some s ∧
    s.written = [⟨101,nextItem⟩,⟨100,lateItem⟩] ∧
    ∃ procs file timings, s.log 2 = some (file,timings) ∧
      LogsWorkload [lateItem,nextItem] s file timings procs := by
  obtain ⟨s,hr,hdone,hwritten⟩ : ∃ s, run (step 2) (start [lateItem,nextItem]) wholeRun = some s ∧
      s.main = .done ∧ s.written = [⟨101,nextItem⟩,⟨100,lateItem⟩] := ⟨_,rfl,rfl,rfl⟩
  have hargs : ∀ item ∈ [lateItem,nextItem], Inline item.arg.toList := by
    refine List.forall_mem_cons.mpr ⟨?_,List.forall_mem_singleton.mpr ?_⟩
    · exact inline_of_notMem (by decide) (by decide)
    · exact inline_of_notMem (by decide) (by decide)
  have hindex : [lateItem,nextItem].map Request.index = List.range [lateItem,nextItem].length := rfl
  exact ⟨s,hr,hwritten,workload_logged hindex (List.cons_ne_nil _ _) hargs wholeRun_prints hr hdone⟩

/-! ## The readers of the log -/

/-- The three readers find for each PID what the child with that PID was launched with, and no
other PIDs. -/
structure ReadBack (s : Executor) (file : Text) : Prop where
  trace : Analyze.ParseTrace.pidsFtoset file = some ((s.written.map Child.logged).map Prod.swap).toFinset
  timehist : Analyze.ParsePerfTimehistAvg.pidsFtoset file = some (s.written.map Child.pid).toFinset
  latency : ∃ pidArgMap, Analyze.ParsePerfLatency.getPidArgMap file = some pidArgMap ∧
    ∀ pid value, pidArgMap pid = some value ↔ ∃ proc ∈ s.written, proc.pid = pid ∧ proc.item.arg.toList = value

/-- If no PID comes back in the run, the log says of every PID what was launched under it. -/
theorem log_read_back {es : List ExecutorEvent} (hindex : workload.map Request.index = List.range workload.length)
    (hne : workload ≠ []) (hnumbers : ∀ item ∈ workload, item.arg.toList = str (intOfDigits item.arg.toList))
    (hprints : ∀ e ∈ es, PrintsPid e) (hr : run (step workload.length) (start workload) es = some s)
    (hdone : s.main = .done) (hpids : (s.written.map Child.pid).Nodup) :
    ∃ file timings, s.log workload.length = some (file,timings) ∧ ReadBack s file := by
  have hargs : ∀ item ∈ workload, Inline item.arg.toList := by
    intro item hitem
    rw [hnumbers item hitem]
    exact (isWord_str _).inline
  obtain ⟨⟨entered,hs⟩,hcount⟩ := ledger_of_run hindex (fun e he => (hprints e he).exitsWith) hr hdone
  obtain ⟨procs,file,timings,hlog,hlogs⟩ := hs.logs hcount hindex hne hargs
  have hlogged : (procs.map Child.job).filterMap Job.logged = procs.map Child.logged := by
    rw [List.filterMap_map,← List.filterMap_eq_map]
    rfl
  have hnumber : ∀ proc ∈ procs, proc.item.arg.toList = str (intOfDigits proc.item.arg.toList) := by
    intro proc hproc
    apply hnumbers
    rw [← hlogs.items]
    exact List.mem_map_of_mem hproc
  have hlines : lines file = ((procs.map Child.job).filterMap Job.logged).map pidLine := by
    rw [hlogs.lines,hlogged,List.map_map]
    apply List.map_congr_left
    intro proc hproc
    rw [Child.line,hnumber proc hproc]
    rfl
  have hfst : ((procs.map Child.job).filterMap Job.logged).map Prod.fst = procs.map Child.pid := by
    rw [hlogged,List.map_map]
    rfl
  have hread := logged_of_lines (by rw [hfst]; exact ((hlogs.collected.map _).nodup_iff).mpr hpids) hlines
  refine ⟨file,timings,hlog,?_,?_,?_⟩
  · rw [hread.trace,hlogged]
    exact congrArg some (List.toFinset_eq_of_perm _ _ ((hlogs.collected.map _).map _))
  · rw [hread.timehist,hfst]
    exact congrArg some (List.toFinset_eq_of_perm _ _ (hlogs.collected.map _))
  · obtain ⟨pidArgMap,hmap,hentries⟩ := hread.latency
    refine ⟨pidArgMap,hmap,fun pid value => (hentries pid value).trans ?_⟩
    rw [hlogged]
    constructor
    · rintro ⟨arg,hmem,rfl⟩
      obtain ⟨proc,hproc,heq⟩ := List.mem_map.mp hmem
      cases heq
      exact ⟨proc,hlogs.collected.mem_iff.mp hproc,rfl,hnumber proc hproc⟩
    · rintro ⟨proc,hproc,rfl,rfl⟩
      have hmem := hlogs.collected.mem_iff.mpr hproc
      exact ⟨_,List.mem_map_of_mem hmem,hnumber proc hmem⟩

theorem log_read_back_two : ∃ s, run (step 2) (start [lateItem,nextItem]) wholeRun = some s ∧
    ∃ file timings, s.log 2 = some (file,timings) ∧ ReadBack s file := by
  obtain ⟨s,hr,hdone,hwritten⟩ : ∃ s, run (step 2) (start [lateItem,nextItem]) wholeRun = some s ∧
      s.main = .done ∧ s.written = [⟨101,nextItem⟩,⟨100,lateItem⟩] := ⟨_,rfl,rfl,rfl⟩
  have hnumbers : ∀ item ∈ [lateItem,nextItem], item.arg.toList = str (intOfDigits item.arg.toList) :=
    List.forall_mem_cons.mpr ⟨by decide,List.forall_mem_singleton.mpr (by decide)⟩
  have hindex : [lateItem,nextItem].map Request.index = List.range [lateItem,nextItem].length := rfl
  have hpids : (s.written.map Child.pid).Nodup := by rw [hwritten]; decide
  exact ⟨s,hr,log_read_back hindex (List.cons_ne_nil _ _) hnumbers wholeRun_prints hr hdone hpids⟩

end Executor
end ServerlessSched.Loadgen
