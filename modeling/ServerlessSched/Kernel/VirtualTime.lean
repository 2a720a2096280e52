import ServerlessSched.Kernel.Frames
import ServerlessSched.Library.LaggedQueue

/-! # Virtual time under a scheduler

What a callback may do to the clock, to the virtual times and to the shared queue, call by
call, and what remains of it when the insertions the callback asked for have landed.
-/
namespace ServerlessSched

/-- Inserted with a time that is not before the task's own and at most the lag limit behind
the clock. -/
def DsqInsert.InTime {C : Type} (i : DsqInsert C) : Prop :=
  ∃ v, i.vtime = some v ∧ i.seen.dsqVtime.toNat ≤ v.toNat ∧ i.clock.toNat ≤ v.toNat + lagLimit.toNat

/-- What the order of the shared queue and the kernel's treatment of a task depend on. -/
def TaskStruct.ranked {C : Type} (t : TaskStruct C) : Bool × Phase × UInt64 := (t.enabled,t.phase,t.dsqVtime)

namespace Kern
variable {C : Type} {k₀ k k' : Kern C} {p : Proc}

def lagged (k : Kern C) : LaggedQueue.View Proc ℕ where
  clock := k.globalVtime.toNat
  key p := (k.task p).dsqVtime.toNat
  queue := k.sharedDsq

theorem lagged_congr (hclock : k'.globalVtime = k.globalVtime) (hdsq : k'.sharedDsq = k.sharedDsq)
    (htask : ∀ q, (k'.task q).dsqVtime = (k.task q).dsqVtime) : k'.lagged = k.lagged := by
  unfold lagged
  rw [hclock,hdsq,funext (fun q => congrArg UInt64.toNat (htask q))]

/-- The dispatch loops meet the waiting tasks by virtual time, and by arrival where the times agree. -/
theorem sharedOrder_sorted (k : Kern C) : ∃ es : List (ℕ × Proc), k.sharedOrder = es.map Prod.snd ∧
    (∀ e, e ∈ es ↔ e ∈ k.sharedDsq.entries) ∧ es.Pairwise (StampedQueue.Ahead k.lagged.key) :=
  ⟨_,rfl,fun _ => StampedQueue.mem_order k.lagged.key,StampedQueue.order_pairwise k.lagged.key k.sharedDsq⟩

/-- Between two events: times below `2 ^ 63`, nobody waits or is withheld who is not enabled,
and nobody is enabled who is not alive. -/
structure Orderly (k : Kern C) : Prop where
  clock_lt : k.globalVtime.toNat < 2 ^ 63
  vtime_lt : ∀ p, (k.task p).dsqVtime.toNat < 2 ^ 63
  waiting : ∀ e ∈ k.sharedDsq.entries, (k.task e.2).enabled = true
  withheld : ∀ p, (k.task p).phase = .withheld → (k.task p).enabled = true
  live : ∀ p, (k.task p).enabled = true → k.pids.Live p

theorem orderly_boot (h : ∀ p, (k.task p).dsqVtime.toNat < 2 ^ 63) : k.boot.Orderly where
  clock_lt := Nat.two_pow_pos 63
  vtime_lt := h
  waiting _ he := (List.not_mem_nil he).elim
  withheld _ hp := by cases hp
  live _ hp := by cases hp

/-- What a callback that started in `k₀` may have done when it has reached `k`. Tasks are
taken off the shared queue only, and virtual times grow or move close to the clock. -/
structure Timely (k₀ k : Kern C) : Prop where
  enabled : Same TaskStruct.enabled k₀ k
  withheld : ∀ p, (k.task p).phase = .withheld → (k₀.task p).phase = .withheld
  seq : k.sharedDsq.seq = k₀.sharedDsq.seq
  entries : ∀ e ∈ k.sharedDsq.entries, e ∈ k₀.sharedDsq.entries
  clock_le : k₀.globalVtime.toNat ≤ k.globalVtime.toNat
  clock_lt : k.globalVtime.toNat < 2 ^ 63
  vtime_lt : ∀ p, (k.task p).dsqVtime.toNat < 2 ^ 63
  vtime : ∀ p, k₀.globalVtime.toNat ≤ (k.task p).dsqVtime.toNat + lagLimit.toNat ∨
    (k₀.task p).dsqVtime.toNat ≤ (k.task p).dsqVtime.toNat
  inserted : ∀ i ∈ k.inserts, i.dsq = .shared →
    i.InTime ∧ k₀.globalVtime.toNat ≤ (k.task i.task).dsqVtime.toNat + lagLimit.toNat

namespace Timely

theorem refl (h : Orderly k) (hnone : k.inserts = []) : Timely k k :=
  ⟨Same.rfl,fun _ hp => hp,rfl,fun _ he => he,le_rfl,h.clock_lt,h.vtime_lt,fun _ => Or.inr le_rfl,
    fun _ hi => by rw [hnone] at hi; cases hi⟩

theorem frame (h : Timely k₀ k) (hclock : k'.globalVtime = k.globalVtime)
    (hdsq : k'.sharedDsq = k.sharedDsq) (hinserts : k'.inserts = k.inserts)
    (hsame : Same TaskStruct.ranked k k') : Timely k₀ k' := by
  have henabled : Same TaskStruct.enabled k k' := hsame.map Prod.fst
  have hphase : ∀ q, (k'.task q).phase = (k.task q).phase := fun q =>
    congrArg (fun r => r.2.1) (hsame.task q)
  have hvtime : ∀ q, (k'.task q).dsqVtime = (k.task q).dsqVtime := fun q =>
    congrArg (fun r => r.2.2) (hsame.task q)
  refine ⟨h.enabled.trans henabled,fun q hq => h.withheld q (by rwa [← hphase]),?_,?_,?_,?_,?_,?_,?_⟩
  · rw [hdsq]; exact h.seq
  · rw [hdsq]; exact h.entries
  · rw [hclock]; exact h.clock_le
  · rw [hclock]; exact h.clock_lt
  · intro q; rw [hvtime]; exact h.vtime_lt q
  · intro q; rw [hvtime]; exact h.vtime q
  · intro i hi; rw [hvtime]; exact h.inserted i (by rwa [← hinserts])

theorem modify (h : Timely k₀ k) {f : TaskStruct C → TaskStruct C}
    (henabled : (f (k.task p)).enabled = (k.task p).enabled)
    (hphase : (f (k.task p)).phase = .withheld → (k.task p).phase = .withheld)
    (hlt : (f (k.task p)).dsqVtime.toNat < 2 ^ 63)
    (hvtime : k.globalVtime.toNat ≤ (f (k.task p)).dsqVtime.toNat + lagLimit.toNat ∨
      (k.task p).dsqVtime.toNat ≤ (f (k.task p)).dsqVtime.toNat) : Timely k₀ (k.modify p f) := by
  have hclock := h.clock_le
  refine ⟨h.enabled.trans (Same.modify henabled),fun q hq => ?_,h.seq,h.entries,hclock,h.clock_lt,
    fun q => ?_,fun q => ?_,fun i hi hdsq => ⟨(h.inserted i hi hdsq).1,?_⟩⟩
  · rw [modify_task] at hq
    split at hq
    case isTrue heq => exact heq ▸ h.withheld p (hphase hq)
    case isFalse => exact h.withheld q hq
  · rw [modify_task]
    split
    case isTrue => exact hlt
    case isFalse => exact h.vtime_lt q
  · rw [modify_task]
    split
    case isTrue heq => subst heq; have := h.vtime q; omega
    case isFalse => exact h.vtime q
  · have hbefore := (h.inserted i hi hdsq).2
    rw [modify_task]
    split
    case isTrue heq => rw [heq] at hbefore; omega
    case isFalse => exact hbefore

theorem recordInsert (h : Timely k₀ k) {i : DsqInsert C} (hi : i.dsq = .shared → i.InTime ∧
      k₀.globalVtime.toNat ≤ (k.task i.task).dsqVtime.toNat + lagLimit.toNat) :
    Timely k₀ (k.record (.insert i)) := by
  have hinserts : (k.record (.insert i)).inserts = k.inserts ++ [i] := by simp [inserts]
  refine ⟨h.enabled.trans (Same.record k _),h.withheld,h.seq,h.entries,h.clock_le,h.clock_lt,h.vtime_lt,
    h.vtime,?_⟩
  intro j hj
  rw [hinserts] at hj
  rcases List.mem_append.mp hj with hj | hj
  · exact h.inserted j hj
  · rw [List.mem_singleton.mp hj]
    exact hi

/-! ## The calls -/

theorem scxBpfError (h : Timely k₀ k) (text : String) : Timely k₀ (k.scxBpfError text) :=
  h.frame rfl rfl (inserts_scxBpfError k text) (Same.record k _)

theorem scxBpfKickCpu (h : Timely k₀ k) (cpu : ℕ) (flag : KickFlag) : Timely k₀ (k.scxBpfKickCpu cpu flag) :=
  h.frame rfl rfl (inserts_scxBpfKickCpu k cpu flag) (Same.record k _)

theorem kickIdleCpu (h : Timely k₀ k) (p : Proc) (idleCpu : Option ℕ) :
    Timely k₀ (k.kickIdleCpu p idleCpu) :=
  h.frame (kickIdleCpu_globalVtime k p idleCpu) (kickIdleCpu_sharedDsq k p idleCpu)
    (inserts_kickIdleCpu k p idleCpu) (Same.of_eq (kickIdleCpu_pids k p idleCpu) (kickIdleCpu_task k p idleCpu))

theorem scxBpfDsqInsert (h : Timely k₀ k) {dsq : DsqId} (hdsq : dsq ≠ .shared) (p : Proc) (slice : UInt64) :
    Timely k₀ (k.scxBpfDsqInsert p dsq slice) :=
  (h.recordInsert (fun hi => absurd hi hdsq)).frame rfl rfl rfl (Same.modify rfl)

theorem scxBpfDsqInsertVtime (h : Timely k₀ k) (p : Proc) (slice : UInt64) {v : UInt64}
    (hv : v.toNat = max (k.task p).dsqVtime.toNat (k.globalVtime.toNat - lagLimit.toNat)) :
    Timely k₀ (k.scxBpfDsqInsertVtime p slice v) := by
  have hclock := h.clock_lt
  have hown := h.vtime_lt p
  obtain ⟨hvtime,hlag⟩ := clamp_bounds hv
  have hmodified : Timely k₀ (k.modify p (fun t => { t with slice := slice, dsqVtime := v })) := by
    refine h.modify rfl id ?_ (Or.inr hvtime)
    change v.toNat < 2 ^ 63
    omega
  refine hmodified.recordInsert (i := ⟨p,.shared,slice,some v,k.task p,k.globalVtime⟩) (fun _ => ?_)
  refine ⟨⟨v,rfl,hvtime,hlag⟩,?_⟩
  rw [modify_task_self]
  exact h.clock_le.trans hlag

theorem enqueueShared (h : Timely k₀ k) (p : Proc) (slice : UInt64) (idleCpu : Option ℕ) :
    Timely k₀ (k.enqueueShared p slice idleCpu) :=
  (h.scxBpfDsqInsertVtime p slice (lagClamp_toNat h.clock_lt (h.vtime_lt p))).kickIdleCpu p idleCpu

theorem advanceClock (h : Timely k₀ k) {v : UInt64} (hv : v.toNat < 2 ^ 63) :
    Timely k₀ (k.advanceClock v) := by
  unfold Kern.advanceClock
  split
  case isFalse => exact h
  case isTrue hlt =>
    exact ⟨h.enabled.trans (Same.of_eq rfl rfl),h.withheld,h.seq,h.entries,
      h.clock_le.trans (UInt64.lt_iff_toNat_lt.mp hlt).le,hv,h.vtime_lt,h.vtime,h.inserted⟩

theorem scxBpfDsqMove (h : Timely k₀ k) (p : Proc) (cpu : ℕ) (moved : Bool) :
    Timely k₀ (k.scxBpfDsqMove p cpu moved) := by
  have hrecorded : Timely k₀ (k.record (.move p cpu moved)) :=
    h.frame rfl rfl (inserts_record k _ (fun _ hi => by cases hi)) (Same.record k _)
  unfold Kern.scxBpfDsqMove
  dsimp only
  split
  case isFalse => exact hrecorded
  case isTrue =>
    have hqueued : Timely k₀ ((k.record (.move p cpu moved)).modify p (fun t => { t with phase := .queued })) :=
      hrecorded.modify rfl (fun hq => by cases hq) (h.vtime_lt p) (Or.inr le_rfl)
    exact ⟨hqueued.enabled.trans (Same.of_eq rfl rfl),hqueued.withheld,h.seq,
      fun e he => h.entries e (StampedQueue.mem_erase.mp he).1,hqueued.clock_le,hqueued.clock_lt,
      hqueued.vtime_lt,hqueued.vtime,hqueued.inserted⟩

theorem scanSharedDsq (h : Timely k₀ k) (cpu : ℕ) (moves : Proc → Bool) (ps : List Proc) :
    Timely k₀ (Kern.scanSharedDsq cpu moves ps k) := by
  induction ps generalizing k with
  | nil => exact h
  | cons p ps ih =>
    have hadvanced := h.advanceClock (h.vtime_lt p)
    unfold Kern.scanSharedDsq
    dsimp only
    split
    case isTrue => exact hadvanced.scxBpfDsqMove p cpu true
    case isFalse => exact ih (hadvanced.scxBpfDsqMove p cpu false)

theorem chargeStopping (h : Timely k₀ k) {last : C → UInt64} (setLast : C → UInt64 → C)
    (hwrap : ∀ c, (k.task p).ctx = some c →
      (k.task p).dsqVtime.toNat + ((k.task p).sumExecRuntime - last c).toNat < 2 ^ 63) :
    Timely k₀ (k.chargeStopping last setLast p) := by
  unfold Kern.chargeStopping
  cases hctx : (k.task p).ctx with
  | none => exact h.scxBpfError _
  | some c =>
    have hsum : ((k.task p).dsqVtime + ((k.task p).sumExecRuntime - last c)).toNat =
        (k.task p).dsqVtime.toNat + ((k.task p).sumExecRuntime - last c).toNat := by
      have := hwrap c hctx
      rw [UInt64.toNat_add]
      omega
    refine h.modify rfl id ?_ (Or.inr ?_)
    · change ((k.task p).dsqVtime + ((k.task p).sumExecRuntime - last c)).toNat < 2 ^ 63
      rw [hsum]
      exact hwrap c hctx
    · change (k.task p).dsqVtime.toNat ≤ ((k.task p).dsqVtime + ((k.task p).sumExecRuntime - last c)).toNat
      omega

theorem restart (h : Timely k₀ k) (p : Proc) :
    Timely k₀ (k.modify p (fun t => { t with dsqVtime := k.globalVtime })) :=
  h.modify rfl id h.clock_lt (Or.inl (Nat.le_add_right _ _))

/-! ## The end of a callback -/

theorem orderly (h : Timely k₀ k) (ho : Orderly k₀) : Orderly k where
  clock_lt := h.clock_lt
  vtime_lt := h.vtime_lt
  waiting e he := (h.enabled.task e.2).trans (ho.waiting e (h.entries e he))
  withheld p hp := (h.enabled.task p).trans (ho.withheld p (h.withheld p hp))
  live p hp := by
    rw [h.enabled.pids]
    exact ho.live p ((h.enabled.task p).symm.trans hp)

theorem step (h : Timely k₀ k) : LaggedQueue.Step lagLimit.toNat k₀.lagged k.lagged where
  clock_le := h.clock_le
  seq_le := h.seq.ge
  entry e he := (h.vtime e.2).imp_right (fun hle => ⟨h.entries e he,hle⟩)
  fresh e he := Or.inl (h.entries e he)

end Timely

theorem settle_preserves {P : Kern C → Prop} {force : Bool}
    (hP : ∀ i ∈ k.inserts, ∀ k', P k' → (force = true ∨ (k'.task i.task).phase = .withheld) → P (k'.land i))
    (hk : P k) : P (k.settle force) := by
  have h : ∀ (is : List (DsqInsert C)), (∀ i ∈ is, i ∈ k.inserts) → ∀ k', P k' →
      P (is.foldl (settleInsert force) k') := by
    intro is
    induction is with
    | nil => exact fun _ _ hk' => hk'
    | cons i is ih =>
      intro hmem k' hk'
      apply ih (fun j hj => hmem j (List.mem_cons_of_mem i hj)) _
      unfold settleInsert
      split
      case isTrue hcond =>
        exact hP i (hmem i List.mem_cons_self) k' hk' (by simpa using hcond)
      case isFalse => exact hk'
  exact h k.inserts (fun _ hi => hi) k hk

structure Landed (force : Bool) (k k' : Kern C) : Prop where
  same : Same TaskStruct.enabled k k'
  vtime : ∀ p, (k'.task p).dsqVtime = (k.task p).dsqVtime
  clock : k'.globalVtime = k.globalVtime
  withheld : ∀ p, (k'.task p).phase = .withheld → (k.task p).phase = .withheld
  seq : k.sharedDsq.seq ≤ k'.sharedDsq.seq
  entries : ∀ e ∈ k'.sharedDsq.entries, e ∈ k.sharedDsq.entries ∨ k.sharedDsq.seq < e.1 ∧
    ∃ i ∈ k.inserts, i.dsq = .shared ∧ i.task = e.2 ∧ (force = true ∨ (k.task e.2).phase = .withheld)

theorem landed_settle (force : Bool) (k : Kern C) : Landed force k (k.settle force) := by
  refine settle_preserves (P := Landed force k) (fun i hi k' hk' hcond => ?_)
    ⟨Same.rfl,fun _ => rfl,rfl,fun _ hp => hp,le_rfl,fun _ he => Or.inl he⟩
  have hvtime : Same TaskStruct.dsqVtime k' (k'.land i) := land_same (fun _ _ => rfl) k' i
  have hcond' : force = true ∨ (k.task i.task).phase = .withheld := hcond.imp_right (hk'.withheld i.task)
  refine ⟨hk'.same.trans (land_same (fun _ _ => rfl) k' i),fun q => ?_,hk'.clock,fun q hq => ?_,?_,?_⟩
  · exact (hvtime.task q).trans (hk'.vtime q)
  · change ((k'.modify i.task (fun t => { t with phase := .queued })).task q).phase = .withheld at hq
    rw [modify_task] at hq
    split at hq
    case isTrue => cases hq
    case isFalse => exact hk'.withheld q hq
  · unfold land
    dsimp only
    split
    case isTrue => exact hk'.seq.trans (Nat.le_succ _)
    case isFalse => exact hk'.seq
  · intro e he
    unfold land at he
    dsimp only at he
    split at he
    case isFalse => exact hk'.entries e he
    case isTrue hdsq =>
      rcases StampedQueue.mem_insert.mp he with ⟨he,-⟩ | rfl
      · exact hk'.entries e he
      · exact Or.inr ⟨Nat.lt_succ_of_le hk'.seq,i,hi,hdsq,rfl,hcond'⟩

/-- When the insertions of a timely callback land, the step is one the lagged queue allows. -/
theorem Timely.step_settle (h : Timely k₀ k) (force : Bool) :
    LaggedQueue.Step lagLimit.toNat k₀.lagged (k.settle force).lagged := by
  have hlanded := landed_settle force k
  refine ⟨?_,h.seq.symm.le.trans hlanded.seq,fun e he => ?_,fun e he => ?_⟩
  · exact h.clock_le.trans_eq (congrArg UInt64.toNat hlanded.clock.symm)
  · change k₀.globalVtime.toNat ≤ ((k.settle force).task e.2).dsqVtime.toNat + lagLimit.toNat ∨
      e ∈ k₀.sharedDsq.entries ∧ (k₀.task e.2).dsqVtime.toNat ≤ ((k.settle force).task e.2).dsqVtime.toNat
    rw [hlanded.vtime]
    rcases hlanded.entries e he with hold | ⟨-,i,hi,hdsq,htask,-⟩
    · exact (h.vtime e.2).imp_right (fun hle => ⟨h.entries e hold,hle⟩)
    · exact Or.inl (htask ▸ (h.inserted i hi hdsq).2)
  · rcases hlanded.entries e he with hold | ⟨hnew,-⟩
    · exact Or.inl (h.entries e hold)
    · exact Or.inr (h.seq ▸ hnew)

theorem Orderly.settle (ho : Orderly k) {force : Bool} (hforce : force = true →
      ∀ i ∈ k.inserts, i.dsq = .shared → (k.task i.task).enabled = true) : Orderly (k.settle force) := by
  have hlanded := landed_settle force k
  refine ⟨?_,fun p => ?_,fun e he => ?_,fun p hp => ?_,fun p hp => ?_⟩
  · rw [hlanded.clock]; exact ho.clock_lt
  · rw [hlanded.vtime]; exact ho.vtime_lt p
  · apply (hlanded.same.task e.2).trans
    rcases hlanded.entries e he with hold | ⟨-,i,hi,hdsq,htask,hcond⟩
    · exact ho.waiting e hold
    · exact hcond.elim (fun hf => htask ▸ hforce hf i hi hdsq) (ho.withheld e.2)
  · exact (hlanded.same.task p).trans (ho.withheld p (hlanded.withheld p hp))
  · rw [hlanded.same.pids]
    exact ho.live p ((hlanded.same.task p).symm.trans hp)

theorem Orderly.settle_enable (ho : Orderly k) (hlive : k.pids.Live p)
    (htask : ∀ i ∈ k.inserts, i.dsq = .shared → i.task = p) : Orderly (setEnabled p (k.settle true)) := by
  have hlanded := landed_settle true k
  have henabled : ∀ q, ((setEnabled p (k.settle true)).task q).enabled = true ↔
      q = p ∨ (k.task q).enabled = true := by
    intro q
    rw [setEnabled,modify_task]
    split
    case isTrue heq => simp [heq]
    case isFalse heq => rw [hlanded.same.task q]; simp [heq]
  have hother : ∀ q, ((setEnabled p (k.settle true)).task q).dsqVtime = (k.task q).dsqVtime ∧
      ((setEnabled p (k.settle true)).task q).phase = ((k.settle true).task q).phase := by
    intro q
    rw [setEnabled,modify_task]
    split
    case isTrue heq => subst heq; exact ⟨hlanded.vtime q,rfl⟩
    case isFalse heq => exact ⟨hlanded.vtime q,rfl⟩
  refine ⟨?_,fun q => ?_,fun e he => ?_,fun q hq => ?_,fun q hq => ?_⟩
  · exact hlanded.clock ▸ ho.clock_lt
  · rw [(hother q).1]; exact ho.vtime_lt q
  · apply (henabled e.2).mpr
    rcases hlanded.entries e he with hold | ⟨-,i,hi,hdsq,hie,-⟩
    · exact Or.inr (ho.waiting e hold)
    · exact Or.inl (hie ▸ htask i hi hdsq)
  · rw [(hother q).2] at hq
    exact (henabled q).mpr (Or.inr (ho.withheld q (hlanded.withheld q hq)))
  · change (k.settle true).pids.Live q
    rw [hlanded.same.pids]
    rcases (henabled q).mp hq with rfl | hq
    · exact hlive
    · exact ho.live q hq

theorem Orderly.frame (ho : Orderly k) (hclock : k'.globalVtime = k.globalVtime)
    (hdsq : k'.sharedDsq = k.sharedDsq) (hsame : Same TaskStruct.ranked k k') : Orderly k' := by
  have henabled : ∀ q, (k'.task q).enabled = (k.task q).enabled := (hsame.map Prod.fst).task
  have hphase : ∀ q, (k'.task q).phase = (k.task q).phase := fun q =>
    congrArg (fun r => r.2.1) (hsame.task q)
  have hvtime : ∀ q, (k'.task q).dsqVtime = (k.task q).dsqVtime := fun q =>
    congrArg (fun r => r.2.2) (hsame.task q)
  refine ⟨by rw [hclock]; exact ho.clock_lt,fun q => ?_,fun e he => ?_,fun q hq => ?_,fun q hq => ?_⟩
  · rw [hvtime]; exact ho.vtime_lt q
  · rw [henabled]; exact ho.waiting e (by rwa [← hdsq])
  · rw [henabled]; exact ho.withheld q (by rwa [← hphase])
  · rw [hsame.pids]; exact ho.live q (by rwa [← henabled])

theorem Orderly.setPhase (ho : Orderly k) {phase : Phase}
    (hp : phase = .withheld → (k.task p).enabled = true) : Orderly (Kern.setPhase p phase k) := by
  have hsame : Same (fun t => (t.enabled,t.dsqVtime)) k (Kern.setPhase p phase k) :=
    setPhase_same (fun _ _ => rfl) p phase k
  have henabled : ∀ q, ((Kern.setPhase p phase k).task q).enabled = (k.task q).enabled :=
    (hsame.map Prod.fst).task
  refine ⟨ho.clock_lt,fun q => ?_,fun e he => (henabled e.2).trans (ho.waiting e he),fun q hq => ?_,
    fun q hq => ho.live q ((henabled q).symm.trans hq)⟩
  · have hvtime : ((Kern.setPhase p phase k).task q).dsqVtime = (k.task q).dsqVtime :=
      (hsame.map Prod.snd).task q
    rw [hvtime]
    exact ho.vtime_lt q
  · rw [henabled]
    rw [Kern.setPhase,modify_task] at hq
    split at hq
    case isTrue heq => exact heq ▸ hp hq
    case isFalse => exact ho.withheld q hq

theorem lagged_setPhase (p : Proc) (phase : Phase) (k : Kern C) : (Kern.setPhase p phase k).lagged = k.lagged := by
  have hsame : Same TaskStruct.dsqVtime k (Kern.setPhase p phase k) := setPhase_same (fun _ _ => rfl) p phase k
  exact lagged_congr rfl rfl hsame.task

end Kern
end ServerlessSched
