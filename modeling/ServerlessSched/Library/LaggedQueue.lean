import ServerlessSched.Library.Runs
import ServerlessSched.Library.StampedQueue
import Mathlib.Algebra.Order.Monoid.Defs

/-! # Priority queues below an advancing clock

Elements are inserted with a key at most `lag` behind a clock that never goes
back. An element that has fallen `lag` behind the clock is then never overtaken
by an element inserted later, whatever its own key does afterwards.
-/
namespace ServerlessSched.LaggedQueue
open Runs
variable {α K : Type*}

/-- What a step of the host machine may do to the clock, the keys and the queue. -/
structure View (α K : Type*) where
  clock : K
  key : α → K
  queue : StampedQueue α

variable [LinearOrder K] [AddCommMonoid K] [IsOrderedCancelAddMonoid K]

/-- One admissible change: the clock advances, kept entries keep their key or get one
near the clock, and fresh entries carry a new stamp and a key near the clock. -/
structure Step (lag : K) (v w : View α K) : Prop where
  clock_le : v.clock ≤ w.clock
  seq_le : v.queue.seq ≤ w.queue.seq
  entry : ∀ e ∈ w.queue.entries, v.clock ≤ w.key e.2 + lag ∨
    e ∈ v.queue.entries ∧ v.key e.2 ≤ w.key e.2
  fresh : ∀ e ∈ w.queue.entries, e ∈ v.queue.entries ∨ v.queue.seq < e.1

omit [IsOrderedCancelAddMonoid K] in
theorem Step.refl (lag : K) (v : View α K) : Step lag v v :=
  ⟨le_rfl,le_rfl,fun _ he => Or.inr ⟨he,le_rfl⟩,fun _ he => Or.inl he⟩

theorem Step.trans {lag : K} {u v w : View α K} (h : Step lag u v) (h' : Step lag v w) : Step lag u w := by
  refine ⟨h.clock_le.trans h'.clock_le,h.seq_le.trans h'.seq_le,fun e he => ?_,fun e he => ?_⟩
  · rcases h'.entry e he with hnear | ⟨hv,hkey⟩
    · exact Or.inl (h.clock_le.trans hnear)
    · rcases h.entry e hv with hnear | ⟨hu,hkey'⟩
      · exact Or.inl (hnear.trans (add_le_add_left hkey lag))
      · exact Or.inr ⟨hu,hkey'.trans hkey⟩
  · rcases h'.fresh e he with hv | hnew
    · exact h.fresh e hv
    · exact Or.inr (h.seq_le.trans_lt hnew)

/-- Entries stamped after `since` have keys no smaller than `bound`. -/
def Settled (lag bound : K) (since : ℕ) (v : View α K) : Prop :=
  bound + lag ≤ v.clock ∧ ∀ e ∈ v.queue.entries, since < e.1 → bound ≤ v.key e.2

omit [LinearOrder K] [AddCommMonoid K] [IsOrderedCancelAddMonoid K] in
private theorem stamp_le_seq (v : View α K) {e : ℕ × α} (he : e ∈ v.queue.entries) :
    e.1 ≤ v.queue.seq := v.queue.stamp_le e he

omit [IsOrderedCancelAddMonoid K] in
theorem settled_start {lag bound : K} {v : View α K} (h : bound + lag ≤ v.clock) :
    Settled lag bound v.queue.seq v :=
  ⟨h,fun _ he hlt => absurd (stamp_le_seq v he) (Nat.not_le_of_lt hlt)⟩

theorem Step.settled {lag bound : K} {since : ℕ} {v w : View α K} (hs : Step lag v w)
    (hv : Settled lag bound since v) : Settled lag bound since w := by
  refine ⟨hv.1.trans hs.clock_le,fun e he hlt => ?_⟩
  rcases hs.entry e he with h | ⟨hmem,hle⟩
  · exact le_of_add_le_add_right (hv.1.trans h)
  · exact (hv.2 e hmem hlt).trans hle

omit [IsOrderedCancelAddMonoid K] in
/-- Bounded overtaking: once the clock is `lag` past the key of a waiting entry,
no entry stamped later is served ahead of it. -/
theorem Settled.not_ahead {lag bound : K} {since : ℕ} {v : View α K} (hv : Settled lag bound since v)
    {d e : ℕ × α} (hd : d.1 ≤ since) (hkey : v.key d.2 = bound)
    (he : e ∈ v.queue.entries) (hlt : since < e.1) : ¬StampedQueue.Ahead v.key e d := by
  have hb : bound ≤ v.key e.2 := hv.2 e he hlt
  rintro (h | ⟨-,h⟩)
  · rw [hkey] at h
    exact absurd hb (not_le.mpr h)
  · omega

section Machine
variable {S E : Type*} {step : S → E → Option S} (view : S → View α K) {lag : K} {P : S → E → Prop}

/-- The rule for a whole machine: if every step meeting `P` is admissible, then along
runs of such steps entries behind the clock are not overtaken. -/
theorem no_overtaking {I : S → Prop} (hI : ∀ s e t, I s → P s e → step s e = some t → I t)
    (hstep : ∀ s e t, I s → P s e → step s e = some t → Step lag (view s) (view t))
    {s t : S} {es : List E} (hs : I s) (hP : Along step P s es) (hr : run step s es = some t)
    {d : ℕ × α} (hd : d ∈ (view s).queue.entries) {v : K} (hclock : v + lag ≤ (view s).clock)
    (hkey : (view t).key d.2 = v) {e : ℕ × α} (he : e ∈ (view t).queue.entries)
    (hnew : (view s).queue.seq < e.1) : ¬StampedQueue.Ahead (view t).key e d := by
  have hAlways : Always step (fun u => I u ∧ Settled lag v (view s).queue.seq (view u)) s es :=
    always_of_along (fun u f w hu hf hw => ⟨hI u f w hu.1 hf hw,(hstep u f w hu.1 hf hw).settled hu.2⟩)
      ⟨hs,settled_start hclock⟩ hP
  have hlast := (always_iff_visited.mp hAlways es t List.prefix_rfl hr).2
  exact hlast.not_ahead (stamp_le_seq (view s) hd) hkey he hnew

end Machine

/-! ## Being served in turn -/

/-- A step that keeps the keys of waiting entries from falling. -/
structure SteadyStep (lag : K) (v w : View α K) : Prop extends Step lag v w where
  kept : ∀ e ∈ v.queue.entries, e ∈ w.queue.entries → v.key e.2 ≤ w.key e.2

/-- The entries ahead of one with stamp `n` and key `bound`. -/
def rivals (bound : K) (n : ℕ) (v : View α K) : List (ℕ × α) :=
  v.queue.entries.filter (fun e => v.key e.2 < bound ∨ v.key e.2 = bound ∧ e.1 < n)

omit [AddCommMonoid K] [IsOrderedCancelAddMonoid K] in
theorem mem_rivals {bound : K} {n : ℕ} {v : View α K} {e : ℕ × α} : e ∈ rivals bound n v ↔
    e ∈ v.queue.entries ∧ (v.key e.2 < bound ∨ v.key e.2 = bound ∧ e.1 < n) := by
  simp [rivals]

omit [AddCommMonoid K] [IsOrderedCancelAddMonoid K] in
theorem rivals_nodup (bound : K) (n : ℕ) (v : View α K) : (rivals bound n v).Nodup := by
  apply List.Nodup.filter
  exact v.queue.stamps.imp (fun hlt heq => absurd (congrArg Prod.fst heq) hlt.ne)

variable {lag bound : K} {n : ℕ} {v w : View α K}

/-- What arrives once the clock is `lag` past the key is no rival any more. -/
theorem SteadyStep.rivals_subset (hs : SteadyStep lag v w) (hclock : bound + lag ≤ v.clock)
    (hn : n ≤ v.queue.seq) : rivals bound n w ⊆ rivals bound n v := by
  intro e he
  obtain ⟨hmem,hahead⟩ := mem_rivals.mp he
  have hold : e ∈ v.queue.entries := by
    rcases hs.entry e hmem with hnear | ⟨hold,-⟩
    · have hle : bound ≤ w.key e.2 := le_of_add_le_add_right (hclock.trans hnear)
      obtain ⟨-,hlt⟩ := hahead.resolve_left hle.not_gt
      exact (hs.fresh e hmem).resolve_right (by omega)
    · exact hold
  refine mem_rivals.mpr ⟨hold,?_⟩
  rcases (hs.kept e hold hmem).lt_or_eq with hlt | heq
  · exact Or.inl (hlt.trans_le (hahead.elim le_of_lt (fun h => h.1.le)))
  · rw [heq]
    exact hahead

theorem SteadyStep.rivals_length_le (hs : SteadyStep lag v w) (hclock : bound + lag ≤ v.clock)
    (hn : n ≤ v.queue.seq) : (rivals bound n w).length ≤ (rivals bound n v).length :=
  (List.subperm_of_subset (rivals_nodup bound n w) (hs.rivals_subset hclock hn)).length_le

theorem SteadyStep.rivals_length_lt (hs : SteadyStep lag v w) (hclock : bound + lag ≤ v.clock)
    (hn : n ≤ v.queue.seq) {e : ℕ × α} (he : e ∈ rivals bound n v) (hgone : e ∉ w.queue.entries) :
    (rivals bound n w).length < (rivals bound n v).length := by
  have hnodup : (e :: rivals bound n w).Nodup :=
    List.nodup_cons.mpr ⟨fun h => hgone (mem_rivals.mp h).1,rivals_nodup bound n w⟩
  have hsubset : e :: rivals bound n w ⊆ rivals bound n v :=
    List.cons_subset.mpr ⟨he,hs.rivals_subset hclock hn⟩
  exact (List.subperm_of_subset hnodup hsubset).length_le

section Machine
variable {S E : Type*} {step : S → E → Option S} (view : S → View α K) {P : S → E → Prop} {I : S → Prop}
variable (hI : ∀ s e t, I s → P s e → step s e = some t → I t)
variable (hstep : ∀ s e t, I s → P s e → step s e = some t → SteadyStep lag (view s) (view t))
include hI hstep

omit [IsOrderedCancelAddMonoid K] in
/-- An old entry that is there at the end has been there, its key never falling, all along. -/
theorem waits_along {s t : S} {es : List E} (hs : I s) (hP : Along step P s es) (hr : run step s es = some t)
    {d : ℕ × α} (hd : d ∈ (view t).queue.entries) (hold : d.1 ≤ (view s).queue.seq) :
    d ∈ (view s).queue.entries ∧ (view s).key d.2 ≤ (view t).key d.2 := by
  induction es generalizing s with
  | nil =>
    cases hr
    exact ⟨hd,le_rfl⟩
  | cons e es ih =>
    obtain ⟨u,hu,hr⟩ := run_cons_eq_some.mp hr
    obtain ⟨hp,hP⟩ := hP u hu
    have hsu := hstep s e u hs hp hu
    obtain ⟨hdu,hle⟩ := ih (hI s e u hs hp hu) hP hr (hold.trans hsu.seq_le)
    have hds := (hsu.fresh d hdu).resolve_right hold.not_gt
    exact ⟨hds,(hsu.kept d hds hdu).trans hle⟩

/-- The rule for a whole machine: if the events in `serves` take a rival of a waiting entry out
of the queue, there are no more of them than rivals, once the clock is `lag` past its key. -/
theorem countP_serves_le {serves : E → Bool} {d : ℕ × α} (hserves : ∀ s e t, I s → P s e → step s e = some t →
      serves e = true → d ∈ (view s).queue.entries → d ∈ (view t).queue.entries →
        ∃ x ∈ (view s).queue.entries, x ∉ (view t).queue.entries ∧ (view s).key x.2 ≤ (view t).key x.2 ∧
          StampedQueue.Ahead (view t).key x d)
    {s t : S} {es : List E} (hs : I s) (hP : Along step P s es) (hr : run step s es = some t)
    (hd : d ∈ (view s).queue.entries) (hdt : d ∈ (view t).queue.entries)
    (hclock : (view t).key d.2 + lag ≤ (view s).clock) :
    es.countP serves ≤ (rivals ((view t).key d.2) d.1 (view s)).length := by
  induction es generalizing s with
  | nil => exact Nat.zero_le _
  | cons e es ih =>
    obtain ⟨u,hu,hr⟩ := run_cons_eq_some.mp hr
    obtain ⟨hp,hP⟩ := hP u hu
    have hsu := hstep s e u hs hp hu
    have hIu := hI s e u hs hp hu
    have hold : d.1 ≤ (view s).queue.seq := stamp_le_seq (view s) hd
    obtain ⟨hdu,hle⟩ := waits_along view hI hstep hIu hP hr hdt (hold.trans hsu.seq_le)
    have hrest := ih hIu hP hr hdu (hclock.trans hsu.clock_le)
    rw [List.countP_cons]
    cases hserved : serves e with
    | false =>
      have hfewer : (rivals ((view t).key d.2) d.1 (view u)).length ≤ _ := hsu.rivals_length_le hclock hold
      simp only [Bool.false_eq_true,if_false]
      omega
    | true =>
      obtain ⟨x,hx,hgone,hrise,hahead⟩ := hserves s e u hs hp hu hserved hd hdu
      have hrival : x ∈ rivals ((view t).key d.2) d.1 (view s) := by
        refine mem_rivals.mpr ⟨hx,?_⟩
        rcases (hrise.trans (hahead.le.trans hle)).lt_or_eq with hlt | heq
        · exact Or.inl hlt
        · refine Or.inr ⟨heq,(hahead.resolve_left (fun hlt => ?_)).2⟩
          exact absurd heq (hrise.trans_lt (hlt.trans_le hle)).ne
      have hfewer : (rivals ((view t).key d.2) d.1 (view u)).length < _ := hsu.rivals_length_lt hclock hold hrival hgone
      simp only [if_true]
      omega

end Machine

end ServerlessSched.LaggedQueue
