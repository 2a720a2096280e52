import Mathlib.Data.List.Infix

/-! # Runs of a partial step function

A machine is a step function that refuses an event by returning `none`. The rules
here package the inductions over event lists: invariants, conditions that every
step of a run meets, and ghost components that are carried beside the state
without influencing it.
-/
namespace ServerlessSched.Runs
variable {S E G : Type*}

/-- Perform the events in order; a refused event ends the run without a state. -/
def run (step : S → E → Option S) : S → List E → Option S
  | s, [] => some s
  | s, e :: es => (step s e).bind (fun t => run step t es)

variable {step : S → E → Option S}

@[simp] theorem run_nil (s : S) : run step s [] = some s := rfl

theorem run_cons (s : S) (e : E) (es : List E) :
    run step s (e :: es) = (step s e).bind (fun t => run step t es) := rfl

theorem run_cons_of_step {s t : S} {e : E} (h : step s e = some t) (es : List E) :
    run step s (e :: es) = run step t es := by
  rw [run_cons,h,Option.bind_some]

theorem run_append (s : S) (es fs : List E) :
    run step s (es ++ fs) = (run step s es).bind (fun t => run step t fs) := by
  induction es generalizing s with
  | nil => rfl
  | cons e es ih =>
    rw [List.cons_append,run_cons,run_cons]
    cases step s e with
    | none => rfl
    | some t => exact ih t

theorem run_append_of_run {s t : S} {es : List E} (h : run step s es = some t) (fs : List E) :
    run step s (es ++ fs) = run step t fs := by
  rw [run_append,h,Option.bind_some]

theorem run_cons_eq_some {s u : S} {e : E} {es : List E} :
    run step s (e :: es) = some u ↔ ∃ t, step s e = some t ∧ run step t es = some u := by
  rw [run_cons,Option.bind_eq_some_iff]

theorem run_append_eq_some {s u : S} {es fs : List E} :
    run step s (es ++ fs) = some u ↔ ∃ t, run step s es = some t ∧ run step t fs = some u := by
  rw [run_append,Option.bind_eq_some_iff]

/-- Step functions that agree on the events of a run have the same run. -/
theorem run_congr {step' : S → E → Option S} {es : List E} (h : ∀ e ∈ es, ∀ s, step s e = step' s e) (s : S) :
    run step s es = run step' s es := by
  induction es generalizing s with
  | nil => rfl
  | cons e es ih =>
    obtain ⟨he,hes⟩ := List.forall_mem_cons.mp h
    rw [run_cons,run_cons,he s]
    exact congrArg (Option.bind (step' s e)) (funext (ih hes))

theorem run_invariant {P : S → Prop} (hP : ∀ s e t, P s → step s e = some t → P t)
    {s t : S} {es : List E} (hs : P s) (hr : run step s es = some t) : P t := by
  induction es generalizing s with
  | nil => cases hr; exact hs
  | cons e es ih =>
    obtain ⟨u,hu,hr⟩ := run_cons_eq_some.mp hr
    exact ih (hP s e u hs hu) hr

/-- `P` holds of every state the run visits, the first and the last included. -/
def Always (step : S → E → Option S) (P : S → Prop) : S → List E → Prop
  | s, [] => P s
  | s, e :: es => P s ∧ ∀ t, step s e = some t → Always step P t es

/-- Every step the run takes meets `C` in the state it is taken from. -/
def Along (step : S → E → Option S) (C : S → E → Prop) : S → List E → Prop
  | _, [] => True
  | s, e :: es => ∀ t, step s e = some t → C s e ∧ Along step C t es

theorem Always.first {P : S → Prop} {s : S} {es : List E} (h : Always step P s es) : P s := by
  cases es with
  | nil => exact h
  | cons e es => exact h.1

/-- `Always` speaks about exactly the states reached by the initial parts of the run. -/
theorem always_iff_visited {P : S → Prop} {s : S} {es : List E} :
    Always step P s es ↔ ∀ fs t, fs <+: es → run step s fs = some t → P t := by
  induction es generalizing s with
  | nil =>
    constructor
    · intro h fs t hfs hr
      rw [List.prefix_nil.mp hfs] at hr
      cases hr
      exact h
    · intro h
      exact h [] s List.prefix_rfl rfl
  | cons e es ih =>
    constructor
    · rintro ⟨hs,ht⟩ fs t hfs hr
      cases fs with
      | nil => cases hr; exact hs
      | cons f fs =>
        obtain ⟨rfl,htail⟩ := List.cons_prefix_cons.mp hfs
        obtain ⟨u,hu,hr⟩ := run_cons_eq_some.mp hr
        exact ih.mp (ht u hu) fs t htail hr
    · intro h
      refine ⟨h [] s (List.nil_prefix) rfl,fun t ht => ih.mpr ?_⟩
      intro fs u hfs hr
      exact h (e :: fs) u (List.cons_prefix_cons.mpr ⟨rfl,hfs⟩) (run_cons_eq_some.mpr ⟨t,ht,hr⟩)

theorem along_iff_taken {C : S → E → Prop} {s : S} {es : List E} :
    Along step C s es ↔ ∀ fs e t u, fs ++ [e] <+: es → run step s fs = some t →
      step t e = some u → C t e := by
  induction es generalizing s with
  | nil =>
    refine iff_of_true trivial ?_
    intro fs e t u hfs
    exact absurd (List.prefix_nil.mp hfs) (by simp)
  | cons f es ih =>
    constructor
    · intro h fs e t u hfs hr hu
      cases fs with
      | nil =>
        cases hr
        obtain ⟨rfl,-⟩ := List.cons_prefix_cons.mp hfs
        exact (h u hu).1
      | cons g fs =>
        obtain ⟨rfl,htail⟩ := List.cons_prefix_cons.mp hfs
        obtain ⟨v,hv,hr⟩ := run_cons_eq_some.mp hr
        exact ih.mp (h v hv).2 fs e t u htail hr hu
    · intro h t ht
      refine ⟨h [] f s t (List.cons_prefix_cons.mpr ⟨rfl,List.nil_prefix⟩) rfl ht,ih.mpr ?_⟩
      intro fs e u v hfs hr hv
      exact h (f :: fs) e u v (List.cons_prefix_cons.mpr ⟨rfl,hfs⟩) (run_cons_eq_some.mpr ⟨t,ht,hr⟩) hv

theorem Along.cons {C : S → E → Prop} {s t : S} {e : E} {es : List E} (h : step s e = some t) (hc : C s e)
    (ht : Along step C t es) : Along step C s (e :: es) := by
  intro u hu
  cases h.symm.trans hu
  exact ⟨hc,ht⟩

theorem along_append {C : S → E → Prop} {s t : S} {es fs : List E} (hes : Along step C s es)
    (hr : run step s es = some t) (hfs : Along step C t fs) : Along step C s (es ++ fs) := by
  induction es generalizing s with
  | nil =>
    cases hr
    exact hfs
  | cons e es ih =>
    obtain ⟨u,hu,hr⟩ := run_cons_eq_some.mp hr
    exact Along.cons hu (hes u hu).1 (ih (hes u hu).2 hr)

theorem along_left {C : S → E → Prop} {s : S} {es fs : List E} (h : Along step C s (es ++ fs)) :
    Along step C s es := by
  induction es generalizing s with
  | nil => trivial
  | cons e es ih => exact fun t ht => ⟨(h t ht).1,ih (h t ht).2⟩

theorem along_right {C : S → E → Prop} {s t : S} {es fs : List E} (h : Along step C s (es ++ fs))
    (hr : run step s es = some t) : Along step C t fs := by
  induction es generalizing s with
  | nil =>
    cases hr
    exact h
  | cons e es ih =>
    obtain ⟨u,hu,hr⟩ := run_cons_eq_some.mp hr
    exact ih (h u hu).2 hr

theorem along_of_forall {C : S → E → Prop} {s : S} {es : List E} (h : ∀ s, ∀ e ∈ es, C s e) :
    Along step C s es := by
  refine along_iff_taken.mpr fun fs e t u hfs _ _ => h t e (hfs.subset ?_)
  exact List.mem_append_right fs List.mem_cons_self

theorem Along.mono {C D : S → E → Prop} (h : ∀ s e, C s e → D s e) {s : S} {es : List E}
    (hC : Along step C s es) : Along step D s es := by
  induction es generalizing s with
  | nil => trivial
  | cons e es ih => exact fun t ht => ⟨h s e (hC t ht).1,ih (hC t ht).2⟩

theorem always_of_along {P : S → Prop} {C : S → E → Prop}
    (hP : ∀ s e t, P s → C s e → step s e = some t → P t)
    {s : S} {es : List E} (hs : P s) (hC : Along step C s es) : Always step P s es := by
  induction es generalizing s with
  | nil => exact hs
  | cons e es ih => exact ⟨hs,fun t ht => ih (hP s e t hs (hC t ht).1 ht) (hC t ht).2⟩

theorem Always.mono {P Q : S → Prop} (h : ∀ s, P s → Q s) {s : S} {es : List E}
    (hP : Always step P s es) : Always step Q s es := by
  induction es generalizing s with
  | nil => exact h s hP
  | cons e es ih => exact ⟨h s hP.1,fun t ht => ih (hP.2 t ht)⟩

theorem along_of_along {P : S → Prop} {C D : S → E → Prop}
    (hP : ∀ s e t, P s → C s e → step s e = some t → P t)
    (hD : ∀ s e t, P s → C s e → step s e = some t → D s e)
    {s : S} {es : List E} (hs : P s) (hC : Along step C s es) : Along step D s es := by
  induction es generalizing s with
  | nil => trivial
  | cons e es ih =>
    intro t ht
    obtain ⟨hc,hC⟩ := hC t ht
    exact ⟨hD s e t hs hc ht,ih (hP s e t hs hc ht) hC⟩

/-- Exact conditions, in runs that keep to `D`. If from a state with `P` a step keeps `P`
exactly when it meets `C`, then `P` holds throughout a run exactly when every step of the
run meets `C`. -/
theorem always_iff_along_of {W P : S → Prop} {C D : S → E → Prop}
    (hW : ∀ s e t, W s → D s e → step s e = some t → W t)
    (hP : ∀ s e t, W s → D s e → P s → step s e = some t → (P t ↔ C s e))
    {s : S} {es : List E} (hw : W s) (hs : P s) (hD : Along step D s es) :
    Always step P s es ↔ Along step C s es := by
  induction es generalizing s with
  | nil => exact iff_of_true hs trivial
  | cons e es ih =>
    constructor
    · rintro ⟨-,h⟩ t ht
      have hpt : P t := (h t ht).first
      obtain ⟨hd,hD⟩ := hD t ht
      exact ⟨(hP s e t hw hd hs ht).mp hpt,(ih (hW s e t hw hd ht) hpt hD).mp (h t ht)⟩
    · intro h
      refine ⟨hs,fun t ht => ?_⟩
      obtain ⟨hc,hC⟩ := h t ht
      obtain ⟨hd,hD⟩ := hD t ht
      have hpt : P t := (hP s e t hw hd hs ht).mpr hc
      exact (ih (hW s e t hw hd ht) hpt hD).mpr hC

theorem always_iff_along {W P : S → Prop} {C : S → E → Prop}
    (hW : ∀ s e t, W s → step s e = some t → W t)
    (hP : ∀ s e t, W s → P s → step s e = some t → (P t ↔ C s e))
    {s : S} {es : List E} (hw : W s) (hs : P s) : Always step P s es ↔ Along step C s es :=
  always_iff_along_of (D := fun _ _ => True) (fun s e t hw _ => hW s e t hw)
    (fun s e t hw _ => hP s e t hw) hw hs (along_of_forall fun _ _ _ => trivial)

theorem Along.and {C D : S → E → Prop} {s : S} {es : List E} (hC : Along step C s es)
    (hD : Along step D s es) : Along step (fun s e => C s e ∧ D s e) s es := by
  induction es generalizing s with
  | nil => trivial
  | cons e es ih => exact fun t ht => ⟨⟨(hC t ht).1,(hD t ht).1⟩,ih (hC t ht).2 (hD t ht).2⟩

/-- The steps in `p` are paid for from a potential that only the steps in `q` refill. -/
theorem run_potential {P : S → Prop} {C : S → E → Prop} {m : S → ℕ} {p q : E → Bool}
    (hP : ∀ s e t, P s → C s e → step s e = some t →
      P t ∧ m t + (if p e then 1 else 0) ≤ m s + if q e then 1 else 0)
    {s t : S} {es : List E} (hs : P s) (hC : Along step C s es) (hr : run step s es = some t) :
    P t ∧ m t + es.countP p ≤ m s + es.countP q := by
  induction es generalizing s with
  | nil =>
    cases hr
    exact ⟨hs,le_rfl⟩
  | cons e es ih =>
    obtain ⟨u,hu,hr⟩ := run_cons_eq_some.mp hr
    obtain ⟨hc,hC⟩ := hC u hu
    obtain ⟨hu',hpaid⟩ := hP s e u hs hc hu
    obtain ⟨ht,hrest⟩ := ih hu' hC hr
    refine ⟨ht,?_⟩
    rw [List.countP_cons,List.countP_cons]
    omega

/-- A machine with a ghost component, updated from the step just taken. -/
def withGhost (step : S → E → Option S) (update : S → E → S → G → G) :
    S × G → E → Option (S × G) :=
  fun p e => (step p.1 e).map (fun t => (t,update p.1 e t p.2))

variable {update : S → E → S → G → G}

theorem withGhost_eq_some {p q : S × G} {e : E} :
    withGhost step update p e = some q ↔
      step p.1 e = some q.1 ∧ q.2 = update p.1 e q.1 p.2 := by
  rcases q with ⟨t,h⟩
  simp only [withGhost,Option.map_eq_some_iff,Prod.mk.injEq]
  constructor
  · rintro ⟨u,hu,rfl,rfl⟩
    exact ⟨hu,rfl⟩
  · rintro ⟨hu,rfl⟩
    exact ⟨t,hu,rfl,rfl⟩

/-- Every run can be watched. -/
theorem exists_ghost_run {s t : S} {es : List E} (h : run step s es = some t) (g : G) :
    ∃ g', run (withGhost step update) (s,g) es = some (t,g') := by
  induction es generalizing s g with
  | nil =>
    cases h
    exact ⟨g,rfl⟩
  | cons e es ih =>
    obtain ⟨u,hu,hr⟩ := run_cons_eq_some.mp h
    obtain ⟨g',hg'⟩ := ih hr (update s e u g)
    have hfirst : withGhost step update (s,g) e = some (u,update s e u g) :=
      withGhost_eq_some.mpr ⟨hu,rfl⟩
    exact ⟨g',(run_cons_of_step hfirst es).trans hg'⟩

/-! ## Ghosts with an entry for each thing observed -/

section Entries
variable {A B K : Type*} {R : A → B → Prop}

theorem exists_entry {l : List A} {g : List B} (h : List.Forall₂ R l g) {a : A} (ha : a ∈ l) : ∃ b ∈ g, R a b := by
  induction h with
  | nil => cases ha
  | @cons a' b l g hfirst h ih =>
    rcases List.mem_cons.mp ha with rfl | ha
    · exact ⟨b,List.mem_cons_self,hfirst⟩
    · obtain ⟨c,hc,hac⟩ := ih ha
      exact ⟨c,List.mem_cons_of_mem b hc,hac⟩

variable [DecidableEq K] {f : K → A} {g : K → B} {k : K} {a : A} {b : B}

theorem entries_update_iff (h : ∀ i, R (f i) (g i)) :
    (∀ i, R (Function.update f k a i) (Function.update g k b i)) ↔ R a b := by
  constructor
  · intro hupdated
    have hk := hupdated k
    rwa [Function.update_self,Function.update_self] at hk
  · intro hk i
    by_cases hi : i = k
    · subst hi
      rwa [Function.update_self,Function.update_self]
    · rw [Function.update_of_ne hi,Function.update_of_ne hi]
      exact h i

/-- A change that the entry already allows for. -/
theorem entries_update (h : ∀ i, R (f i) (g i)) (hk : R a (g k)) : ∀ i, R (Function.update f k a i) (g i) :=
  (Function.forall_update_iff f (fun i v => R v (g i))).mpr ⟨hk,fun i _ => h i⟩

end Entries

end ServerlessSched.Runs
