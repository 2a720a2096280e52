import ServerlessSched.Library.Runs

/-! # Progress in turns

Short of a goal, one kind of event helps in each state: it brings a measure down, and until it
occurs no other event changes which kind helps without bringing the measure down as well.
Runs in which every kind occurs again and again then reach the goal.
-/
namespace ServerlessSched.Runs
variable {S E K : Type*} (goal : S → Prop) (measure : S → ℕ) (helpful : S → K) (kind : E → Option K)

/-- What a step may do short of the goal. -/
def Helped (s : S) (e : E) (t : S) : Prop := goal t ∨ measure t < measure s ∨
  measure t = measure s ∧ helpful t = helpful s ∧ kind e ≠ some (helpful s)

/-- Events among which every kind occurs. -/
def FullTurn (turn : List E) : Prop := ∀ k, ∃ e ∈ turn, kind e = some k

variable {goal measure helpful kind} {step : S → E → Option S} {I : S → Prop} {C : S → E → Prop}
variable (hI : ∀ s e t, I s → C s e → step s e = some t → I t)
variable (hgoal : ∀ s e t, I s → C s e → step s e = some t → goal s → goal t)
variable (hhelped : ∀ s e t, I s → C s e → step s e = some t → ¬goal s →
  Helped goal measure helpful kind s e t)
include hI hgoal

theorem goal_of_run {s t : S} {es : List E} (hs : I s) (hC : Along step C s es) (hr : run step s es = some t)
    (h : goal s) : goal t := by
  have hboth : ∀ s e t, I s ∧ goal s → C s e → step s e = some t → I t ∧ goal t := fun s e t hs hc ht =>
    ⟨hI s e t hs.1 hc ht,hgoal s e t hs.1 hc ht hs.2⟩
  exact (always_iff_visited.mp (always_of_along hboth ⟨hs,h⟩ hC) es t List.prefix_rfl hr).2

include hhelped

/-- The goal, a smaller measure, or none of the events was of the kind that helps. -/
theorem helped_run {s t : S} {es : List E} (hs : I s) (hC : Along step C s es) (hr : run step s es = some t) :
    goal t ∨ measure t < measure s ∨
      measure t = measure s ∧ helpful t = helpful s ∧ ∀ e ∈ es, kind e ≠ some (helpful s) := by
  induction es generalizing s with
  | nil =>
    cases hr
    exact Or.inr (Or.inr ⟨rfl,rfl,fun e he => (List.not_mem_nil he).elim⟩)
  | cons e es ih =>
    obtain ⟨u,hu,hr⟩ := run_cons_eq_some.mp hr
    obtain ⟨hc,hC⟩ := hC u hu
    have hIu := hI s e u hs hc hu
    by_cases hshort : goal s
    · exact Or.inl (goal_of_run hI hgoal hIu hC hr (hgoal s e u hs hc hu hshort))
    rcases hhelped s e u hs hc hu hshort with hnow | hless | ⟨hsame,hkind,hother⟩
    · exact Or.inl (goal_of_run hI hgoal hIu hC hr hnow)
    · rcases ih hIu hC hr with hlater | hmore | ⟨hrest,-,-⟩
      · exact Or.inl hlater
      · exact Or.inr (Or.inl (hmore.trans hless))
      · exact Or.inr (Or.inl (hrest.trans_lt hless))
    · rcases ih hIu hC hr with hlater | hmore | ⟨hrest,hkept,hnone⟩
      · exact Or.inl hlater
      · exact Or.inr (Or.inl (hmore.trans_eq hsame))
      · refine Or.inr (Or.inr ⟨hrest.trans hsame,hkept.trans hkind,fun f hf => ?_⟩)
        rcases List.mem_cons.mp hf with rfl | hf
        · exact hother
        · rw [← hkind]
          exact hnone f hf

/-- The rule: as many full turns as the measure says reach the goal. -/
theorem goal_of_turns (hpositive : ∀ s, I s → ¬goal s → 0 < measure s) {s t : S} {turns : List (List E)}
    (hs : I s) (hC : Along step C s turns.flatten) (hr : run step s turns.flatten = some t)
    (hfull : ∀ turn ∈ turns, FullTurn kind turn) (hlength : measure s ≤ turns.length) : goal t := by
  induction turns generalizing s with
  | nil =>
    cases hr
    by_contra hshort
    exact absurd (hpositive _ hs hshort) (Nat.not_lt_of_le hlength)
  | cons turn turns ih =>
    rw [List.flatten_cons] at hC hr
    obtain ⟨u,hu,hrest⟩ := run_append_eq_some.mp hr
    have hCu := along_left hC
    have hIu : I u := always_iff_visited.mp (always_of_along hI hs hCu) turn u List.prefix_rfl hu
    have hCrest := along_right hC hu
    have hfull' : ∀ later ∈ turns, FullTurn kind later := fun later hl => hfull later (List.mem_cons_of_mem turn hl)
    rw [List.length_cons] at hlength
    rcases helped_run hI hgoal hhelped hs hCu hu with hnow | hless | ⟨-,-,hnone⟩
    · exact goal_of_run hI hgoal hIu hCrest hrest hnow
    · exact ih hIu hCrest hrest hfull' (by omega)
    · obtain ⟨e,he,hkind⟩ := hfull turn List.mem_cons_self (helpful s)
      exact absurd hkind (hnone e he)

end ServerlessSched.Runs
