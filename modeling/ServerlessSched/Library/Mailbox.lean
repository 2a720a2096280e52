import ServerlessSched.Library.Runs
import Mathlib.Logic.Function.Basic

/-! # Mailboxes with a sleeping owner

Work is posted first and announced afterwards: a flag is raised, somebody who finds it raised
lowers it and sends a message, and a message wakes the owner. The owner sleeps only after it
has found the mailbox empty. Every step is taken on its own, by any of the parties.
-/
namespace ServerlessSched
variable {ι J : Type*}

/-- What a party still has to do: raise the flag for work it has posted, or send the message
for a flag it has lowered. -/
inductive Duty
  | raise
  | send
deriving DecidableEq

@[ext] structure Mailbox (ι J : Type*) where
  work : List J
  raised : Bool
  unread : ℕ
  duty : ι → Option Duty
  looking : Bool

namespace Mailbox
variable [DecidableEq ι] {s t : Mailbox ι J}

/-- The steps of the parties and, from `take` on, of the owner. Looking for work ends with an
empty mailbox only, and waking up is looking again. -/
inductive Step (s : Mailbox ι J) : Mailbox ι J → Prop
  | post (i : ι) (j : J) (h : s.duty i = none) :
      Step s { s with work := s.work ++ [j], duty := Function.update s.duty i (some .raise) }
  | raise (i : ι) (h : s.duty i = some .raise) :
      Step s { s with raised := true, duty := Function.update s.duty i none }
  | raiseAgain : Step s { s with raised := true }
  | lower (i : ι) (h : s.duty i = none) (hraised : s.raised = true) :
      Step s { s with raised := false, duty := Function.update s.duty i (some .send) }
  | send (i : ι) (h : s.duty i = some .send) :
      Step s { s with unread := s.unread + 1, duty := Function.update s.duty i none }
  | take (rest : List J) (h : s.looking = true) : Step s { s with work := rest }
  | leave (h : s.work = []) : Step s { s with looking := false }
  | wake (unread : ℕ) : Step s { s with unread := unread, looking := true }
  | stay : Step s s

/-- Work in the mailbox is on its way to the owner: somebody has a duty, the flag is raised, a
message is unread, or the owner is looking. -/
def Announced (s : Mailbox ι J) : Prop :=
  s.work ≠ [] → s.looking = true ∨ s.raised = true ∨ 0 < s.unread ∨ ∃ i, s.duty i ≠ none

theorem Announced.step (hs : s.Announced) (h : Step s t) : t.Announced := by
  intro hwork
  cases h with
  | post i j hi => exact Or.inr (Or.inr (Or.inr ⟨i,by simp⟩))
  | raise i hi => exact Or.inr (Or.inl rfl)
  | raiseAgain => exact Or.inr (Or.inl rfl)
  | lower i hi hraised => exact Or.inr (Or.inr (Or.inr ⟨i,by simp⟩))
  | send i hi => exact Or.inr (Or.inr (Or.inl (Nat.succ_pos _)))
  | take rest hlooking => exact Or.inl hlooking
  | leave hempty => exact absurd hempty hwork
  | wake unread => exact Or.inl rfl
  | stay => exact hs hwork

omit [DecidableEq ι] in
/-- No lost wakeup: when the owner sleeps and nobody has a duty, work in the mailbox has its
flag raised or its message unread. -/
theorem Announced.woken (hs : s.Announced) (hasleep : s.looking = false) (hduty : ∀ i, s.duty i = none)
    (hwork : s.work ≠ []) : s.raised = true ∨ 0 < s.unread := by
  rcases hs hwork with hlooking | hraised | hunread | ⟨i,hi⟩
  · rw [hasleep] at hlooking
    cases hlooking
  · exact Or.inl hraised
  · exact Or.inr hunread
  · exact absurd (hduty i) hi

open Runs in
/-- The rule for a machine that behaves like a mailbox, in the runs that meet `C`. -/
theorem announced_of_run {S E : Type*} {step : S → E → Option S} (view : S → Mailbox ι J)
    {I : S → Prop} {C : S → E → Prop} (hI : ∀ s e t, I s → C s e → step s e = some t → I t)
    (hstep : ∀ s e t, I s → C s e → step s e = some t → Step (view s) (view t))
    {s t : S} {es : List E} (hs : I s) (hview : (view s).Announced) (hC : Along step C s es)
    (hr : run step s es = some t) : I t ∧ (view t).Announced := by
  have hAlways : Always step (fun u => I u ∧ (view u).Announced) s es :=
    always_of_along (fun u e v hu he hv => ⟨hI u e v hu.1 he hv,hu.2.step (hstep u e v hu.1 he hv)⟩)
      ⟨hs,hview⟩ hC
  exact always_iff_visited.mp hAlways es t List.prefix_rfl hr

end Mailbox
end ServerlessSched
