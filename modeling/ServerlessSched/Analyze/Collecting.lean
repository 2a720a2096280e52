import ServerlessSched.Analyze.Walks
import Mathlib.Data.List.Nodup

/-! # What a line adds to the events of the PIDs

The loop over the PIDs comes to some of them, in the order of the set, and is left at an exit.
-/
namespace ServerlessSched.Analyze
open PythonText ParseTrace

/-! ## One line, all PIDs -/

/-- The line is added to the events of the PID if the loop comes to it. -/
def concerns (pid : ℕ) (l : Line) : Bool :=
  contains (str pid) (strip l.raw) && (contains (str pid) (str l.event.pid) || contains (str pid) l.event.details)

/-- The PIDs the loop comes to before it is left. -/
def visited (l : Line) : List ℕ → List ℕ
  | [] => []
  | p :: ps => if ends (str p) l.event then [p] else p :: visited l ps

def collect (l : Line) (ps : List ℕ) (dict : EventDict ℕ) : EventDict ℕ :=
  ps.foldl (fun dict p => if concerns p l then dict.append p l.event else dict) dict

def leaving (l : Line) (ps : List ℕ) : List ℕ := (visited l ps).filter (fun p => ends (str p) l.event)

variable {l : Line} {p : ℕ} {ps qs : List ℕ} {dict : EventDict ℕ}

theorem concerns_of_contains (h : contains (str p) l.event.details = true) : concerns p l = true := by
  have hline : contains (str p) (strip l.raw) = true :=
    contains_eq_true.mpr ((contains_eq_true.mp h).trans (infix_details l.parsed))
  rw [concerns,hline,h,Bool.or_true,Bool.and_true]

theorem contains_of_not_concerns (h : concerns p l = false) : contains (str p) l.event.details = false := by
  cases hcontains : contains (str p) l.event.details with
  | false => rfl
  | true => exact absurd (concerns_of_contains hcontains) (by simp [h])

theorem concerns_of_ends (h : ends (str p) l.event = true) : concerns p l = true :=
  concerns_of_contains (contains_of_ends h)

theorem scanPids_line (l : Line) (ps : List ℕ) (dict : EventDict ℕ) :
    scanPids (strip l.raw) (ps.map str) dict = some (collect l (visited l ps) dict,(leaving l ps).map str) := by
  induction ps generalizing dict with
  | nil => rfl
  | cons p ps ih =>
    rw [List.map_cons,scanPids,l.parsed,intOfDigits_str]
    dsimp only
    cases hends : ends (str p) l.event with
    | true =>
      have hconcerns := concerns_of_ends hends
      obtain ⟨hline,hfound⟩ := Bool.and_eq_true_iff.mp hconcerns
      rw [if_pos hline,if_neg (by rw [← Bool.not_or,hfound]; decide)]
      simp [collect,leaving,visited,hends,hconcerns]
    | false =>
      have hnext : ∀ d, scanPids (strip l.raw) (ps.map str) d =
          some (collect l (visited l ps) d,(leaving l (p :: ps)).map str) := by
        intro d
        simp [ih,leaving,visited,hends]
      rw [visited,hends]
      cases hline : contains (str p) (strip l.raw) with
      | false =>
        have hconcerns : concerns p l = false := by rw [concerns,hline,Bool.false_and]
        simp [hnext,collect,hconcerns]
      | true =>
        cases hfound : contains (str p) (str l.event.pid) || contains (str p) l.event.details with
        | false =>
          have hconcerns : concerns p l = false := by rw [concerns,hline,hfound,Bool.true_and]
          simp at hfound
          simp [hnext,collect,hconcerns,hfound]
        | true =>
          have hconcerns : concerns p l = true := by rw [concerns,hline,hfound,Bool.true_and]
          have hneg : ¬((!contains (str p) (str l.event.pid) && !contains (str p) l.event.details) = true) := by
            rw [← Bool.not_or,hfound]
            decide
          rw [if_pos rfl,if_neg hneg,if_neg (by simp),hnext]
          simp [collect,hconcerns]

theorem visited_subset : ∀ q ∈ visited l ps, q ∈ ps := by
  induction ps with
  | nil => exact fun _ hq => hq
  | cons p ps ih =>
    intro q hq
    rw [visited] at hq
    split at hq
    · exact List.mem_cons.mpr (Or.inl (List.mem_singleton.mp hq))
    · rcases List.mem_cons.mp hq with rfl | hq
      · exact List.mem_cons_self
      · exact List.mem_cons_of_mem p (ih q hq)

theorem visited_nodup (h : ps.Nodup) : (visited l ps).Nodup := by
  induction ps with
  | nil => exact h
  | cons p ps ih =>
    obtain ⟨hp,hps⟩ := List.nodup_cons.mp h
    rw [visited]
    split
    · exact List.nodup_singleton p
    · exact List.nodup_cons.mpr ⟨fun hf => hp (visited_subset p hf),ih hps⟩

/-- Only an exit keeps the loop from coming to a PID. -/
theorem mem_visited_or (h : p ∈ ps) :
    p ∈ visited l ps ∨ ∃ q ∈ visited l ps, ends (str q) l.event = true ∧ q ≠ p := by
  induction ps with
  | nil => cases h
  | cons q ps ih =>
    rw [visited]
    by_cases hpq : p = q
    · subst hpq
      left
      split <;> simp
    · cases hends : ends (str q) l.event with
      | true => exact Or.inr ⟨q,by simp,hends,Ne.symm hpq⟩
      | false =>
        rcases ih ((List.mem_cons.mp h).resolve_left hpq) with hp | ⟨q',hq',hends',hne⟩
        · exact Or.inl (by simp [hp])
        · exact Or.inr ⟨q',by simp [hq'],hends',hne⟩

theorem get_collect (h : ps.Nodup) : (collect l ps dict).get p =
    if p ∈ ps ∧ concerns p l = true then dict.get p ++ [l.event] else dict.get p := by
  induction ps generalizing dict with
  | nil => simp [collect]
  | cons q ps ih =>
    obtain ⟨hq,hps⟩ := List.nodup_cons.mp h
    have htail : (collect l (q :: ps) dict).get p = (collect l ps
        (if concerns q l then dict.append q l.event else dict)).get p := rfl
    rw [htail,ih hps]
    by_cases hpq : p = q
    · subst hpq
      rw [if_neg (fun hf => hq hf.1)]
      cases hconcerns : concerns p l with
      | true => simp [EventDict.get_append]
      | false => simp
    · cases hconcerns : concerns q l with
      | true => simp [EventDict.get_append,hpq]
      | false => simp [hpq]

theorem keys_collect (hkeys : dict.keys.Nodup) :
    (collect l ps dict).keys.Nodup ∧ ∀ k ∈ (collect l ps dict).keys, k ∈ dict.keys ∨ k ∈ ps := by
  induction ps generalizing dict with
  | nil => exact ⟨hkeys,fun k hk => Or.inl hk⟩
  | cons q ps ih =>
    have hnext : (dict.append q l.event).keys.Nodup ∧
        ∀ k ∈ (dict.append q l.event).keys, k ∈ dict.keys ∨ k = q := by
      refine ⟨EventDict.keys_append_nodup hkeys,fun k hk => ?_⟩
      rw [EventDict.keys_append] at hk
      split at hk
      · exact Or.inl hk
      · simpa using hk
    have htail : collect l (q :: ps) dict =
        collect l ps (if concerns q l then dict.append q l.event else dict) := rfl
    rw [htail]
    cases concerns q l with
    | true =>
      obtain ⟨hnodup,hsub⟩ := ih hnext.1
      refine ⟨hnodup,fun k hk => ?_⟩
      rcases hsub k hk with hk | hk
      · rcases hnext.2 k hk with hk | rfl
        · exact Or.inl hk
        · exact Or.inr List.mem_cons_self
      · exact Or.inr (List.mem_cons_of_mem q hk)
    | false =>
      obtain ⟨hnodup,hsub⟩ := ih hkeys
      exact ⟨hnodup,fun k hk => (hsub k hk).imp_right (List.mem_cons_of_mem q)⟩

/-! ## All lines -/

/-- However the set is iterated over, it is a list of PIDs. -/
theorem perm_numerals {ss : List Text} (h : ss.Perm (ps.map str)) :
    ∃ qs : List ℕ, qs.Perm ps ∧ ss = qs.map str := by
  have hnumerals : ss.map (fun s => str (intOfDigits s)) = ss.map id := by
    apply List.map_congr_left
    intro s hs
    obtain ⟨p,-,rfl⟩ := List.mem_map.mp (h.subset hs)
    rw [intOfDigits_str]
    rfl
  refine ⟨ss.map intOfDigits,?_,?_⟩
  · have hback := h.map intOfDigits
    simpa [Function.comp_def] using hback
  · rw [List.map_map]
    exact (hnumerals.trans (List.map_id ss)).symm

/-- A line leaves the PIDs that have not ended with it. -/
theorem scanLines_cons {order : ℕ → List Text → List Text} {i : ℕ} (horder : order i (ps.map str) = qs.map str)
    (l : Line) (rest : List Text) (dict : EventDict ℕ) :
    scanLines order i (l.raw :: rest) (ps.map str) dict =
      scanLines order (i + 1) rest ((ps.filter (fun p => p ∉ leaving l qs)).map str)
        (collect l (visited l qs) dict) := by
  rw [scanLines,horder,scanPids_line]
  dsimp only
  rw [List.filter_map]
  simp only [Function.comp_def,List.mem_map_of_injective str_injective]

end ServerlessSched.Analyze
