import Mathlib.Data.List.Infix

/-! # Regular expressions with a backtracking matcher

The matches of an expression at the front of a text, in the order in which a backtracking
engine tries them: greedy repetitions from the longest, lazy ones from the shortest. The first
of them is the match; which one that is also depends on what is to be matched next.
-/
namespace ServerlessSched

/-- Repetitions are of one character class; `group` captures what its expression matches. -/
inductive Regex
  | char (p : Char → Bool)
  | star (p : Char → Bool)
  | lazyStar (p : Char → Bool)
  | seq (r s : Regex)
  | optional (r : Regex)
  | group (r : Regex)

namespace Regex

/-- What is left after `p` has matched no character, one, two, and so on. -/
def rests (p : Char → Bool) : List Char → List (List Char)
  | [] => [[]]
  | c :: cs => (c :: cs) :: if p c then rests p cs else []

/-- The texts captured and the text left over, for every way to match. -/
def ways : Regex → List Char → List (List (List Char) × List Char)
  | char _, [] => []
  | char p, c :: cs => if p c then [([],cs)] else []
  | star p, s => (rests p s).reverse.map (fun rest => ([],rest))
  | lazyStar p, s => (rests p s).map (fun rest => ([],rest))
  | seq r t, s => (r.ways s).flatMap (fun m => (t.ways m.2).map (fun n => (m.1 ++ n.1,n.2)))
  | optional r, s => r.ways s ++ [([],s)]
  | group r, s => (r.ways s).map (fun m => (s.take (s.length - m.2.length) :: m.1,m.2))

/-- The groups of `re.match`. -/
def groups (r : Regex) (s : List Char) : Option (List (List Char)) := (r.ways s).head?.map Prod.fst

def lit (c : Char) : Regex := char (fun d => d = c)

def plus (p : Char → Bool) : Regex := seq (char p) (star p)

def lazyPlus (p : Char → Bool) : Regex := seq (char p) (lazyStar p)

theorem rests_suffix {p : Char → Bool} {s rest : List Char} (h : rest ∈ rests p s) : rest <:+ s := by
  induction s with
  | nil => exact List.mem_singleton.mp h ▸ List.suffix_rfl
  | cons c cs ih =>
    rcases List.mem_cons.mp h with rfl | h
    · exact List.suffix_rfl
    · split at h
      · exact (ih h).trans (List.suffix_cons c cs)
      · cases h

/-- Captured texts are parts of the text, and what is left over is its end. -/
theorem infix_ways {r : Regex} {s : List Char} {m : List (List Char) × List Char} (h : m ∈ r.ways s) :
    m.2 <:+ s ∧ ∀ captured ∈ m.1, captured <:+: s := by
  induction r generalizing s m with
  | char p =>
    cases s with
    | nil => cases h
    | cons c cs =>
      rw [ways] at h
      split at h
      · cases List.mem_singleton.mp h
        exact ⟨List.suffix_cons c cs,fun _ hf => by cases hf⟩
      · cases h
  | star p =>
    obtain ⟨rest,hrest,rfl⟩ := List.mem_map.mp h
    exact ⟨rests_suffix (List.mem_reverse.mp hrest),fun _ hf => by cases hf⟩
  | lazyStar p =>
    obtain ⟨rest,hrest,rfl⟩ := List.mem_map.mp h
    exact ⟨rests_suffix hrest,fun _ hf => by cases hf⟩
  | seq r t ihr iht =>
    obtain ⟨m',hm',h⟩ := List.mem_flatMap.mp h
    obtain ⟨n,hn,rfl⟩ := List.mem_map.mp h
    obtain ⟨hsuffix,hcaptured⟩ := ihr hm'
    obtain ⟨hsuffix',hcaptured'⟩ := iht hn
    refine ⟨hsuffix'.trans hsuffix,fun captured hmem => ?_⟩
    rcases List.mem_append.mp hmem with hmem | hmem
    · exact hcaptured captured hmem
    · exact (hcaptured' captured hmem).trans hsuffix.isInfix
  | optional r ih =>
    rcases List.mem_append.mp h with h | h
    · exact ih h
    · cases List.mem_singleton.mp h
      exact ⟨List.suffix_rfl,fun _ hf => by cases hf⟩
  | group r ih =>
    obtain ⟨m',hm',rfl⟩ := List.mem_map.mp h
    obtain ⟨hsuffix,hcaptured⟩ := ih hm'
    refine ⟨hsuffix,fun captured hmem => ?_⟩
    rcases List.mem_cons.mp hmem with rfl | hmem
    · exact (List.take_prefix _ _).isInfix
    · exact hcaptured captured hmem

theorem infix_groups {r : Regex} {s : List Char} {captures : List (List Char)} (h : r.groups s = some captures)
    {captured : List Char} (hmem : captured ∈ captures) : captured <:+: s := by
  obtain ⟨m,hm,rfl⟩ := Option.map_eq_some_iff.mp h
  exact (infix_ways (List.mem_of_mem_head? hm)).2 captured hmem

/-! ## The way that comes first -/

section First
variable {r t : Regex} {p : Char → Bool} {c : Char} {s w rest : List Char}
  {m n : List (List Char) × List Char}

theorem head_char (hc : p c = true) (s : List Char) : ((char p).ways (c :: s)).head? = some ([],s) := by
  rw [ways,if_pos hc]
  rfl

theorem ways_seq_char (hc : p c = true) (t : Regex) (s : List Char) : (seq (char p) t).ways (c :: s) = t.ways s := by
  simp [ways,hc]

theorem ways_seq_lit (c : Char) (t : Regex) (s : List Char) : (seq (lit c) t).ways (c :: s) = t.ways s :=
  ways_seq_char (decide_eq_true rfl) t s

theorem ways_seq_char_of_ne (hc : ∀ d ∈ s.head?, p d = false) (t : Regex) : (seq (char p) t).ways s = [] := by
  cases s with
  | nil => rfl
  | cons d s => simp [ways,hc d rfl]

theorem stops_cons (hc : p c = false) (s : List Char) : ∀ d ∈ (c :: s).head?, p d = false := by
  intro d hd
  cases hd
  exact hc

theorem stops_append (hne : w ≠ []) (hw : ∀ c ∈ w, p c = false) (s : List Char) :
    ∀ d ∈ (w ++ s).head?, p d = false := by
  obtain ⟨c,w,rfl⟩ := List.exists_cons_of_ne_nil hne
  exact stops_cons (hw c List.mem_cons_self) (w ++ s)

/-- Where `p` does not go on, a repetition stays. -/
theorem rests_of_stop (h : ∀ d ∈ s.head?, p d = false) : rests p s = [s] := by
  cases s with
  | nil => rfl
  | cons d s => simp [rests,h d rfl]

theorem rests_append (hw : ∀ c ∈ w, p c = true) (rest : List Char) :
    ∃ before, rests p (w ++ rest) = before ++ rests p rest ∧
      ∀ s ∈ before, ∃ u v, w = u ++ v ∧ v ≠ [] ∧ s = v ++ rest := by
  induction w with
  | nil => exact ⟨[],rfl,fun s hs => by cases hs⟩
  | cons c w ih =>
    obtain ⟨hc,hw⟩ := List.forall_mem_cons.mp hw
    obtain ⟨before,hrests,hbefore⟩ := ih hw
    refine ⟨(c :: (w ++ rest)) :: before,?_,fun s hs => ?_⟩
    · rw [List.cons_append,rests,if_pos hc,hrests,List.cons_append]
    · rcases List.mem_cons.mp hs with rfl | hs
      · exact ⟨[],c :: w,rfl,List.cons_ne_nil c w,rfl⟩
      · obtain ⟨u,v,rfl,hv,hs⟩ := hbefore s hs
        exact ⟨c :: u,v,rfl,hv,hs⟩

theorem head_rests (p : Char → Bool) (s : List Char) : ∃ after, rests p s = s :: after := by
  cases s with
  | nil => exact ⟨[],rfl⟩
  | cons c s => exact ⟨_,rfl⟩

/-- With `t` to be matched next, `r` matches in the way `m`: all that are tried before leave a
text that `t` does not match. -/
def Settles (r t : Regex) (s : List Char) (m : List (List Char) × List Char) : Prop :=
  ∃ before after, r.ways s = before ++ m :: after ∧ ∀ m' ∈ before, t.ways m'.2 = []

theorem settles_of_head (h : (r.ways s).head? = some m) : r.Settles t s m := by
  obtain ⟨after,hways⟩ := List.head?_eq_some_iff.mp h
  exact ⟨[],after,hways,fun m' hm' => by cases hm'⟩

theorem Settles.head_seq (h : r.Settles t s m) (hn : (t.ways m.2).head? = some n) :
    ((seq r t).ways s).head? = some (m.1 ++ n.1,n.2) := by
  obtain ⟨before,after,hways,hbefore⟩ := h
  obtain ⟨others,ht⟩ := List.head?_eq_some_iff.mp hn
  have hskip : before.flatMap (fun m => (t.ways m.2).map (fun n => (m.1 ++ n.1,n.2))) = [] := by
    apply List.flatMap_eq_nil_iff.mpr
    intro m' hm'
    rw [hbefore m' hm',List.map_nil]
  rw [ways,hways,List.flatMap_append,hskip,List.nil_append,List.flatMap_cons,ht]
  rfl

theorem head_seq (h : (r.ways s).head? = some m) (hn : (t.ways m.2).head? = some n) :
    ((seq r t).ways s).head? = some (m.1 ++ n.1,n.2) := (settles_of_head h).head_seq hn

theorem head_seq_lit (c : Char) (hn : (t.ways s).head? = some n) :
    ((seq (lit c) t).ways (c :: s)).head? = some n := by
  rw [ways_seq_lit]
  exact hn

theorem Settles.optional (h : r.Settles t s m) : (optional r).Settles t s m := by
  obtain ⟨before,after,hways,hbefore⟩ := h
  refine ⟨before,after ++ [([],s)],?_,hbefore⟩
  rw [ways,hways,List.append_assoc,List.cons_append]

theorem Settles.group {captures : List (List Char)} (h : r.Settles t (w ++ rest) (captures,rest)) :
    (group r).Settles t (w ++ rest) (w :: captures,rest) := by
  obtain ⟨before,after,hways,hbefore⟩ := h
  have htake : (w ++ rest).take ((w ++ rest).length - rest.length) = w := by simp
  rw [Settles,ways,hways,List.map_append,List.map_cons,htake]
  refine ⟨_,_,rfl,fun m' hm' => ?_⟩
  obtain ⟨m,hm,rfl⟩ := List.mem_map.mp hm'
  exact hbefore m hm

theorem head_group {captures : List (List Char)} (h : (r.ways (w ++ rest)).head? = some (captures,rest)) :
    ((group r).ways (w ++ rest)).head? = some (w :: captures,rest) := by
  simp [ways,h]

/-! ## Repetitions -/

/-- A lazy repetition goes on as long as `t` does not match. -/
theorem lazyStar_settles (hw : ∀ c ∈ w, p c = true)
    (ht : ∀ u v, w = u ++ v → v ≠ [] → t.ways (v ++ rest) = []) :
    (lazyStar p).Settles t (w ++ rest) ([],rest) := by
  obtain ⟨before,hrests,hbefore⟩ := rests_append hw rest
  obtain ⟨after,hafter⟩ := head_rests p rest
  rw [Settles,ways,hrests,hafter,List.map_append,List.map_cons]
  refine ⟨_,_,rfl,?_⟩
  intro m' hm'
  obtain ⟨s,hs,rfl⟩ := List.mem_map.mp hm'
  obtain ⟨u,v,huv,hv,rfl⟩ := hbefore s hs
  exact ht u v huv hv

theorem lazyPlus_settles (hw : ∀ d ∈ c :: w, p d = true)
    (ht : ∀ u v, w = u ++ v → v ≠ [] → t.ways (v ++ rest) = []) :
    (lazyPlus p).Settles t (c :: w ++ rest) ([],rest) := by
  obtain ⟨hc,hw⟩ := List.forall_mem_cons.mp hw
  have h := lazyStar_settles hw ht
  rwa [Settles,← ways_seq_char hc (lazyStar p) (w ++ rest)] at h

theorem mem_rests_append (hw : ∀ c ∈ w, p c = true) (hstop : ∀ d ∈ rest.head?, p d = false)
    (h : s ∈ rests p (w ++ rest)) : ∃ u v, w = u ++ v ∧ s = v ++ rest := by
  obtain ⟨before,hrests,hbefore⟩ := rests_append hw rest
  rw [hrests,rests_of_stop hstop] at h
  rcases List.mem_append.mp h with h | h
  · obtain ⟨u,v,huv,-,hs⟩ := hbefore s h
    exact ⟨u,v,huv,hs⟩
  · exact ⟨w,[],(List.append_nil w).symm,List.mem_singleton.mp h⟩

/-- A greedy repetition gives back `u` if `t` does not match before. -/
theorem star_settles {u : List Char} (hw : ∀ c ∈ w, p c = true) (hu : ∀ c ∈ u, p c = true)
    (hstop : ∀ d ∈ rest.head?, p d = false)
    (ht : ∀ v v', u = v ++ v' → v ≠ [] → t.ways (v' ++ rest) = []) :
    (star p).Settles t (w ++ (u ++ rest)) ([],u ++ rest) := by
  obtain ⟨longer,hlonger,-⟩ := rests_append hw (u ++ rest)
  obtain ⟨shorter,hshorter,hrejects⟩ : ∃ shorter, rests p (u ++ rest) = (u ++ rest) :: shorter ∧
      ∀ s ∈ shorter, t.ways s = [] := by
    cases u with
    | nil => exact ⟨[],rests_of_stop hstop,fun s hs => by cases hs⟩
    | cons c u =>
      obtain ⟨hc,hu⟩ := List.forall_mem_cons.mp hu
      refine ⟨rests p (u ++ rest),by rw [List.cons_append,rests,if_pos hc],fun s hs => ?_⟩
      obtain ⟨v,v',rfl,rfl⟩ := mem_rests_append hu hstop hs
      exact ht (c :: v) v' rfl (List.cons_ne_nil c v)
  rw [Settles,ways,hlonger,hshorter,List.reverse_append,List.reverse_cons,List.append_assoc,List.map_append,
    List.cons_append,List.nil_append,List.map_cons]
  refine ⟨_,_,rfl,fun m' hm' => ?_⟩
  obtain ⟨s,hs,rfl⟩ := List.mem_map.mp hm'
  exact hrejects s (List.mem_reverse.mp hs)

theorem plus_settles {u : List Char} (hw : ∀ d ∈ c :: w, p d = true) (hu : ∀ c ∈ u, p c = true)
    (hstop : ∀ d ∈ rest.head?, p d = false)
    (ht : ∀ v v', u = v ++ v' → v ≠ [] → t.ways (v' ++ rest) = []) :
    (plus p).Settles t (c :: w ++ (u ++ rest)) ([],u ++ rest) := by
  obtain ⟨hc,hw⟩ := List.forall_mem_cons.mp hw
  have h := star_settles hw hu hstop ht
  rwa [Settles,← ways_seq_char hc (star p) (w ++ (u ++ rest))] at h

theorem head_star (hw : ∀ c ∈ w, p c = true) (hstop : ∀ d ∈ rest.head?, p d = false) :
    ((star p).ways (w ++ rest)).head? = some ([],rest) := by
  obtain ⟨before,hrests,-⟩ := rests_append hw rest
  rw [ways,hrests,rests_of_stop hstop,List.reverse_append]
  rfl

theorem head_plus (hne : w ≠ []) (hw : ∀ c ∈ w, p c = true) (hstop : ∀ d ∈ rest.head?, p d = false) :
    ((plus p).ways (w ++ rest)).head? = some ([],rest) := by
  obtain ⟨c,w,rfl⟩ := List.exists_cons_of_ne_nil hne
  obtain ⟨hc,hw⟩ := List.forall_mem_cons.mp hw
  rw [plus,List.cons_append,ways_seq_char hc]
  exact head_star hw hstop

/-- The characters of `w` in order, and then `r`. -/
def lits (w : List Char) (r : Regex) : Regex := w.foldr (fun c t => seq (lit c) t) r

theorem ways_lits (w s : List Char) (r : Regex) : (lits w r).ways (w ++ s) = r.ways s := by
  induction w with
  | nil => rfl
  | cons c w ih => exact (ways_seq_lit c _ _).trans ih

theorem head_lits (w : List Char) (h : (r.ways s).head? = some m) : ((lits w r).ways (w ++ s)).head? = some m := by
  rw [ways_lits]
  exact h

/-! ## Texts that do not match -/

theorem ways_seq_eq_nil (h : ∀ m ∈ r.ways s, t.ways m.2 = []) : (seq r t).ways s = [] := by
  apply List.flatMap_eq_nil_iff.mpr
  intro m hm
  rw [h m hm,List.map_nil]

theorem ways_seq_lit_eq_nil {v : List Char} (hv : c ∉ v) (ht : t.ways w = []) :
    (seq (lit c) t).ways (v ++ c :: w) = [] := by
  cases v with
  | nil => exact (ways_seq_lit c t w).trans ht
  | cons d v =>
    have hd : d ≠ c := fun hf => hv (hf ▸ List.mem_cons_self)
    exact ways_seq_char_of_ne (stops_cons (decide_eq_false hd) _) t

/-- No class of the expression has the character. -/
def Avoids (c : Char) : Regex → Prop
  | char p => p c = false
  | star p => p c = false
  | lazyStar p => p c = false
  | seq r t => r.Avoids c ∧ t.Avoids c
  | optional r => r.Avoids c
  | group r => r.Avoids c

theorem mem_rests_of_avoids (hc : p c = false) {v : List Char} (h : s ∈ rests p (v ++ c :: w)) :
    ∃ v', v' <:+ v ∧ s = v' ++ c :: w := by
  induction v with
  | nil =>
    rw [List.nil_append,rests_of_stop (stops_cons hc w)] at h
    exact ⟨[],List.suffix_rfl,List.mem_singleton.mp h⟩
  | cons d v ih =>
    rcases List.mem_cons.mp h with rfl | h
    · exact ⟨d :: v,List.suffix_rfl,rfl⟩
    · split at h
      case isFalse => cases h
      case isTrue =>
        obtain ⟨v',hv',hs⟩ := ih h
        exact ⟨v',hv'.trans (List.suffix_cons d v),hs⟩

/-- An expression does not get past a character it avoids. -/
theorem Avoids.stops {v : List Char} (h : r.Avoids c) (hm : m ∈ r.ways (v ++ c :: w)) :
    ∃ v', v' <:+ v ∧ m.2 = v' ++ c :: w := by
  induction r generalizing v m with
  | char p =>
    cases v with
    | nil =>
      rw [List.nil_append,ways,if_neg (by rw [show p c = false from h]; decide)] at hm
      cases hm
    | cons d v =>
      rw [List.cons_append,ways] at hm
      split at hm
      case isFalse => cases hm
      case isTrue =>
        cases List.mem_singleton.mp hm
        exact ⟨v,List.suffix_cons d v,rfl⟩
  | star p =>
    obtain ⟨s,hs,rfl⟩ := List.mem_map.mp hm
    exact mem_rests_of_avoids h (List.mem_reverse.mp hs)
  | lazyStar p =>
    obtain ⟨s,hs,rfl⟩ := List.mem_map.mp hm
    exact mem_rests_of_avoids h hs
  | seq r t ihr iht =>
    obtain ⟨m',hm',hm⟩ := List.mem_flatMap.mp hm
    obtain ⟨n,hn,rfl⟩ := List.mem_map.mp hm
    obtain ⟨v',hv',hleft⟩ := ihr h.1 hm'
    rw [hleft] at hn
    obtain ⟨v'',hv'',hrest⟩ := iht h.2 hn
    exact ⟨v'',hv''.trans hv',hrest⟩
  | optional r ih =>
    rcases List.mem_append.mp hm with hm | hm
    · exact ih h hm
    · cases List.mem_singleton.mp hm
      exact ⟨v,List.suffix_rfl,rfl⟩
  | group r ih =>
    obtain ⟨m',hm',rfl⟩ := List.mem_map.mp hm
    have hstops := ih h hm'
    exact hstops

/-- A repetition that is not empty takes the first character at least. -/
theorem plus_stops {b : Char} (hb : p b = false) (hm : m ∈ (plus p).ways (c :: (w ++ b :: rest))) :
    ∃ v, v <:+ w ∧ m.2 = v ++ b :: rest := by
  cases hc : p c with
  | true =>
    rw [plus,ways_seq_char hc] at hm
    exact Avoids.stops (r := star p) hb hm
  | false =>
    rw [plus,ways_seq_char_of_ne (stops_cons hc _)] at hm
    cases hm

/-- What comes after an expression begins within what that could have taken. -/
theorem Avoids.seq_eq_nil {v : List Char} (h : r.Avoids c) (ht : ∀ v', v' <:+ v → t.ways (v' ++ c :: w) = []) :
    (seq r t).ways (v ++ c :: w) = [] := by
  apply ways_seq_eq_nil
  intro m hm
  obtain ⟨v',hv',hleft⟩ := h.stops hm
  rw [hleft]
  exact ht v' hv'

/-- Every match has the character. -/
def Needs (c : Char) : Regex → Prop
  | char p => ∀ d, p d = true → d = c
  | seq r t => r.Needs c ∨ t.Needs c
  | group r => r.Needs c
  | _ => False

theorem Needs.ways_eq_nil (h : r.Needs c) (hc : c ∉ s) : r.ways s = [] := by
  induction r generalizing s with
  | char p =>
    cases s with
    | nil => rfl
    | cons d s =>
      rw [ways]
      apply if_neg
      intro hd
      exact hc (h d hd ▸ List.mem_cons_self)
  | star p => cases h
  | lazyStar p => cases h
  | seq r t ihr iht =>
    rcases h with h | h
    · rw [ways,ihr h hc,List.flatMap_nil]
    · apply ways_seq_eq_nil
      intro m hm
      exact iht h (fun hf => hc ((infix_ways hm).1.subset hf))
  | optional r ih => cases h
  | group r ih => rw [ways,ih h hc,List.map_nil]

theorem needs_lits (h : c ∈ w ∨ r.Needs c) : (lits w r).Needs c := by
  induction w with
  | nil => exact h.resolve_left List.not_mem_nil
  | cons d w ih =>
    rcases h with h | h
    · rcases List.mem_cons.mp h with rfl | h
      · exact Or.inl (fun d hd => of_decide_eq_true hd)
      · exact Or.inr (ih (Or.inl h))
    · exact Or.inr (ih (Or.inr h))

/-! ## Searching -/

section Ends
variable {α : Type} {a : α} {u v w x : List α}

theorem suffix_of_notMem (hv : a ∉ v) (h : a :: w <:+ v ++ u) : a :: w <:+ u := by
  induction v with
  | nil => exact h
  | cons b v ih =>
    rcases List.suffix_cons_iff.mp h with h | h
    · exact absurd (List.cons.inj h).1 (fun hf => hv (hf ▸ List.mem_cons_self))
    · exact ih (fun hf => hv (List.mem_cons_of_mem b hf)) h

theorem suffix_before (hu : a ∉ u) (h : a :: w <:+ v ++ u) : ∃ x, x <:+ v ∧ w = x ++ u := by
  induction v with
  | nil => exact absurd (h.subset List.mem_cons_self) hu
  | cons b v ih =>
    rcases List.suffix_cons_iff.mp h with h | h
    · exact ⟨v,List.suffix_cons b v,(List.cons.inj h).2⟩
    · obtain ⟨x,hx,hw⟩ := ih h
      exact ⟨x,hx.trans (List.suffix_cons b v),hw⟩

theorem suffix_cases (h : x <:+ v ++ a :: u) : (∃ w, w <:+ v ∧ x = w ++ a :: u) ∨ x <:+ u := by
  induction v with
  | nil => exact (List.suffix_cons_iff.mp h).imp (fun hx => ⟨[],List.suffix_rfl,hx⟩) id
  | cons b v ih =>
    rcases List.suffix_cons_iff.mp h with hx | h
    · exact Or.inl ⟨b :: v,List.suffix_rfl,hx⟩
    · exact (ih h).imp_left (fun ⟨w,hw,hx⟩ => ⟨w,hw.trans (List.suffix_cons b v),hx⟩)

end Ends

/-- The groups of `re.search`, given the matches at the front of a text. -/
def search (ways : List Char → List (List (List Char) × List Char)) (s : List Char) : Option (List (List Char)) :=
  s.tails.findSome? (fun rest => (ways rest).head?.map Prod.fst)

/-- The matches of the expression with `$` after it. -/
def waysToEnd (r : Regex) (s : List Char) : List (List (List Char) × List Char) :=
  (r.ways s).filter (fun m => m.2 = [] ∨ m.2 = ['\n'])

theorem head_waysToEnd {captures : List (List Char)} (h : (r.ways s).head? = some (captures,[])) :
    (r.waysToEnd s).head? = some (captures,[]) := by
  obtain ⟨after,hways⟩ := List.head?_eq_some_iff.mp h
  rw [waysToEnd,hways,List.filter_cons_of_pos (by simp)]
  rfl

theorem waysToEnd_eq_nil (h : r.ways s = []) : r.waysToEnd s = [] := by
  rw [waysToEnd,h,List.filter_nil]

theorem Avoids.waysToEnd_eq_nil (h : r.Avoids c) (hc : c ≠ '\n') (v w : List Char) : r.waysToEnd (v ++ c :: w) = [] := by
  apply List.filter_eq_nil_iff.mpr
  intro m hm hend
  obtain ⟨v',-,hleft⟩ := h.stops hm
  have hmem : c ∈ m.2 := by simp [hleft]
  rcases of_decide_eq_true hend with hend | hend
  · rw [hend] at hmem
    cases hmem
  · rw [hend] at hmem
    exact hc (List.mem_singleton.mp hmem)

variable {ways : List Char → List (List (List Char) × List Char)}

theorem search_of_head (h : (ways s).head? = some m) : search ways s = some m.1 := by
  cases s with
  | nil => simp [search,h]
  | cons c s => simp [search,List.tails,h]

theorem search_cons (h : ways (c :: s) = []) : search ways (c :: s) = search ways s := by
  simp [search,List.tails,h]

/-- What comes before the match, with no match that begins in it. -/
theorem search_skip (hw : ∀ u v, w = u ++ v → v ≠ [] → ways (v ++ s) = []) :
    search ways (w ++ s) = search ways s := by
  induction w with
  | nil => rfl
  | cons c w ih =>
    have hnone : ways (c :: w ++ s) = [] := hw [] (c :: w) rfl (List.cons_ne_nil c w)
    have hskip := ih (fun u v huv => hw (c :: u) v (congrArg (c :: ·) huv))
    exact (search_cons hnone).trans hskip

theorem search_eq_none (h : ∀ rest, rest <:+ s → ways rest = []) : search ways s = none := by
  apply List.findSome?_eq_none_iff.mpr
  intro rest hrest
  rw [h rest ((List.mem_tails rest s).mp hrest)]
  rfl

theorem search_of_needs (h : r.Needs c) (hc : c ∉ s) : search r.ways s = none :=
  search_eq_none (fun _ hrest => h.ways_eq_nil (fun hf => hc (hrest.subset hf)))

/-- What needs `c` is looked for once for each `c` of the text. -/
theorem search_of_needs_at (h : r.Needs c)
    (hs : ∀ v w, c :: w <:+ s → c ∉ v → r.ways (v ++ c :: w) = []) : search r.ways s = none := by
  apply search_eq_none
  intro rest hrest
  by_cases hc : c ∈ rest
  · obtain ⟨v,w,rfl,hv⟩ := List.eq_append_cons_of_mem hc
    exact hs v w ((List.suffix_append v (c :: w)).trans hrest) hv
  · exact h.ways_eq_nil hc

end First

end Regex
end ServerlessSched
