import Mathlib.Algebra.Group.Nat.Defs
import Mathlib.Data.List.DropRight
import Mathlib.Data.List.Infix

/-! # Text as Python scripts take it apart

The methods of `str` that line-oriented scripts rest on, over lists of characters. Digits are
the ASCII digits. What a script writes as words in lines is what it finds again.
-/
namespace ServerlessSched.PythonText

abbrev Text := List Char

/-- `str.isspace` of one character. -/
def isSpace (c : Char) : Bool :=
  let n := c.toNat
  (9 ≤ n && n ≤ 13) || (28 ≤ n && n ≤ 32) || n = 0x85 || n = 0xA0 || n = 0x1680 ||
    (0x2000 ≤ n && n ≤ 0x200A) || n = 0x2028 || n = 0x2029 || n = 0x202F || n = 0x205F || n = 0x3000

def strip (s : Text) : Text := (s.dropWhile isSpace).rdropWhile isSpace

def rstrip (s : Text) : Text := s.rdropWhile isSpace

/-- `s.split()`. -/
def split (s : Text) : List Text := (s.splitOnP isSpace).filter (fun w => !w.isEmpty)

/-- `s.split(sep, 1)`. -/
def splitOnce (sep : Char) : Text → List Text
  | [] => [[]]
  | c :: cs =>
    if c = sep then [[],cs]
    else
      match splitOnce sep cs with
      | [] => [[c]]
      | first :: rest => (c :: first) :: rest

/-- `s.isdigit()`. -/
def isDigits (s : Text) : Bool := !s.isEmpty && s.all Char.isDigit

/-- `int(s)` of a text of digits. -/
def intOfDigits (s : Text) : ℕ := Nat.ofDigitChars 10 s 0

/-- Digits with single underscores between them. -/
def underscored (s : Text) : Option ℕ :=
  if (s.splitOn '_').all isDigits then some (intOfDigits (s.splitOn '_').flatten) else none

/-- `int(s)`, with blanks around the number and a sign. -/
def int (s : Text) : Option ℤ :=
  match strip s with
  | '-' :: t => (underscored t).map (fun n : ℕ => -(n : ℤ))
  | '+' :: t => (underscored t).map (fun n : ℕ => (n : ℤ))
  | t => (underscored t).map (fun n : ℕ => (n : ℤ))

/-- `str(n)`. -/
def str (n : ℕ) : Text := Nat.toDigits 10 n

/-- `str(n)` of a number that may be negative. -/
def strInt : ℤ → Text
  | .ofNat n => str n
  | .negSucc n => '-' :: str (n + 1)

/-- `n` with zeros before it, up to `width` digits. -/
def zeroPad (width n : ℕ) : Text := List.replicate (width - (str n).length) '0' ++ str n

/-- `n` units of `10 ^ -digits`, as `printf` writes them. -/
def fixedPoint (digits n : ℕ) : Text := str (n / 10 ^ digits) ++ '.' :: zeroPad digits (n % 10 ^ digits)

/-- `s` with blanks before it, up to `width` characters. -/
def padLeft (width : ℕ) (s : Text) : Text := List.replicate (width - s.length) ' ' ++ s

def join (sep : Text) (parts : List Text) : Text := sep.intercalate parts

/-- `\r\n` and `\r` are read as `\n`. -/
def universalNewlines : Text → Text
  | '\r' :: '\n' :: cs => '\n' :: universalNewlines cs
  | '\r' :: cs => '\n' :: universalNewlines cs
  | c :: cs => c :: universalNewlines cs
  | [] => []

/-- The lines of an open text file, without their ends. The last end need not be there. -/
def lines (s : Text) : List Text :=
  let parts := (universalNewlines s).splitOn '\n'
  if parts.getLast? = some [] then parts.dropLast else parts

/-- `sub in s`. -/
def contains (sub s : Text) : Bool := decide (sub <:+: s)

/-- `s.startswith(start)`. -/
def startsWith (start s : Text) : Bool := start.isPrefixOf s

/-! ## Blanks -/

theorem dropWhile_strip (s : Text) : (strip s).dropWhile isSpace = strip s := by
  have hfront : strip s <+: s.dropWhile isSpace := List.rdropWhile_prefix isSpace _
  cases hs : strip s with
  | nil => rfl
  | cons c cs =>
    rw [hs] at hfront
    obtain ⟨rest,hrest⟩ := hfront
    have hc := List.head?_dropWhile_not isSpace s
    rw [← hrest] at hc
    exact List.dropWhile_cons_of_neg (by simpa using hc)

theorem rstrip_strip (s : Text) : rstrip (strip s) = strip s := List.rdropWhile_idempotent isSpace _

theorem strip_strip (s : Text) : strip (strip s) = strip s := by
  rw [strip,dropWhile_strip]
  exact rstrip_strip s

theorem strip_cons {c : Char} (h : isSpace c = true) (s : Text) : strip (c :: s) = strip s := by
  simp [strip,h]

theorem strip_subset (s : Text) : strip s ⊆ s := fun _ hc =>
  (List.dropWhile_suffix isSpace).subset ((List.rdropWhile_prefix isSpace _).subset hc)

/-- Text that `strip` leaves alone does not begin with a blank. -/
theorem not_isSpace_head {s : Text} (h : strip s = s) : ∀ c ∈ s.head?, isSpace c = false := by
  intro c hc
  have hdrop := dropWhile_strip s
  rw [h] at hdrop
  have hfirst := List.head?_dropWhile_not isSpace s
  rw [hdrop,hc] at hfirst
  simpa using hfirst

/-- Blanks around a text are stripped. -/
theorem strip_blanks {before s after : Text} (hbefore : ∀ c ∈ before, isSpace c = true)
    (hafter : ∀ c ∈ after, isSpace c = true) (h : strip s = s) : strip (before ++ (s ++ after)) = s := by
  have hlast : s.rdropWhile isSpace = s := h ▸ rstrip_strip s
  have hback : ∀ t : Text, t.rdropWhile isSpace = t → (t ++ after).rdropWhile isSpace = t := by
    intro t ht
    rw [List.rdropWhile,List.reverse_append,List.dropWhile_append_of_pos (by simpa using hafter)]
    exact ht
  rw [strip,List.dropWhile_append_of_pos hbefore]
  cases s with
  | nil =>
    rw [List.nil_append,List.dropWhile_eq_nil_iff.mpr hafter]
    rfl
  | cons c s =>
    have hc : isSpace c = false := not_isSpace_head h c rfl
    rw [List.cons_append,List.dropWhile_cons_of_neg (by simp [hc]),← List.cons_append]
    exact hback _ hlast

theorem dropWhile_append_cons {c : Char} (hc : isSpace c = false) (front back : Text) :
    (front ++ c :: back).dropWhile isSpace = front.dropWhile isSpace ++ c :: back := by
  induction front with
  | nil => simp [hc]
  | cons d front ih =>
    by_cases hd : isSpace d = true
    · simpa [hd] using ih
    · simp [hd]

theorem rstrip_of_suffix {s t : Text} (hsuffix : t <:+ s) (hne : t ≠ []) (h : strip t = t) : rstrip s = s := by
  obtain ⟨front,rfl⟩ := hsuffix
  have hr : t.rdropWhile isSpace = t := h ▸ rstrip_strip t
  rw [rstrip,List.rdropWhile_eq_self_iff]
  intro _
  rw [List.getLast_append_of_ne_nil _ hne]
  exact (List.rdropWhile_eq_self_iff.mp hr) hne

/-! ## Text within a line -/

/-- No character ends a line. -/
def Inline (s : Text) : Prop := ∀ c ∈ s, c ≠ '\n' ∧ c ≠ '\r'

theorem Inline.notMem_end {s : Text} (hs : Inline s) : '\n' ∉ s := fun h => (hs _ h).1 rfl

theorem Inline.of_subset {s t : Text} (ht : Inline t) (h : s ⊆ t) : Inline s := fun c hc => ht c (h hc)

theorem inline_of_notMem {s : Text} (hend : '\n' ∉ s) (hreturn : '\r' ∉ s) : Inline s := by
  intro c hc
  exact ⟨fun h => hend (h ▸ hc),fun h => hreturn (h ▸ hc)⟩

theorem Inline.cons {s : Text} (hs : Inline s) {c : Char} (hc : c ≠ '\n' ∧ c ≠ '\r') : Inline (c :: s) :=
  List.forall_mem_cons.mpr ⟨hc,hs⟩

theorem Inline.append {s t : Text} (hs : Inline s) (ht : Inline t) : Inline (s ++ t) :=
  List.forall_mem_append.mpr ⟨hs,ht⟩

/-! ## Words -/

structure IsWord (w : Text) : Prop where
  nonempty : w ≠ []
  solid : ∀ c ∈ w, isSpace c = false

variable {w v rest : Text}

theorem isWord_iff : IsWord w ↔ (!w.isEmpty && w.all (fun c => !isSpace c)) = true := by
  constructor
  · intro hw
    simp [hw.nonempty,List.all_eq_true.mpr (fun c hc => (Bool.not_eq_true' _).mpr (hw.solid c hc))]
  · intro h
    obtain ⟨hne,hsolid⟩ := (Bool.and_eq_true _ _).mp h
    exact ⟨by simpa using hne,fun c hc => (Bool.not_eq_true' _).mp (List.all_eq_true.mp hsolid c hc)⟩

instance (w : Text) : Decidable (IsWord w) := decidable_of_iff _ isWord_iff.symm

theorem IsWord.inline (hw : IsWord w) : Inline w := by
  intro c hc
  constructor
  · rintro rfl
    cases hw.solid '\n' hc
  · rintro rfl
    cases hw.solid '\r' hc

theorem IsWord.strip_append (hw : IsWord w) (hv : IsWord v) (mid : Text) :
    strip (w ++ mid ++ v) = w ++ mid ++ v := by
  obtain ⟨c,w',rfl⟩ := List.exists_cons_of_ne_nil hw.nonempty
  obtain ⟨v',d,rfl⟩ := (List.eq_nil_or_concat' v).resolve_left hv.nonempty
  have hc : isSpace c = false := hw.solid c List.mem_cons_self
  have hd : isSpace d = false := hv.solid d (by simp)
  have hfront : ((c :: w') ++ mid ++ (v' ++ [d])).dropWhile isSpace = (c :: w') ++ mid ++ (v' ++ [d]) := by
    simp [hc]
  rw [strip,hfront,← List.append_assoc,List.rdropWhile_concat_neg]
  simp [hd]

theorem IsWord.strip (hw : IsWord w) : PythonText.strip w = w := by
  obtain ⟨c,w',rfl⟩ := List.exists_cons_of_ne_nil hw.nonempty
  have hc : isSpace c = false := hw.solid c List.mem_cons_self
  have hfront : (c :: w').dropWhile isSpace = c :: w' := by simp [hc]
  rw [PythonText.strip,hfront,List.rdropWhile_eq_self_iff]
  intro h
  simp [hw.solid _ (List.getLast_mem h)]

theorem IsWord.split (hw : IsWord w) : PythonText.split w = [w] := by
  rw [PythonText.split,List.splitOnP_eq_singleton hw.solid]
  simp [hw.nonempty]

theorem IsWord.split_append (hw : IsWord w) (rest : Text) :
    PythonText.split (w ++ ' ' :: rest) = w :: PythonText.split rest := by
  rw [PythonText.split,List.splitOnP_append_cons_of_forall_mem hw.solid ' ' rfl]
  simp [hw.nonempty,PythonText.split]

theorem splitOnce_append {sep : Char} (h : sep ∉ w) : splitOnce sep (w ++ sep :: rest) = [w,rest] := by
  induction w with
  | nil => simp [splitOnce]
  | cons c w ih =>
    have hc : c ≠ sep := fun hf => h (hf ▸ List.mem_cons_self)
    rw [List.cons_append,splitOnce,if_neg hc,ih (fun hf => h (List.mem_cons_of_mem c hf))]

theorem isSpace_of_isDigit {c : Char} (h : c.isDigit = true) : isSpace c = false := by
  have hrange : 48 ≤ c.toNat ∧ c.toNat ≤ 57 := by
    simpa [Char.isDigit,UInt32.le_iff_toNat_le] using h
  simp only [isSpace,Bool.or_eq_false_iff,Bool.and_eq_false_iff,decide_eq_false_iff_not]
  omega

/-! ## Numerals -/

theorem str_isDigit (n : ℕ) : ∀ c ∈ str n, c.isDigit = true :=
  fun _ hc => Nat.isDigit_of_mem_toDigits (by decide) (by decide) hc

theorem notMem_str {c : Char} (h : c.isDigit = false) (n : ℕ) : c ∉ str n := by
  intro hc
  rw [str_isDigit n c hc] at h
  cases h

theorem str_ne_nil (n : ℕ) : str n ≠ [] := Nat.toDigits_ne_nil

theorem isWord_str (n : ℕ) : IsWord (str n) :=
  ⟨str_ne_nil n,fun c hc => isSpace_of_isDigit (str_isDigit n c hc)⟩

theorem isDigits_iff {s : Text} : isDigits s = true ↔ s ≠ [] ∧ ∀ c ∈ s, c.isDigit = true := by
  simp [isDigits]

@[simp] theorem isDigits_str (n : ℕ) : isDigits (str n) = true := by
  simp [isDigits,str_ne_nil,List.all_eq_true.mpr (str_isDigit n)]

@[simp] theorem intOfDigits_str (n : ℕ) : intOfDigits (str n) = n := Nat.ofDigitChars_ten_toDigits

/-- A number is read with a blank before it. -/
theorem int_str (n : ℕ) : int (' ' :: str n) = some (n : ℤ) := by
  have hstrip : strip (' ' :: str n) = str n := (strip_cons rfl _).trans (isWord_str n).strip
  have hunder : underscored (str n) = some n := by
    have hsplit : (str n).splitOn '_' = [str n] :=
      List.splitOn_eq_singleton (fun hf => by cases str_isDigit n '_' hf)
    simp [underscored,hsplit]
  have hminus : ∀ t, str n ≠ '-' :: t := by
    intro t ht
    cases str_isDigit n '-' (ht ▸ List.mem_cons_self)
  have hplus : ∀ t, str n ≠ '+' :: t := by
    intro t ht
    cases str_isDigit n '+' (ht ▸ List.mem_cons_self)
  rw [int,hstrip]
  split
  case h_1 t ht => exact absurd ht (hminus t)
  case h_2 t ht => exact absurd ht (hplus t)
  case h_3 => simp [hunder]

theorem zeroPad_isDigit (width n : ℕ) : ∀ c ∈ zeroPad width n, c.isDigit = true := by
  intro c hc
  rcases List.mem_append.mp hc with hc | hc
  · rw [List.eq_of_mem_replicate hc]
    rfl
  · exact str_isDigit n c hc

@[simp] theorem isDigits_zeroPad (width n : ℕ) : isDigits (zeroPad width n) = true :=
  isDigits_iff.mpr ⟨List.append_ne_nil_of_right_ne_nil _ (str_ne_nil n),zeroPad_isDigit width n⟩

@[simp] theorem intOfDigits_zeroPad (width n : ℕ) : intOfDigits (zeroPad width n) = n := by
  rw [intOfDigits,zeroPad,Nat.ofDigitChars_append,Nat.ofDigitChars_replicate_zero,Nat.mul_zero]
  exact intOfDigits_str n

theorem notMem_fixedPoint {c : Char} (h : c.isDigit = false) (hpoint : c ≠ '.') (digits n : ℕ) :
    c ∉ fixedPoint digits n := by
  intro hc
  rcases List.mem_append.mp hc with hc | hc
  · exact notMem_str h _ hc
  · rw [zeroPad_isDigit _ _ c ((List.mem_cons.mp hc).resolve_left hpoint)] at h
    cases h

theorem notMem_padLeft {c : Char} {s : Text} (hblank : c ≠ ' ') (h : c ∉ s) (width : ℕ) : c ∉ padLeft width s := by
  intro hc
  rcases List.mem_append.mp hc with hc | hc
  · exact hblank (List.eq_of_mem_replicate hc)
  · exact h hc

theorem length_zeroPad {width n : ℕ} (hwidth : 0 < width) (h : n < 10 ^ width) : (zeroPad width n).length = width := by
  have hle : (str n).length ≤ width := (Nat.length_toDigits_le_iff (by decide) hwidth).mpr h
  rw [zeroPad,List.length_append,List.length_replicate]
  omega

theorem str_injective : Function.Injective str := by
  intro m n h
  have hvalue := congrArg intOfDigits h
  simpa using hvalue

/-! ## Lines -/

theorem universalNewlines_eq_self {s : Text} (h : '\r' ∉ s) : universalNewlines s = s := by
  induction s with
  | nil => rfl
  | cons c cs ih =>
    have hc : c ≠ '\r' := fun hf => h (hf ▸ List.mem_cons_self)
    have htail := ih (fun hf => h (List.mem_cons_of_mem c hf))
    rw [universalNewlines,htail]
    · exact fun _ hf => absurd hf hc
    · exact hc

theorem join_append_sep {sep : Text} {ls : List Text} (hne : ls ≠ []) :
    join sep ls ++ sep = join sep (ls ++ [[]]) := by
  induction ls with
  | nil => exact absurd rfl hne
  | cons l ls ih =>
    cases ls with
    | nil => simp [join,List.intercalate]
    | cons k ls =>
      have htail := ih (List.cons_ne_nil k ls)
      simp only [join,List.cons_append,List.intercalate_cons_cons,List.append_assoc] at htail ⊢
      rw [htail]

theorem infix_join {sep l : Text} {ls : List Text} (h : l ∈ ls) : l <:+: join sep ls := by
  induction ls with
  | nil => cases h
  | cons k ls ih =>
    cases ls with
    | nil =>
      cases List.mem_singleton.mp h
      simp [join,List.intercalate_singleton]
    | cons k' ls =>
      rw [join,List.intercalate_cons_cons,List.append_assoc]
      rcases List.mem_cons.mp h with rfl | h
      · exact (List.prefix_append l _).isInfix
      · exact (ih h).trans ((List.suffix_append sep _).trans (List.suffix_append k _)).isInfix

theorem suffix_join {sep : Text} (ls : List Text) (last : Text) : last <:+ join sep (ls ++ [last]) := by
  induction ls with
  | nil => simp [join,List.intercalate_singleton]
  | cons l ls ih =>
    obtain ⟨k,ks,hks⟩ := List.exists_cons_of_ne_nil (List.append_ne_nil_of_right_ne_nil ls (List.cons_ne_nil last []))
    rw [List.cons_append,hks,join,List.intercalate_cons_cons,← join,← hks]
    exact ih.trans (List.suffix_append _ _)

theorem universalNewlines_return (s : Text) : '\r' ∉ universalNewlines s := by
  fun_induction universalNewlines s with
  | case1 cs ih => simpa using ih
  | case2 cs hcs ih => simpa using ih
  | case3 c cs hcr hc ih => exact fun h => (List.mem_cons.mp h).elim (fun hf => hc hf.symm) ih
  | case4 => simp

theorem notMem_of_mem_splitOn {sep : Char} {s piece : Text} (h : piece ∈ s.splitOn sep) : sep ∉ piece := by
  induction s generalizing piece with
  | nil => simp [List.mem_singleton.mp h]
  | cons c s ih =>
    rw [List.splitOn_cons_eq_if_modifyHead] at h
    split at h
    case isTrue =>
      rcases List.mem_cons.mp h with rfl | h
      · exact List.not_mem_nil
      · exact ih h
    case isFalse hc =>
      obtain ⟨first,others,hsplit⟩ := List.exists_cons_of_ne_nil (List.splitOn_ne_nil sep s)
      rw [hsplit] at ih h
      rcases List.mem_cons.mp h with rfl | h
      · have hfirst : sep ∉ first := ih List.mem_cons_self
        have hne : sep ≠ c := fun hf => hc (by simp [hf])
        simp [hne,hfirst]
      · exact ih (List.mem_cons_of_mem first h)

theorem inline_of_mem_lines {s l : Text} (h : l ∈ lines s) : Inline l := by
  have hpiece : l ∈ (universalNewlines s).splitOn '\n' := by
    unfold lines at h
    dsimp only at h
    split at h
    · exact List.mem_of_mem_dropLast h
    · exact h
  have hjoin : join ['\n'] ((universalNewlines s).splitOn '\n') = universalNewlines s :=
    List.intercalate_splitOn '\n'
  intro c hc
  constructor
  · rintro rfl
    exact notMem_of_mem_splitOn hpiece hc
  · rintro rfl
    apply universalNewlines_return s
    rw [← hjoin]
    exact (infix_join hpiece).subset hc

theorem flatMap_ends {ls : List Text} (hne : ls ≠ []) :
    ls.flatMap (fun l => l ++ ['\n']) = join ['\n'] ls ++ ['\n'] := by
  induction ls with
  | nil => exact absurd rfl hne
  | cons l ls ih =>
    cases ls with
    | nil => simp [join,List.intercalate_singleton]
    | cons k ls =>
      rw [List.flatMap_cons,ih (List.cons_ne_nil k ls)]
      simp [join,List.intercalate_cons_cons]

theorem splitOn_ends {ls : List Text} (h : ∀ l ∈ ls, '\n' ∉ l) :
    (ls.flatMap (fun l => l ++ ['\n'])).splitOn '\n' = ls ++ [[]] := by
  by_cases hne : ls = []
  · subst hne
    rfl
  · rw [flatMap_ends hne,join_append_sep hne,join,List.splitOn_intercalate]
    · intro l hl hend
      rcases List.mem_append.mp hl with hl | hl
      · exact h l hl hend
      · simp [List.mem_singleton.mp hl] at hend
    · simp

theorem universalNewlines_ends {ls : List Text} (h : ∀ l ∈ ls, Inline l) :
    universalNewlines (ls.flatMap (fun l => l ++ ['\n'])) = ls.flatMap (fun l => l ++ ['\n']) := by
  apply universalNewlines_eq_self
  intro hr
  obtain ⟨l,hl,hc⟩ := List.mem_flatMap.mp hr
  rcases List.mem_append.mp hc with hc | hc
  · exact (h l hl _ hc).2 rfl
  · cases List.mem_singleton.mp hc

/-- The lines of a file that is stripped as a whole. -/
theorem splitOn_strip_ends {c : Char} {front back w : Text} {ls : List Text} {last : Text}
    (h : ∀ l ∈ (front ++ c :: back) :: (ls ++ [last]), '\n' ∉ l) (hc : isSpace c = false) (hw : IsWord w)
    (hsuffix : w <:+ last) :
    (strip (((front ++ c :: back) :: (ls ++ [last])).flatMap (fun l => l ++ ['\n']))).splitOn '\n' =
      (front.dropWhile isSpace ++ c :: back) :: (ls ++ [last]) := by
  have hfront : (((front ++ c :: back) :: (ls ++ [last])).flatMap (fun l => l ++ ['\n'])).dropWhile isSpace =
      join ['\n'] ((front.dropWhile isSpace ++ c :: back) :: (ls ++ [last])) ++ ['\n'] := by
    have hdrop := dropWhile_append_cons hc front (back ++ '\n' :: (ls ++ [last]).flatMap (fun l => l ++ ['\n']))
    rw [← flatMap_ends (List.cons_ne_nil _ _)]
    simpa using hdrop
  have hback : rstrip (join ['\n'] ((front.dropWhile isSpace ++ c :: back) :: (ls ++ [last]))) =
      join ['\n'] ((front.dropWhile isSpace ++ c :: back) :: (ls ++ [last])) :=
    rstrip_of_suffix (hsuffix.trans (suffix_join (_ :: ls) last)) hw.nonempty hw.strip
  have hfirst : front.dropWhile isSpace ++ c :: back <:+ front ++ c :: back :=
    dropWhile_append_cons hc front back ▸ List.dropWhile_suffix isSpace
  obtain ⟨hstart,hrest⟩ := List.forall_mem_cons.mp h
  rw [strip,hfront,List.rdropWhile_concat_pos _ _ _ rfl]
  exact (congrArg _ hback).trans (List.splitOn_intercalate _
    (List.forall_mem_cons.mpr ⟨fun hend => hstart (hfirst.subset hend),hrest⟩) (List.cons_ne_nil _ _))

/-- A file is read as the lines that were written to it, each with its end. -/
theorem lines_written {ls : List Text} (h : ∀ l ∈ ls, Inline l) :
    lines (ls.flatMap (fun l => l ++ ['\n'])) = ls := by
  rw [lines,universalNewlines_ends h,splitOn_ends (fun l hl => (h l hl).notMem_end)]
  simp

theorem lines_join {ls : List Text} (hne : ls ≠ []) (h : ∀ l ∈ ls, Inline l) :
    lines (join ['\n'] ls ++ ['\n']) = ls := by
  rw [← flatMap_ends hne]
  exact lines_written h

end ServerlessSched.PythonText
