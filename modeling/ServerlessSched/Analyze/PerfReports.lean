import ServerlessSched.Analyze.TraceFormat

/-! # Reports of perf

What the scripts under `parse_perf` have in common: a report is stripped and split into lines,
a pattern is searched for in each of them, and a line in which it is not found is passed over.
The columns of a report are numbers with a point, between blanks whose number depends on the
widths.
-/
namespace ServerlessSched.Analyze
open PythonText Regex

/-- `[\d.]` -/
def number : Char → Bool := fun c => c.isDigit || c = '.'

/-- `float(s)` of digits and points. -/
def float (s : Text) : Option ℚ :=
  match s.splitOn '.' with
  | [whole] => if isDigits whole then some (intOfDigits whole : ℚ) else none
  | [whole,fraction] =>
    if isDigits (whole ++ fraction) then some (intOfDigits whole + intOfDigits fraction / 10 ^ fraction.length)
    else none
  | _ => none

/-- A line is passed over if the pattern is not found. A value that cannot be converted ends the
script. -/
def readLine {Row : Type} (pattern : Regex) (read : List Text → Option (Option Row)) (line : Text) :
    Option (Option Row) :=
  match search pattern.ways line with
  | some captures => read captures
  | none => some none

/-- The loop over the lines, with the rows that are kept. -/
def readRows {Row : Type} (pattern : Regex) (read : List Text → Option (Option Row)) :
    List Text → Option (List Row)
  | [] => some []
  | line :: rest =>
    (readLine pattern read line).bind (fun row => (readRows pattern read rest).map (fun rows => row.toList ++ rows))

section Reading
variable {Row : Type} {pattern : Regex} {read : List Text → Option (Option Row)} {line : Text}

theorem readLine_of_search {captures : List Text} (h : search pattern.ways line = some captures) :
    readLine pattern read line = read captures := by
  rw [readLine,h]

theorem readLine_of_none (h : search pattern.ways line = none) : readLine pattern read line = some none := by
  rw [readLine,h]

end Reading

theorem stops_both {p : Char → Bool} {s t : Text} (hs : ∀ d ∈ s.head?, p d = false) (ht : ∀ d ∈ t.head?, p d = false) :
    ∀ d ∈ (s ++ t).head?, p d = false := by
  cases s with
  | nil => exact ht
  | cons c s => exact hs

/-! ## Columns -/

/-- A number with a point. -/
structure Amount where
  whole : Numeral
  frac : Numeral
  frac_digits : 0 < frac.width ∧ frac.value < 10 ^ frac.width

namespace Amount
variable (a : Amount)

def text : Text := a.whole.text ++ '.' :: a.frac.text

def value : ℚ := a.whole.value + a.frac.value / 10 ^ a.frac.width

theorem text_number : ∀ c ∈ a.text, number c = true := by
  intro c hc
  have hwhole := (isDigits_iff.mp a.whole.isDigits).2
  have hfrac := (isDigits_iff.mp a.frac.isDigits).2
  rcases List.mem_append.mp hc with hc | hc
  · simp [number,hwhole c hc]
  · rcases List.mem_cons.mp hc with rfl | hc
    · rfl
    · simp [number,hfrac c hc]

theorem text_ne_nil : a.text ≠ [] := List.append_ne_nil_of_right_ne_nil _ (List.cons_ne_nil _ _)

theorem not_isSpace (rest : Text) : ∀ d ∈ (a.text ++ rest).head?, isSpace d = false := by
  rw [text,List.append_assoc]
  exact a.whole.not_isSpace _

theorem head {rest : Text} (hstop : ∀ d ∈ rest.head?, number d = false) :
    ((group (plus number)).ways (a.text ++ rest)).head? = some ([a.text],rest) :=
  head_group (head_plus a.text_ne_nil a.text_number hstop)

theorem floatOfDecimal_text : floatOfDecimal a.text = a.value := by
  have hwhole := (isDigits_iff.mp a.whole.isDigits).2
  have hfrac := (isDigits_iff.mp a.frac.isDigits).2
  have hlength : a.frac.text.length = a.frac.width := length_zeroPad a.frac_digits.1 a.frac_digits.2
  rw [text,floatOfDecimal_append hwhole hfrac,hlength,Numeral.text,Numeral.text,intOfDigits_zeroPad,intOfDigits_zeroPad]
  rfl

theorem float_text : float a.text = some a.value := by
  have hwhole := isDigits_iff.mp a.whole.isDigits
  have hfrac := isDigits_iff.mp a.frac.isDigits
  have hpoint : ∀ s : Text, (∀ c ∈ s, c.isDigit = true) → '.' ∉ s := by
    intro s hs hc
    cases hs '.' hc
  have hdigits : isDigits (a.whole.text ++ a.frac.text) = true := by
    refine isDigits_iff.mpr ⟨List.append_ne_nil_of_left_ne_nil hwhole.1 _,fun c hc => ?_⟩
    exact (List.mem_append.mp hc).elim (hwhole.2 c) (hfrac.2 c)
  have hlength : a.frac.text.length = a.frac.width := length_zeroPad a.frac_digits.1 a.frac_digits.2
  rw [float,text,List.splitOn_append_cons_self_of_not_mem (hpoint _ hwhole.2),
    List.splitOn_eq_singleton (hpoint _ hfrac.2)]
  dsimp only
  rw [if_pos hdigits,hlength,Numeral.text,Numeral.text,intOfDigits_zeroPad,intOfDigits_zeroPad]
  rfl

end Amount

theorem Numeral.intOfDigits_text (n : Numeral) : intOfDigits n.text = n.value := intOfDigits_zeroPad n.width n.value

/-- Blanks and tabs, or nothing. -/
structure Blanks where
  text : Text
  blank : ∀ c ∈ text, c = ' ' ∨ c = '\t'

namespace Blanks
variable (b : Blanks)

theorem solid : ∀ c ∈ b.text, isSpace c = true := by
  intro c hc
  rcases b.blank c hc with rfl | rfl <;> rfl

theorem head {rest : Text} (hstop : ∀ d ∈ rest.head?, isSpace d = false) :
    ((star isSpace).ways (b.text ++ rest)).head? = some ([],rest) := head_star b.solid hstop

theorem stops {p : Char → Bool} {rest : Text} (hblank : p ' ' = false) (htab : p '\t' = false)
    (hstop : ∀ d ∈ rest.head?, p d = false) : ∀ d ∈ (b.text ++ rest).head?, p d = false := by
  refine stops_both (fun d hd => ?_) hstop
  rcases b.blank d (List.mem_of_mem_head? hd) with rfl | rfl
  · exact hblank
  · exact htab

theorem notMem {c : Char} (hblank : c ≠ ' ') (htab : c ≠ '\t') : c ∉ b.text :=
  fun hc => (b.blank c hc).elim hblank htab

end Blanks

theorem Gap.notMem {c : Char} (g : Gap) (hblank : c ≠ ' ') (htab : c ≠ '\t') : c ∉ g.text :=
  fun hc => (g.blank c hc).elim hblank htab

theorem Numeral.notMem {c : Char} (n : Numeral) (h : c.isDigit = false) : c ∉ n.text := by
  intro hc
  rw [(isDigits_iff.mp n.isDigits).2 c hc] at h
  cases h

theorem Amount.notMem {c : Char} (a : Amount) (h : number c = false) : c ∉ a.text := by
  intro hc
  rw [a.text_number c hc] at h
  cases h

/-! ## Reports -/

/-- A line of a report: a row, or another line, which lacks a character that the pattern needs. -/
inductive ReportLine (pattern : Regex) (Row : Type)
  | row (r : Row)
  | other (text : Text) (line : '\n' ∉ text) (c : Char) (needed : pattern.Needs c) (lacks : c ∉ text)

namespace ReportLine
variable {pattern : Regex} {Row Entry : Type}

def text (line : Row → Text) : ReportLine pattern Row → Text
  | row r => line r
  | other text .. => text

def row? : ReportLine pattern Row → Option Row
  | row r => some r
  | other .. => none

theorem notMem_end {line : Row → Text} (h : ∀ r, '\n' ∉ line r) (l : ReportLine pattern Row) : '\n' ∉ l.text line := by
  cases l with
  | row r => exact h r
  | other text hline => exact hline

end ReportLine

/-- Where each row is read as its entry, the entries of a report are read in their order. -/
theorem readRows_report {pattern : Regex} {Row Entry : Type} {line : Row → Text}
    {read : List Text → Option (Option Entry)} {entry : Row → Option Entry}
    (h : ∀ r, readLine pattern read (line r) = some (entry r)) (ls : List (ReportLine pattern Row)) :
    readRows pattern read (ls.map (ReportLine.text line)) = some ((ls.filterMap ReportLine.row?).filterMap entry) := by
  induction ls with
  | nil => rfl
  | cons l ls ih =>
    cases l with
    | row r =>
      have hrow : ReportLine.row? (@ReportLine.row pattern _ r) = some r := rfl
      rw [List.map_cons,readRows,ReportLine.text,h,ih,List.filterMap_cons_some hrow]
      cases hentry : entry r with
      | none => simp [List.filterMap_cons_none hentry]
      | some e => simp [List.filterMap_cons_some hentry]
    | other text hline c hneeded hlacks =>
      have hother : ReportLine.row? (@ReportLine.other pattern Row text hline c hneeded hlacks) = none := rfl
      rw [List.map_cons,readRows,ReportLine.text,readLine_of_none (search_of_needs hneeded hlacks),
        List.filterMap_cons_none hother,ih]
      rfl

/-- The lines of a report, which `text.strip().split('\n')` takes apart. -/
structure Report (pattern : Regex) (Row : Type) (line : Row → Text) where
  before : Text
  lines : List (ReportLine pattern Row)
  after : Text
  before_blank : ∀ c ∈ before, isSpace c = true
  after_blank : ∀ c ∈ after, isSpace c = true
  lines_nonempty : lines ≠ []
  stripped : strip (join ['\n'] (lines.map (ReportLine.text line))) = join ['\n'] (lines.map (ReportLine.text line))

namespace Report
variable {pattern : Regex} {Row : Type} {line : Row → Text} (r : Report pattern Row line)

def body : Text := join ['\n'] (r.lines.map (ReportLine.text line))

def text : Text := r.before ++ (r.body ++ r.after)

def rows : List Row := r.lines.filterMap ReportLine.row?

theorem splitOn_strip (h : ∀ row, '\n' ∉ line row) :
    (strip r.text).splitOn '\n' = r.lines.map (ReportLine.text line) := by
  have hbody : strip r.text = r.body := strip_blanks r.before_blank r.after_blank r.stripped
  have hlines : ∀ l ∈ r.lines.map (ReportLine.text line), '\n' ∉ l := by
    intro l hl
    obtain ⟨l,-,rfl⟩ := List.mem_map.mp hl
    exact l.notMem_end h
  rw [hbody,body,join,List.splitOn_intercalate '\n' hlines]
  simpa using r.lines_nonempty

end Report
end ServerlessSched.Analyze
