import ServerlessSched.Analyze.Trace

/-! # Lines as the trace prints them

`<comm>-<pid>  [<cpu>]<flags>  <sec>.<frac>: <event>: <details>`, with flags in the versions of
`trace-cmd` that have them. The pattern of the scripts could split such a line in several ways;
the one it settles on is the one that was printed.
-/
namespace ServerlessSched.Analyze
open PythonText Regex

/-- A number, with zeros before it up to `width` digits. -/
structure Numeral where
  value : ℕ
  width : ℕ

def Numeral.text (n : Numeral) : Text := zeroPad n.width n.value

/-- Blanks and tabs. -/
structure Gap where
  text : Text
  nonempty : text ≠ []
  blank : ∀ c ∈ text, c = ' ' ∨ c = '\t'

structure PrintedEvent where
  comm : Text
  pid : Numeral
  toCpu : Gap
  cpu : Numeral
  flags : Text
  toTime : Gap
  sec : Numeral
  frac : Numeral
  toEvent : Gap
  eventType : Text
  toDetails : Gap
  details : Text
  comm_nonempty : comm ≠ []
  comm_bracket : '[' ∉ comm
  comm_line : '\n' ∉ comm
  flags_solid : ∀ c ∈ flags, isSpace c = false
  frac_digits : 0 < frac.width ∧ frac.value < 10 ^ frac.width
  event_word : IsWord eventType
  details_nonempty : details ≠ []
  details_line : '\n' ∉ details
  details_stripped : strip details = details

namespace PrintedEvent
variable (p : PrintedEvent)

def time : Text := p.sec.text ++ '.' :: p.frac.text

def fromEvent : Text := p.eventType ++ ':' :: (p.toDetails.text ++ p.details)

def fromTime : Text := p.toTime.text ++ (p.time ++ ':' :: (p.toEvent.text ++ p.fromEvent))

def fromPid : Text :=
  '-' :: (p.pid.text ++ (p.toCpu.text ++ '[' :: (p.cpu.text ++ ']' :: (p.flags ++ p.fromTime))))

def line : Text := p.comm ++ p.fromPid

def event : TraceEvent :=
  ⟨p.comm,p.pid.value,p.cpu.value,p.sec.value + p.frac.value / 10 ^ p.frac.width,p.eventType,p.details,p.line⟩

end PrintedEvent

/-! ## The parts of the pattern -/

def detailsPattern : Regex := seq (plus isSpace) (group (star dot))

def eventPattern : Regex := seq (group (plus notSpace)) (seq (lit ':') detailsPattern)

def timePattern : Regex :=
  seq (plus isSpace) (seq (group decimal) (seq (lit ':') (seq (plus isSpace) eventPattern)))

def pidPattern : Regex :=
  seq (lit '-') <| seq (group (plus Char.isDigit)) <| seq (plus isSpace) <| seq (lit '[') <|
    seq (group (plus Char.isDigit)) <| seq (lit ']') <| seq (optional (lazyStar dot)) timePattern

theorem tracePattern_eq : tracePattern = seq (group (lazyPlus dot)) pidPattern := rfl

/-! ## What each part takes -/

section Parts
variable {rest : Text}

theorem Gap.solid (g : Gap) : ∀ c ∈ g.text, isSpace c = true := by
  intro c hc
  rcases g.blank c hc with rfl | rfl <;> rfl

theorem Gap.stops (g : Gap) {p : Char → Bool} (hblank : p ' ' = false) (htab : p '\t' = false) (rest : Text) :
    ∀ d ∈ (g.text ++ rest).head?, p d = false := by
  apply stops_append g.nonempty
  intro c hc
  rcases g.blank c hc with rfl | rfl
  · exact hblank
  · exact htab

theorem Gap.head (g : Gap) (hstop : ∀ d ∈ rest.head?, isSpace d = false) :
    ((plus isSpace).ways (g.text ++ rest)).head? = some ([],rest) := head_plus g.nonempty g.solid hstop

theorem Numeral.isDigits (n : Numeral) : PythonText.isDigits n.text = true := isDigits_zeroPad n.width n.value

theorem Numeral.head (n : Numeral) (hstop : ∀ d ∈ rest.head?, d.isDigit = false) :
    ((group (plus Char.isDigit)).ways (n.text ++ rest)).head? = some ([n.text],rest) :=
  head_group (head_digits n.isDigits hstop)

theorem Numeral.not_isSpace (n : Numeral) (rest : Text) : ∀ d ∈ (n.text ++ rest).head?, isSpace d = false := by
  obtain ⟨hne,hdigits⟩ := isDigits_iff.mp n.isDigits
  exact stops_append hne (fun c hc => isSpace_of_isDigit (hdigits c hc)) rest

end Parts

namespace PrintedEvent
variable (p : PrintedEvent)

theorem head_details : (detailsPattern.ways (p.toDetails.text ++ p.details)).head? = some ([p.details],[]) := by
  have hdot : ∀ c ∈ p.details, dot c = true := by
    intro c hc
    exact decide_eq_true (fun hf => p.details_line (hf ▸ hc))
  have hend : ∀ d ∈ ([] : Text).head?, dot d = false := fun d hd => by cases hd
  have hgroup := head_group (head_star hdot hend)
  rw [List.append_nil] at hgroup
  exact head_seq (p.toDetails.head (not_isSpace_head p.details_stripped)) hgroup

/-- The event takes its colon along at first and gives it back. -/
theorem head_event : (eventPattern.ways p.fromEvent).head? = some ([p.eventType,p.details],[]) := by
  obtain ⟨c,w,hevent⟩ := List.exists_cons_of_ne_nil p.event_word.nonempty
  have hsolid : ∀ d ∈ c :: w, notSpace d = true := by
    intro d hd
    rw [notSpace,p.event_word.solid d (hevent ▸ hd)]
    rfl
  have hback : ∀ v v', [':'] = v ++ v' → v ≠ [] →
      (seq (lit ':') detailsPattern).ways (v' ++ (p.toDetails.text ++ p.details)) = [] := by
    intro v v' hv hne
    obtain rfl : v' = [] := by
      rcases List.cons_eq_append_iff.mp hv with ⟨rfl,-⟩ | ⟨v'',-,hv'⟩
      · exact absurd rfl hne
      · exact (List.append_eq_nil_iff.mp hv'.symm).2
    exact ways_seq_char_of_ne (p.toDetails.stops rfl rfl _) _
  have hsettles := (plus_settles hsolid (List.forall_mem_singleton.mpr rfl) (p.toDetails.stops rfl rfl p.details) hback).group
  rw [← hevent] at hsettles
  have hcolon : ((seq (lit ':') detailsPattern).ways (':' :: (p.toDetails.text ++ p.details))).head? =
      some ([p.details],[]) := head_seq_lit ':' p.head_details
  exact hsettles.head_seq hcolon

theorem fromEvent_not_isSpace : ∀ d ∈ p.fromEvent.head?, isSpace d = false :=
  stops_append p.event_word.nonempty p.event_word.solid _

theorem head_time : (timePattern.ways p.fromTime).head? = some ([p.time,p.eventType,p.details],[]) := by
  have htime : ∀ d ∈ (p.time ++ ':' :: (p.toEvent.text ++ p.fromEvent)).head?, isSpace d = false := by
    rw [time,List.append_assoc]
    exact p.sec.not_isSpace _
  have hcolon : ∀ d ∈ (':' :: (p.toEvent.text ++ p.fromEvent)).head?, d.isDigit = false := stops_cons rfl _
  have hevent := head_seq (p.toEvent.head p.fromEvent_not_isSpace) p.head_event
  have hdecimal := head_group (head_decimal p.sec.isDigits p.frac.isDigits hcolon)
  exact head_seq (p.toTime.head htime) (head_seq hdecimal (head_seq_lit ':' hevent))

/-- Flags are skipped as far as the blanks before the time, since there are none within them. -/
theorem flags_settle :
    (optional (lazyStar dot)).Settles timePattern (p.flags ++ p.fromTime) ([],p.fromTime) := by
  have hdot : ∀ c ∈ p.flags, dot c = true := by
    intro c hc
    apply decide_eq_true
    rintro rfl
    cases p.flags_solid '\n' hc
  apply (lazyStar_settles hdot ?_).optional
  intro u v huv hv
  apply ways_seq_eq_nil
  have hsolid : ∀ c ∈ v, isSpace c = false := by
    intro c hc
    exact p.flags_solid c (huv ▸ List.mem_append_right u hc)
  rw [plus,ways_seq_char_of_ne (stops_append hv hsolid p.fromTime)]
  intro m hm
  cases hm

/-- A number and blanks end at the dash that is printed, and no bracket comes before it. -/
theorem pidPattern_rejects {v : Text} (hne : v ≠ []) (hbracket : '[' ∉ v) (rest : Text) :
    pidPattern.ways (v ++ '-' :: rest) = [] := by
  obtain ⟨d,v,rfl⟩ := List.exists_cons_of_ne_nil hne
  by_cases hd : d = '-'
  · subst hd
    rw [pidPattern,List.cons_append,ways_seq_lit]
    apply ways_seq_eq_nil
    intro m hm
    obtain ⟨v₁,hv₁,hleft⟩ := Avoids.stops (r := group (plus Char.isDigit)) (c := '-') ⟨rfl,rfl⟩ hm
    rw [hleft]
    apply ways_seq_eq_nil
    intro n hn
    obtain ⟨v₂,hv₂,hleft⟩ := Avoids.stops (r := plus isSpace) (c := '-') ⟨rfl,rfl⟩ hn
    rw [hleft]
    apply ways_seq_char_of_ne
    intro e he
    apply decide_eq_false
    rintro rfl
    cases v₂ with
    | nil => cases he
    | cons e v₂ =>
      cases he
      exact hbracket (List.mem_cons_of_mem _ ((hv₂.trans hv₁).subset List.mem_cons_self))
  · apply ways_seq_char_of_ne
    intro e he
    cases he
    exact decide_eq_false hd

theorem comm_settles : (lazyPlus dot).Settles pidPattern p.line ([],p.fromPid) := by
  obtain ⟨c,w,hcomm⟩ := List.exists_cons_of_ne_nil p.comm_nonempty
  have hdot : ∀ d ∈ c :: w, dot d = true := by
    intro d hd
    exact decide_eq_true (fun hf => p.comm_line (hcomm ▸ hf ▸ hd))
  rw [line,hcomm]
  apply lazyPlus_settles hdot
  intro u v huv hv
  have hbracket : '[' ∉ v := by
    intro hf
    apply p.comm_bracket
    rw [hcomm,huv]
    exact List.mem_cons_of_mem c (List.mem_append_right u hf)
  exact pidPattern_rejects hv hbracket _

theorem head_pid : (pidPattern.ways p.fromPid).head? =
    some ([p.pid.text,p.cpu.text,p.time,p.eventType,p.details],[]) := by
  have hopen : ∀ d ∈ ('[' :: (p.cpu.text ++ ']' :: (p.flags ++ p.fromTime))).head?, isSpace d = false := stops_cons rfl _
  have hclose : ∀ d ∈ (']' :: (p.flags ++ p.fromTime)).head?, d.isDigit = false := stops_cons rfl _
  have hcpu := head_seq (p.cpu.head hclose) (head_seq_lit ']' (p.flags_settle.head_seq p.head_time))
  have hgap := head_seq (p.toCpu.head hopen) (head_seq_lit '[' hcpu)
  exact head_seq_lit '-' (head_seq (p.pid.head (p.toCpu.stops rfl rfl _)) hgap)

theorem details_suffix : p.details <:+ p.line := by
  have hevent : p.details <:+ p.fromEvent :=
    ((List.suffix_append _ _).trans (List.suffix_cons _ _)).trans (List.suffix_append _ _)
  have htime : p.fromEvent <:+ p.fromTime :=
    (((List.suffix_append _ _).trans (List.suffix_cons _ _)).trans (List.suffix_append _ _)).trans
      (List.suffix_append _ _)
  have hcpu : p.fromTime <:+ p.cpu.text ++ ']' :: (p.flags ++ p.fromTime) :=
    ((List.suffix_append _ _).trans (List.suffix_cons _ _)).trans (List.suffix_append _ _)
  have hpid : p.fromTime <:+ p.fromPid :=
    ((((hcpu.trans (List.suffix_cons _ _)).trans (List.suffix_append _ _)).trans
      (List.suffix_append _ _)).trans (List.suffix_cons _ _))
  exact ((hevent.trans htime).trans hpid).trans (List.suffix_append _ _)

theorem timestamp : floatOfDecimal p.time = p.event.timestamp := by
  have hsec := (isDigits_iff.mp p.sec.isDigits).2
  have hfrac := (isDigits_iff.mp p.frac.isDigits).2
  have hlength : p.frac.text.length = p.frac.width := length_zeroPad p.frac_digits.1 p.frac_digits.2
  rw [time,floatOfDecimal_append hsec hfrac,hlength,Numeral.text,Numeral.text,intOfDigits_zeroPad,intOfDigits_zeroPad]
  rfl

end PrintedEvent

/-- What the trace prints is what the scripts read. -/
theorem parse_printed (p : PrintedEvent) : parseEventFromLine p.line = some p.event := by
  have hways := (p.comm_settles.group).head_seq p.head_pid
  have hgroups : tracePattern.groups p.line =
      some [p.comm,p.pid.text,p.cpu.text,p.time,p.eventType,p.details] := by
    rw [groups,tracePattern_eq,PrintedEvent.line,hways]
    rfl
  have hline : rstrip p.line = p.line := rstrip_of_suffix p.details_suffix p.details_nonempty p.details_stripped
  rw [parseEventFromLine,hgroups]
  dsimp only
  rw [p.timestamp,p.details_stripped,hline,Numeral.text,Numeral.text,intOfDigits_zeroPad,intOfDigits_zeroPad]
  rfl

/-- The line with flags that the script gives as an example. -/
def renamedTask : PrintedEvent where
  comm := "trace-cmd".toList
  pid := ⟨3548,0⟩
  toCpu := ⟨[' ',' '],by simp,by simp⟩
  cpu := ⟨0,3⟩
  flags := "-0x1".toList
  toTime := ⟨[' ',' '],by simp,by simp⟩
  sec := ⟨4896,0⟩
  frac := ⟨102217,6⟩
  toEvent := ⟨[' '],by simp,by simp⟩
  eventType := "task_rename".toList
  toDetails := ⟨List.replicate 10 ' ',by simp,by simp⟩
  details := "pid=3548 oldcomm=trace-cmd newcomm=exec_workload.p oom_score_adj=0".toList
  comm_nonempty := by decide +kernel
  comm_bracket := by decide +kernel
  comm_line := by decide +kernel
  flags_solid := (show IsWord "-0x1".toList by decide +kernel).solid
  frac_digits := by decide
  event_word := by decide +kernel
  details_nonempty := by decide +kernel
  details_line := by decide +kernel
  details_stripped := by decide +kernel

example : renamedTask.line =
    ("trace-cmd-3548  [000]-0x1  4896.102217: task_rename:          pid=3548 oldcomm=trace-cmd " ++
      "newcomm=exec_workload.p oom_score_adj=0").toList := by
  decide +kernel

end ServerlessSched.Analyze
