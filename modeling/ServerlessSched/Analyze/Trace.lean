import ServerlessSched.Library.PythonText
import ServerlessSched.Library.Regex
import Mathlib.Data.Rat.Defs
import Mathlib.Algebra.Order.Ring.Rat

/-! # Lines of a trace

What the analysis scripts read from a line of the kernel trace, and the lines of the four
events they look at.
-/
namespace ServerlessSched.Analyze
open PythonText Regex

structure TraceEvent where
  process : Text
  pid : ℕ
  cpu : ℕ
  timestamp : ℚ
  eventType : Text
  details : Text
  rawLine : Text
deriving DecidableEq

/-- `float(s)` of digits around a point. -/
def floatOfDecimal (s : Text) : ℚ :=
  match s.splitOn '.' with
  | [whole,fraction] => intOfDigits whole + intOfDigits fraction / 10 ^ fraction.length
  | _ => 0

theorem floatOfDecimal_append {whole fraction : Text} (hwhole : ∀ c ∈ whole, c.isDigit = true)
    (hfraction : ∀ c ∈ fraction, c.isDigit = true) : floatOfDecimal (whole ++ '.' :: fraction) =
      intOfDigits whole + intOfDigits fraction / 10 ^ fraction.length := by
  have hpoint : ∀ s : Text, (∀ c ∈ s, c.isDigit = true) → '.' ∉ s := by
    intro s hs hc
    cases hs '.' hc
  rw [floatOfDecimal,List.splitOn_append_cons_self_of_not_mem (hpoint whole hwhole),
    List.splitOn_eq_singleton (hpoint fraction hfraction)]

/-- `\d+\.\d+` -/
def decimal : Regex := seq (plus Char.isDigit) (seq (lit '.') (plus Char.isDigit))

theorem head_digits {digits rest : Text} (h : isDigits digits = true) (hstop : ∀ d ∈ rest.head?, d.isDigit = false) :
    ((plus Char.isDigit).ways (digits ++ rest)).head? = some ([],rest) := by
  obtain ⟨hne,hdigits⟩ := isDigits_iff.mp h
  exact head_plus hne hdigits hstop

theorem head_decimal {whole fraction rest : Text} (hwhole : isDigits whole = true)
    (hfraction : isDigits fraction = true) (hstop : ∀ d ∈ rest.head?, d.isDigit = false) :
    (decimal.ways ((whole ++ '.' :: fraction) ++ rest)).head? = some ([],rest) := by
  have hpoint : ∀ d ∈ ('.' :: (fraction ++ rest)).head?, d.isDigit = false := stops_cons rfl _
  rw [List.append_assoc,List.cons_append]
  exact head_seq (head_digits hwhole hpoint) (head_seq_lit '.' (head_digits hfraction hstop))

theorem head_fixedPoint {digits n : ℕ} {rest : Text} (hstop : ∀ d ∈ rest.head?, d.isDigit = false) :
    ((group decimal).ways (fixedPoint digits n ++ rest)).head? = some ([fixedPoint digits n],rest) :=
  head_group (head_decimal (isDigits_str _) (isDigits_zeroPad digits _) hstop)

theorem floatOfDecimal_fixedPoint {digits : ℕ} (hdigits : 0 < digits) (n : ℕ) :
    floatOfDecimal (fixedPoint digits n) = n / 10 ^ digits := by
  have hlength := length_zeroPad hdigits (Nat.mod_lt n (Nat.pow_pos (Nat.succ_pos 9)))
  have hpow : (10 : ℚ) ^ digits ≠ 0 := pow_ne_zero digits (by decide)
  have hdivision : ((n / 10 ^ digits : ℕ) : ℚ) * 10 ^ digits + (n % 10 ^ digits : ℕ) = n := by
    exact_mod_cast Nat.div_add_mod' n (10 ^ digits)
  rw [fixedPoint,floatOfDecimal_append (str_isDigit _) (zeroPad_isDigit digits _),hlength,intOfDigits_str,
    intOfDigits_zeroPad,eq_div_iff hpow,add_mul,div_mul_cancel₀ _ hpow]
  exact hdivision

def dot : Char → Bool := fun c => c ≠ '\n'

def notSpace : Char → Bool := fun c => !isSpace c

/-- `(.+?)-(\d+)\s+\[(\d+)\](?:.*?)?\s+(\d+\.\d+):\s+(\S+):\s+(.*)` -/
def tracePattern : Regex :=
  seq (group (lazyPlus dot)) <| seq (lit '-') <| seq (group (plus Char.isDigit)) <| seq (plus isSpace) <|
    seq (lit '[') <| seq (group (plus Char.isDigit)) <| seq (lit ']') <| seq (optional (lazyStar dot)) <|
    seq (plus isSpace) <| seq (group (seq (plus Char.isDigit) (seq (lit '.') (plus Char.isDigit)))) <|
    seq (lit ':') <| seq (plus isSpace) <| seq (group (plus notSpace)) <| seq (lit ':') <|
    seq (plus isSpace) <| group (star dot)

/-- A line that does not match ends the script. -/
def parseEventFromLine (line : Text) : Option TraceEvent :=
  match tracePattern.groups line with
  | some [process,pid,cpu,timestamp,eventType,detailsStr] =>
    some ⟨process,intOfDigits pid,intOfDigits cpu,floatOfDecimal timestamp,eventType,strip detailsStr,rstrip line⟩
  | _ => none

/-- The details are part of the line. -/
theorem infix_details {line : Text} {e : TraceEvent} (h : parseEventFromLine line = some e) :
    e.details <:+: line := by
  unfold parseEventFromLine at h
  split at h
  case h_1 process pid cpu timestamp eventType detailsStr hgroups =>
    cases h
    have hdetails : detailsStr <:+: line := infix_groups hgroups (by simp)
    have hstrip : strip detailsStr <:+: detailsStr :=
      (List.rdropWhile_prefix isSpace _).isInfix.trans (List.dropWhile_suffix _).isInfix
    exact hstrip.trans hdetails
  case h_2 => cases h

/-! ## The four events -/

/-- What the tracepoints print. PIDs are numbers, whatever else is printed is text. -/
inductive Details
  | fork (comm : Text) (pid : ℕ) (childComm : Text) (childPid : ℕ)
  | switch (prevComm : Text) (prevPid : ℕ) (prevPrio prevState nextComm : Text) (nextPid : ℕ) (nextPrio : Text)
  | migrate (comm : Text) (pid : ℕ) (prio origCpu destCpu : Text)
  | exit (comm : Text) (pid : ℕ) (prio : Text)

def field (name : String) (value : Text) : Text := name.toList ++ '=' :: value

inductive Tracepoint
  | schedProcessFork
  | schedSwitch
  | schedMigrateTask
  | schedProcessExit
deriving DecidableEq

def Tracepoint.name : Tracepoint → Text
  | schedProcessFork => "sched_process_fork".toList
  | schedSwitch => "sched_switch".toList
  | schedMigrateTask => "sched_migrate_task".toList
  | schedProcessExit => "sched_process_exit".toList

theorem Tracepoint.name_injective : Function.Injective Tracepoint.name := by
  intro a b h
  cases a <;> cases b <;> first | rfl | exact absurd h (by decide)

namespace Details

def tracepoint : Details → Tracepoint
  | fork .. => .schedProcessFork
  | switch .. => .schedSwitch
  | migrate .. => .schedMigrateTask
  | exit .. => .schedProcessExit

/-- What is printed between blanks. -/
def parts : Details → List Text
  | fork comm pid childComm childPid =>
    [field "comm" comm,field "pid" (str pid),field "child_comm" childComm,field "child_pid" (str childPid)]
  | switch prevComm prevPid prevPrio prevState nextComm nextPid nextPrio =>
    [field "prev_comm" prevComm,field "prev_pid" (str prevPid),field "prev_prio" prevPrio,
      field "prev_state" prevState,"==>".toList,field "next_comm" nextComm,field "next_pid" (str nextPid),
      field "next_prio" nextPrio]
  | migrate comm pid prio origCpu destCpu =>
    [field "comm" comm,field "pid" (str pid),field "prio" prio,field "orig_cpu" origCpu,field "dest_cpu" destCpu]
  | exit comm pid prio => [field "comm" comm,field "pid" (str pid),field "prio" prio]

def text (d : Details) : Text := join [' '] d.parts

end Details

/-- A line of the trace, as it stands in the file and as it is read. -/
structure Line where
  raw : Text
  event : TraceEvent
  details : Details
  parsed : parseEventFromLine (strip raw) = some event
  eventType : event.eventType = details.tracepoint.name
  text : event.details = details.text

end ServerlessSched.Analyze
