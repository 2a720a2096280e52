import ServerlessSched.Library.Decimal

/-! # C strings and the conversions of the C library

A C string is the part of a byte buffer before its first NUL. The conversions are those
of a 64-bit `long` and a 32-bit `int`: `strtol` saturates, `atoi` truncates its result;
`strtoul` saturates too, and takes a negative number for its remainder modulo 2 ^ 64.
-/
namespace ServerlessSched.CString
open Decimal

/-- The string stored in a buffer: everything before the first NUL. -/
def cstr (buf : List UInt8) : List UInt8 := buf.takeWhile (fun b => b ≠ 0)

/-- `strrchr`: the part of the string that starts at the last occurrence of `c`. -/
def strrchr (c : UInt8) : List UInt8 → Option (List UInt8)
  | [] => none
  | b :: bs =>
    match strrchr c bs with
    | some r => some r
    | none => if b = c then some (b :: bs) else none

/-- `isspace` in the C locale: blank, tab, newline, vertical tab, form feed, return. -/
def isSpace (b : UInt8) : Bool := b = 32 || (9 ≤ b && b ≤ 13)

def longMax : ℤ := 2 ^ 63 - 1
def longMin : ℤ := -2 ^ 63

/-- `strtol(s, NULL, 10)`: leading blanks, an optional sign, digits, saturation. -/
def strtol (s : List UInt8) : ℤ :=
  match s.dropWhile isSpace with
  | 45 :: ds => max longMin (-(value (ds.takeWhile isDigit) : ℤ))
  | 43 :: ds => min longMax (value (ds.takeWhile isDigit))
  | ds => min longMax (value (ds.takeWhile isDigit))

/-- `atoi`: `strtol` converted to `int`. -/
def atoi (s : List UInt8) : ℤ := Int.bmod (strtol s) (2 ^ 32)

private theorem takeWhile_append_of_stop {α : Type*} {p : α → Bool} {l : List α}
    (h : ∃ a ∈ l, p a = false) (r : List α) : (l ++ r).takeWhile p = l.takeWhile p := by
  induction l with
  | nil =>
    obtain ⟨a,ha,-⟩ := h
    cases ha
  | cons b l ih =>
    rw [List.cons_append,List.takeWhile_cons,List.takeWhile_cons]
    cases hb : p b with
    | false => rfl
    | true =>
      obtain ⟨a,ha,hp⟩ := h
      have hal : a ∈ l := (List.mem_cons.mp ha).resolve_left (by rintro rfl; rw [hb] at hp; cases hp)
      exact congrArg (b :: ·) (ih ⟨a,hal,hp⟩)

/-- What follows the last occurrence is the longest tail without the character. -/
theorem strrchr_eq (c : UInt8) (l : List UInt8) :
    strrchr c l = if c ∈ l then some (c :: (l.reverse.takeWhile (fun b => b ≠ c)).reverse) else none := by
  induction l with
  | nil => rfl
  | cons b l ih =>
    rw [strrchr,ih,List.reverse_cons]
    by_cases hc : c ∈ l
    · rw [if_pos hc,if_pos (List.mem_cons_of_mem b hc),
        takeWhile_append_of_stop ⟨c,List.mem_reverse.mpr hc,by simp⟩]
    · have hall : ∀ a ∈ l.reverse, decide (a ≠ c) = true := fun a ha =>
        decide_eq_true (ne_of_mem_of_not_mem (List.mem_reverse.mp ha) hc)
      rw [if_neg hc,List.takeWhile_append_of_pos hall]
      by_cases hb : b = c
      · subst hb
        simp
      · simp [hb,hc,Ne.symm hb]

theorem cstr_append_nul {s : List UInt8} (h : (0 : UInt8) ∉ s) (rest : List UInt8) :
    cstr (s ++ 0 :: rest) = s := by
  rw [cstr,List.takeWhile_append_of_pos (fun b hb => decide_eq_true (ne_of_mem_of_not_mem hb h))]
  simp

/-- What follows the first NUL does not matter. -/
theorem cstr_append_of_mem {s : List UInt8} (h : (0 : UInt8) ∈ s) (rest : List UInt8) :
    cstr (s ++ rest) = cstr s :=
  takeWhile_append_of_stop ⟨0,h,by simp⟩ rest

theorem cstr_length_lt {s : List UInt8} (h : (0 : UInt8) ∈ s) : (cstr s).length < s.length := by
  obtain ⟨before,after,rfl⟩ := List.append_of_mem h
  have hle := (List.takeWhile_prefix (fun b : UInt8 => decide (b ≠ 0)) (l := before ++ [0])).length_le
  have hne : cstr (before ++ [0]) ≠ before ++ [0] := by
    intro hself
    have hall := List.takeWhile_eq_self_iff.mp hself 0 (by simp)
    simp at hall
  have hlt : (cstr (before ++ [0])).length ≠ (before ++ [0]).length := fun hlen => hne
    ((List.takeWhile_prefix (fun b : UInt8 => decide (b ≠ 0))).eq_of_length hlen)
  rw [List.append_cons,cstr_append_of_mem (by simp)]
  simp only [List.length_append,List.length_singleton] at hlt hle ⊢
  unfold cstr at hlt ⊢
  omega

private theorem isDigit_ne {b c : UInt8} (hb : isDigit b = true) (hc : isDigit c = false) : b ≠ c := by
  rintro rfl
  rw [hb] at hc
  cases hc

theorem isSpace_of_isDigit {b : UInt8} (hb : isDigit b = true) : isSpace b = false := by
  rw [isDigit_iff] at hb
  simp only [isSpace,Bool.or_eq_false_iff,Bool.and_eq_false_iff,decide_eq_false_iff_not,
    UInt8.le_iff_toNat_le,← UInt8.toNat_inj]
  have h9 : (9 : UInt8).toNat = 9 := rfl
  have h13 : (13 : UInt8).toNat = 13 := rfl
  have h32 : (32 : UInt8).toNat = 32 := rfl
  omega

theorem atoi_numeral {n : ℕ} (hpos : 0 < n) (hmax : n < 2 ^ 31) : atoi (numeral n) = n := by
  have hdigit := numeral_isDigit n
  have hall : (numeral n).takeWhile isDigit = numeral n := List.takeWhile_eq_self_iff.mpr hdigit
  have hvalue := value_numeral n
  have hstrtol : strtol (numeral n) = n := by
    cases hs : numeral n with
    | nil => exact absurd hs (numeral_ne_nil hpos)
    | cons d ds =>
      rw [hs] at hdigit hall hvalue
      have hd : isDigit d = true := hdigit d List.mem_cons_self
      have hdrop : (d :: ds).dropWhile isSpace = d :: ds := by
        rw [List.dropWhile_cons,isSpace_of_isDigit hd]
        rfl
      have hminus : d ≠ 45 := isDigit_ne hd rfl
      have hplus : d ≠ 43 := isDigit_ne hd rfl
      unfold strtol
      rw [hdrop]
      split
      case h_1 heq => exact absurd (List.cons.inj heq).1 hminus
      case h_2 heq => exact absurd (List.cons.inj heq).1 hplus
      case h_3 =>
        rw [hall,hvalue,longMax]
        omega
  rw [atoi,hstrtol,Int.bmod_def]
  push_cast
  split_ifs <;> omega

/-! ## `strtoul` -/

/-- The value of a digit in the bases up to 36; 36 for what is none. -/
def digitOf (b : UInt8) : ℕ :=
  if 48 ≤ b ∧ b ≤ 57 then b.toNat - 48
  else if 97 ≤ b ∧ b ≤ 122 then b.toNat - 87
  else if 65 ≤ b ∧ b ≤ 90 then b.toNat - 55
  else 36

/-- The number denoted by the digits a string begins with. -/
def leadingNumber (base : ℕ) (s : List UInt8) : ℕ :=
  ((s.map digitOf).takeWhile (fun d => d < base)).foldl (fun v d => v * base + d) 0

/-- Base 0: the number's own first characters give its base. -/
def prefixedNumber : List UInt8 → ℕ
  | 48 :: 120 :: s => leadingNumber 16 s
  | 48 :: 88 :: s => leadingNumber 16 s
  | 48 :: s => leadingNumber 8 s
  | s => leadingNumber 10 s

/-- Whether there is a minus sign, and what follows the sign. -/
def afterSign (s : List UInt8) : Bool × List UInt8 :=
  match s.dropWhile isSpace with
  | 45 :: s => (true,s)
  | 43 :: s => (false,s)
  | s => (false,s)

/-- The number a string denotes, without its sign; zero when there are no digits. -/
def magnitude (s : List UInt8) : ℕ := prefixedNumber (afterSign s).2

/-- `strtoul(s, NULL, 0)`. -/
def strtoul (s : List UInt8) : UInt64 :=
  if 2 ^ 64 ≤ magnitude s then 0xffffffffffffffff
  else if (afterSign s).1 then 0 - UInt64.ofNat (magnitude s)
  else UInt64.ofNat (magnitude s)

/-- The lower half of the result vanishes for the multiples of 2 ^ 32 that do not saturate. -/
theorem strtoul_toUInt32_eq_zero_iff (s : List UInt8) :
    (strtoul s).toUInt32 = 0 ↔ magnitude s < 2 ^ 64 ∧ 2 ^ 32 ∣ magnitude s := by
  rw [← UInt32.toNat_inj,UInt64.toNat_toUInt32]
  have hzero : (0 : UInt32).toNat = 0 := rfl
  rw [hzero]
  unfold strtoul
  split_ifs with hbig hsign
  · have hmax : (0xffffffffffffffff : UInt64).toNat = 2 ^ 64 - 1 := rfl
    rw [hmax]
    omega
  · rw [UInt64.toNat_sub,UInt64.toNat_ofNat']
    have hzero64 : (0 : UInt64).toNat = 0 := rfl
    rw [hzero64]
    omega
  · rw [UInt64.toNat_ofNat']
    omega

end ServerlessSched.CString
