import ServerlessSched.Kernel.Clock
import ServerlessSched.Kernel.UserMemory
import ServerlessSched.Library.Decimal
import Mathlib.Tactic.IntervalCases

/-! # The slice the kernel-assigned scheduler computes

`get_task_slice` reads the last 64 bytes of the argument area, takes the first run of
digits in them and looks the number up in the table. The number is accumulated in 64
bits, so that a run of more than nineteen digits is read modulo `2 ^ 64`.
-/
namespace ServerlessSched

/-- Numbers of the table's short jobs, which run to completion. -/
def ShortArg (n : ℤ) : Prop := 24 ≤ n ∧ n ≤ 35

instance (n : ℤ) : Decidable (ShortArg n) := instDecidableAnd

/-- The policy both schedulers implement: short jobs get an infinite slice. -/
def policySlice (n : ℤ) : UInt64 := if ShortArg n then sliceInf else sliceDfl

theorem policySlice_eq_iff {m n : ℤ} : policySlice m = policySlice n ↔ (ShortArg m ↔ ShortArg n) := by
  have hne : sliceInf ≠ sliceDfl := by decide
  unfold policySlice
  by_cases hm : ShortArg m <;> by_cases hn : ShortArg n <;> simp [hm,hn,hne,hne.symm]

namespace KernelAssigned
open Decimal

def fibArgMin : UInt64 := 24
def fibArgMax : UInt64 := 46
def maxCmdlineLen : ℕ := 64

/-- Entry `i` belongs to the argument `24 + i`: 1 for an infinite slice, 0 for the default. -/
def fibSliceMap : List UInt64 :=
  [1, 1, 1, 1, 1, 1, 1, 1, 1, 1, 1, 1, 0, 0, 0, 0, 0, 0, 0, 0, 0, 0, 0]

/-- The loop over the window from index `i` on: the accumulated number and whether a digit
has been met. Writing a blank over a NUL only changes what is printed afterwards. -/
def scanFibArg (totalLen : ℕ) : ℕ → List UInt8 → UInt64 → Bool → UInt64 × Bool
  | _, [], fibArg, foundDigit => (fibArg,foundDigit)
  | i, c :: cs, fibArg, foundDigit =>
    if totalLen - 1 ≤ i then (fibArg,foundDigit)
    else if c = 0 then
      if foundDigit then (fibArg,foundDigit) else scanFibArg totalLen (i + 1) cs fibArg foundDigit
    else if 48 ≤ c ∧ c ≤ 57 then
      scanFibArg totalLen (i + 1) cs (fibArg * 10 + (c - 48).toUInt64) true
    else if foundDigit then (fibArg,foundDigit)
    else scanFibArg totalLen (i + 1) cs fibArg foundDigit

/-- The table lookup and the translation of its entries. -/
def lookupSlice (fibArg : UInt64) : UInt64 :=
  if fibArgMin ≤ fibArg ∧ fibArg ≤ fibArgMax then
    match fibSliceMap.getD (fibArg - fibArgMin).toNat 0 with
    | 0 => sliceDfl
    | 1 => sliceInf
    | slice => slice
  else sliceDfl

/-- Where the 64-byte read starts: at the last 64 bytes of a long area. -/
def readStart (mm : Mm) : UInt64 :=
  if mm.argEnd - mm.argStart > 64 then mm.argEnd - 64 else mm.argStart

/-- How many of the bytes read belong to the area. -/
def readLen (mm : Mm) : UInt64 :=
  if mm.argEnd - mm.argStart > 64 then 64 else mm.argEnd - mm.argStart

def getTaskSlice (mm : Mm) : UInt64 :=
  if mm.argEnd - mm.argStart ≤ 0 then sliceDfl
  else
    match mm.read (readStart mm) maxCmdlineLen with
    | none => sliceDfl
    | some cmdline =>
      let totalLen := (readLen mm).toNat
      let cmdline := cmdline.set (totalLen - 1) 0
      match scanFibArg totalLen 0 (cmdline.take (maxCmdlineLen - 1)) 0 false with
      | (_,false) => sliceDfl
      | (fibArg,true) => lookupSlice fibArg

theorem lookupSlice_eq (fibArg : UInt64) : lookupSlice fibArg = policySlice fibArg.toNat := by
  unfold lookupSlice
  by_cases h : fibArgMin ≤ fibArg ∧ fibArg ≤ fibArgMax
  · rw [if_pos h]
    obtain ⟨hmin,hmax⟩ := h
    have hlow : 24 ≤ fibArg.toNat := UInt64.le_iff_toNat_le.mp hmin
    have hhigh : fibArg.toNat ≤ 46 := UInt64.le_iff_toNat_le.mp hmax
    obtain ⟨n,hn⟩ : ∃ n, fibArg.toNat = n := ⟨_,rfl⟩
    have harg : fibArg = UInt64.ofNat n := by rw [← hn,UInt64.ofNat_toNat]
    rw [hn] at hlow hhigh ⊢
    subst harg
    interval_cases n <;> rfl
  · rw [if_neg h]
    have hlong : ¬ShortArg fibArg.toNat := by
      rintro ⟨hlow,hhigh⟩
      refine h ⟨UInt64.le_iff_toNat_le.mpr ?_,UInt64.le_iff_toNat_le.mpr ?_⟩
      · change 24 ≤ fibArg.toNat
        omega
      · change fibArg.toNat ≤ 46
        omega
    rw [policySlice,if_neg hlong]

/-! ## The loop reads the first run of digits -/

theorem digit_test_iff (c : UInt8) : (48 ≤ c ∧ c ≤ 57) ↔ isDigit c = true := by
  simp [isDigit]

private theorem digit_ne_zero {c : UInt8} (h : isDigit c = true) : c ≠ 0 := by
  rintro rfl
  cases h

theorem accumulate_digit {c : UInt8} (h : isDigit c = true) (v : ℕ) :
    UInt64.ofNat v * 10 + (c - 48).toUInt64 = UInt64.ofNat (v * 10 + digitValue c) := by
  have hc : (c - 48).toNat = digitValue c :=
    UInt8.toNat_sub_of_le _ _ ((digit_test_iff c).mpr h).1
  apply UInt64.toNat_inj.mp
  simp only [UInt64.toNat_add,UInt64.toNat_mul,UInt64.toNat_ofNat',UInt8.toNat_toUInt64,hc,
    UInt64.toNat_ofNat]
  omega

variable {totalLen : ℕ}

theorem take_window {i : ℕ} (hi : ¬totalLen - 1 ≤ i) (c : UInt8) (cs : List UInt8) :
    (c :: cs).take (totalLen - 1 - i) = c :: cs.take (totalLen - 1 - (i + 1)) := by
  obtain ⟨m,hm⟩ : ∃ m, totalLen - 1 - i = m + 1 := ⟨totalLen - 1 - i - 1,by omega⟩
  have hm' : totalLen - 1 - (i + 1) = m := by omega
  rw [hm,List.take_succ_cons,hm']

theorem scanFibArg_found (i : ℕ) (cs : List UInt8) (v : ℕ) :
    scanFibArg totalLen i cs (UInt64.ofNat v) true =
      (UInt64.ofNat (((cs.take (totalLen - 1 - i)).takeWhile isDigit).foldl
        (fun v b => v * 10 + digitValue b) v),true) := by
  induction cs generalizing i v with
  | nil => simp [scanFibArg]
  | cons c cs ih =>
    rw [scanFibArg]
    by_cases hi : totalLen - 1 ≤ i
    · rw [if_pos hi,Nat.sub_eq_zero_of_le hi]
      rfl
    · rw [if_neg hi,take_window hi]
      cases hc : isDigit c with
      | false =>
        rw [if_neg (mt (digit_test_iff c).mp (by rw [hc]; decide))]
        simp [hc]
      | true =>
        rw [if_neg (digit_ne_zero hc),if_pos ((digit_test_iff c).mpr hc),accumulate_digit hc,ih]
        simp [hc]

/-- From the start of the window the loop reads the first run of digits in it. -/
theorem scanFibArg_start (i : ℕ) (cs : List UInt8) :
    scanFibArg totalLen i cs 0 false =
      (UInt64.ofNat (value (firstRun (cs.take (totalLen - 1 - i)))),
        decide (firstRun (cs.take (totalLen - 1 - i)) ≠ [])) := by
  induction cs generalizing i with
  | nil => simp [scanFibArg]
  | cons c cs ih =>
    rw [scanFibArg]
    by_cases hi : totalLen - 1 ≤ i
    · rw [if_pos hi,Nat.sub_eq_zero_of_le hi]
      rfl
    · rw [if_neg hi,take_window hi]
      cases hc : isDigit c with
      | false =>
        rw [firstRun_cons_other hc,if_neg (mt (digit_test_iff c).mp (by rw [hc]; decide))]
        simp only [Bool.false_eq_true,↓reduceIte,ite_self]
        rw [ih]
      | true =>
        rw [firstRun_cons_digit hc,if_neg (digit_ne_zero hc),if_pos ((digit_test_iff c).mpr hc)]
        have hfirst : (0 : UInt64) * 10 + (c - 48).toUInt64 = UInt64.ofNat (0 * 10 + digitValue c) :=
          accumulate_digit hc 0
        rw [hfirst,scanFibArg_found]
        simp [value]

/-! ## The window -/

/-- The bytes the scanner looks at: the last 64 of the area without its final byte. -/
def window (area : List UInt8) : List UInt8 := (area.drop (area.length - 64)).dropLast

/-- The number the kernel-side scanner finds in an argument area. -/
def scannedArg (area : List UInt8) : ℕ := value (firstRun (window area)) % 2 ^ 64

private theorem read_window {mm : Mm} {area buf : List UInt8} (harea : mm.argArea = some area)
    (hread : mm.read (readStart mm) maxCmdlineLen = some buf) :
    buf.take ((readLen mm).toNat - 1) = window area := by
  have hlen : area.length = (mm.argEnd - mm.argStart).toNat := Mm.read_length harea
  have hbuf : buf.length = 64 := Mm.read_length hread
  unfold Mm.argArea at harea
  unfold readStart at hread
  unfold readLen
  by_cases hlong : mm.argEnd - mm.argStart > 64
  · have hlt : 64 < area.length := by
      rw [hlen]
      exact UInt64.lt_iff_toNat_lt.mp hlong
    rw [if_pos hlong] at hread ⊢
    obtain ⟨m,hm⟩ : ∃ m, (mm.argEnd - mm.argStart).toNat = m + 64 :=
      ⟨(mm.argEnd - mm.argStart).toNat - 64,by omega⟩
    rw [hm] at harea
    have hdrop := Mm.read_drop harea
    have hstart : mm.argStart + UInt64.ofNat m = mm.argEnd - 64 := by
      have hdiff : mm.argEnd - mm.argStart = UInt64.ofNat m + 64 := by
        rw [← UInt64.ofNat_toNat (x := mm.argEnd - mm.argStart),hm,UInt64.ofNat_add]
        rfl
      have hend : mm.argEnd = mm.argStart + (UInt64.ofNat m + 64) := by
        rw [← hdiff,UInt64.add_comm,UInt64.sub_add_cancel]
      rw [hend,← UInt64.add_assoc,UInt64.add_sub_cancel]
    rw [hstart] at hdrop
    have heq : buf = area.drop m := Option.some.inj (hread.symm.trans hdrop)
    have hwin : area.length - 64 = m := by omega
    rw [window,hwin,← heq,List.dropLast_eq_take,hbuf]
    rfl
  · have hle : area.length ≤ 64 := by
      rw [hlen]
      exact Nat.le_of_not_lt (fun h => hlong (UInt64.lt_iff_toNat_lt.mpr h))
    rw [if_neg hlong] at hread ⊢
    have htake := Mm.read_take (m := area.length) hle hread
    rw [hlen,harea] at htake
    have heq : area = buf.take area.length := by
      rw [hlen]
      exact Option.some.inj htake
    rw [window,Nat.sub_eq_zero_of_le hle,List.drop_zero,List.dropLast_eq_take,← hlen]
    conv_rhs => rw [heq]
    rw [List.take_take,List.length_take]
    congr 1
    omega

def numberRead (mm : Mm) (buf : List UInt8) : ℕ :=
  value (firstRun (buf.take ((readLen mm).toNat - 1))) % 2 ^ 64

theorem getTaskSlice_of_read {mm : Mm} {buf : List UInt8}
    (hread : mm.read (readStart mm) maxCmdlineLen = some buf) :
    getTaskSlice mm = policySlice (numberRead mm buf) := by
  have hbuf : buf.length = 64 := Mm.read_length hread
  unfold getTaskSlice
  by_cases hempty : mm.argEnd - mm.argStart ≤ 0
  · have hzero : mm.argEnd - mm.argStart = 0 := UInt64.le_zero_iff.mp hempty
    have hnone : (readLen mm).toNat - 1 = 0 := by
      unfold readLen
      rw [hzero]
      rfl
    simp only [hempty,↓reduceIte]
    unfold numberRead
    rw [hnone]
    rfl
  · simp only [hempty,↓reduceIte,hread]
    unfold numberRead
    generalize hn : (readLen mm).toNat = n
    have hn64 : n ≤ 64 := by
      rw [← hn,readLen]
      split
      case isTrue => exact le_rfl
      case isFalse h => exact Nat.le_of_not_lt (fun hlt => h (UInt64.lt_iff_toNat_lt.mpr hlt))
    have hscan : (((buf.set (n - 1) 0).take (maxCmdlineLen - 1)).take (n - 1 - 0)) = buf.take (n - 1) := by
      rw [List.take_take,Nat.sub_zero,Nat.min_eq_left (by unfold maxCmdlineLen; omega),
        List.take_set_of_le (le_refl _)]
    rw [scanFibArg_start,hscan]
    by_cases hrun : firstRun (buf.take (n - 1)) = []
    · simp only [hrun,ne_eq,not_true_eq_false,decide_false,value_nil]
      rfl
    · simp only [hrun,ne_eq,not_false_eq_true,decide_true]
      rw [lookupSlice_eq,UInt64.toNat_ofNat']

/-- `get_task_slice` applies the policy to the number found in the window. -/
theorem getTaskSlice_eq {mm : Mm} {area buf : List UInt8} (harea : mm.argArea = some area)
    (hread : mm.read (readStart mm) maxCmdlineLen = some buf) :
    getTaskSlice mm = policySlice (scannedArg area) := by
  rw [getTaskSlice_of_read hread,numberRead,read_window harea hread]
  rfl

/-- The bytes can be read and the number in them is that of a short job. -/
def ShortJob (mm : Mm) : Prop :=
  ∃ buf, mm.read (readStart mm) maxCmdlineLen = some buf ∧ ShortArg (numberRead mm buf)

theorem getTaskSlice_cases (mm : Mm) :
    ShortJob mm ∧ getTaskSlice mm = sliceInf ∨ ¬ShortJob mm ∧ getTaskSlice mm = sliceDfl := by
  cases hread : mm.read (readStart mm) maxCmdlineLen with
  | none =>
    refine Or.inr ⟨?_,?_⟩
    · rintro ⟨buf,hbuf,-⟩
      rw [hread] at hbuf
      cases hbuf
    · unfold getTaskSlice
      simp only [hread,ite_self]
  | some buf =>
    rw [getTaskSlice_of_read hread,policySlice]
    by_cases hshort : ShortArg (numberRead mm buf)
    · exact Or.inl ⟨⟨buf,hread,hshort⟩,if_pos hshort⟩
    · refine Or.inr ⟨?_,if_neg hshort⟩
      rintro ⟨buf',hbuf',hshort'⟩
      rw [hread] at hbuf'
      cases hbuf'
      exact hshort hshort'

end KernelAssigned
end ServerlessSched
