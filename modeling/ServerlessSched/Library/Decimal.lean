import Mathlib.Data.List.TakeWhile
import Mathlib.Data.Nat.Digits.Lemmas
import Mathlib.Data.UInt

/-! # Decimal numerals in byte strings

The value of a run of digits, the first maximal run of a string, and the canonical
numeral of a number, whose value is that number.
-/
namespace ServerlessSched.Decimal

def isDigit (b : UInt8) : Bool := 48 ≤ b && b ≤ 57

def digitValue (b : UInt8) : ℕ := b.toNat - 48

/-- The number a string of digits denotes, most significant digit first. -/
def value (ds : List UInt8) : ℕ := ds.foldl (fun v b => v * 10 + digitValue b) 0

def firstRun (bs : List UInt8) : List UInt8 := (bs.dropWhile (fun b => !isDigit b)).takeWhile isDigit

@[simp] theorem value_nil : value [] = 0 := rfl

theorem value_append_one (ds : List UInt8) (b : UInt8) :
    value (ds ++ [b]) = value ds * 10 + digitValue b := by
  simp [value]

@[simp] theorem firstRun_nil : firstRun [] = [] := rfl

theorem firstRun_cons_digit {b : UInt8} (hb : isDigit b = true) (bs : List UInt8) :
    firstRun (b :: bs) = b :: bs.takeWhile isDigit := by
  simp [firstRun,hb]

theorem firstRun_cons_other {b : UInt8} (hb : isDigit b = false) (bs : List UInt8) :
    firstRun (b :: bs) = firstRun bs := by
  simp [firstRun,hb]

theorem firstRun_append_of_no_digit {as : List UInt8} (h : ∀ b ∈ as, isDigit b = false)
    (bs : List UInt8) : firstRun (as ++ bs) = firstRun bs := by
  induction as with
  | nil => rfl
  | cons a as ih =>
    rw [List.cons_append,firstRun_cons_other (h a List.mem_cons_self)]
    exact ih (fun b hb => h b (List.mem_cons_of_mem a hb))

theorem firstRun_of_all_digit {ds : List UInt8} (h : ∀ b ∈ ds, isDigit b = true) :
    firstRun ds = ds := by
  cases ds with
  | nil => rfl
  | cons d ds =>
    rw [firstRun_cons_digit (h d List.mem_cons_self)]
    rw [List.takeWhile_eq_self_iff.mpr (fun b hb => h b (List.mem_cons_of_mem d hb))]

def digitByte (d : ℕ) : UInt8 := UInt8.ofNat (48 + d)

theorem digitByte_toNat {d : ℕ} (h : d < 10) : (digitByte d).toNat = 48 + d := by
  rw [digitByte,UInt8.toNat_ofNat']
  omega

theorem isDigit_iff {b : UInt8} : isDigit b = true ↔ 48 ≤ b.toNat ∧ b.toNat ≤ 57 := by
  simp only [isDigit,Bool.and_eq_true,decide_eq_true_eq,UInt8.le_iff_toNat_le]
  rfl

theorem isDigit_digitByte {d : ℕ} (h : d < 10) : isDigit (digitByte d) = true := by
  rw [isDigit_iff,digitByte_toNat h]
  omega

theorem digitValue_digitByte {d : ℕ} (h : d < 10) : digitValue (digitByte d) = d := by
  rw [digitValue,digitByte_toNat h]
  omega

/-- The decimal numeral of a positive number, without leading zeros. -/
def numeral (n : ℕ) : List UInt8 := (Nat.digits 10 n).reverse.map digitByte

theorem numeral_isDigit (n : ℕ) : ∀ b ∈ numeral n, isDigit b = true := by
  intro b hb
  obtain ⟨d,hd,rfl⟩ := List.mem_map.mp hb
  exact isDigit_digitByte (Nat.digits_lt_base (by decide) (List.mem_reverse.mp hd))

theorem numeral_ne_nil {n : ℕ} (h : 0 < n) : numeral n ≠ [] := by
  have hne : Nat.digits 10 n ≠ [] := Nat.digits_ne_nil_iff_ne_zero.mpr h.ne'
  simpa [numeral] using hne

private theorem value_map_reverse {ds : List ℕ} (h : ∀ d ∈ ds, d < 10) :
    value (ds.reverse.map digitByte) = Nat.ofDigits 10 ds := by
  induction ds with
  | nil => rfl
  | cons d ds ih =>
    have hd : d < 10 := h d List.mem_cons_self
    have hds := ih (fun e he => h e (List.mem_cons_of_mem d he))
    rw [List.reverse_cons,List.map_append,List.map_singleton,value_append_one,hds,
      digitValue_digitByte hd,Nat.ofDigits_cons]
    ring

@[simp] theorem value_numeral (n : ℕ) : value (numeral n) = n := by
  rw [numeral,value_map_reverse (fun d hd => Nat.digits_lt_base (by decide) hd),
    Nat.ofDigits_digits]

theorem numeral_length_le {n k : ℕ} (h : n < 10 ^ k) : (numeral n).length ≤ k := by
  rw [numeral,List.length_map,List.length_reverse]
  exact (Nat.digits_length_le_iff (by decide) n).mpr h

theorem firstRun_numeral (n : ℕ) : firstRun (numeral n) = numeral n :=
  firstRun_of_all_digit (numeral_isDigit n)

end ServerlessSched.Decimal
