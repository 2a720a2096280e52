import Mathlib.Data.UInt

/-! # Virtual time as the callbacks compute it

Virtual times and slices are unsigned 64-bit nanosecond counts. Comparisons go
through the sign of the wrapped difference, as the kernel's `time_before` does;
they agree with the integer order as long as no time reaches `2 ^ 63`.
-/
namespace ServerlessSched

/-- `SCX_SLICE_DFL`: twenty milliseconds. -/
def sliceDfl : UInt64 := 20000000
/-- `SCX_SLICE_INF`: the largest 64-bit value, a slice that never ends. -/
def sliceInf : UInt64 := 18446744073709551615
/-- `LAG_LIMIT`: the budget an idling task can accumulate. -/
def lagLimit : UInt64 := sliceDfl

@[simp] theorem lagLimit_toNat : lagLimit.toNat = 20000000 := rfl
@[simp] theorem sliceDfl_toNat : sliceDfl.toNat = 20000000 := rfl

/-- `time_before(a, b)`: `(s64)(a - b) < 0`. -/
def timeBefore (a b : UInt64) : Bool := decide ((a - b).toInt64 < 0)

theorem toNat_sub_of_toNat_le {a b : UInt64} (h : b.toNat ≤ a.toNat) : (a - b).toNat = a.toNat - b.toNat :=
  UInt64.toNat_sub_of_le _ _ (UInt64.le_iff_toNat_le.mpr h)

/-- A runtime that does not wrap does not fall. -/
theorem toNat_le_add_ofNat {a : UInt64} {n : ℕ} (h : a.toNat + n < 2 ^ 64) :
    a.toNat ≤ (a + UInt64.ofNat n).toNat := by
  rw [UInt64.toNat_add,UInt64.toNat_ofNat']
  omega

private theorem toInt64_toInt (a : UInt64) : a.toInt64.toInt = Int.bmod a.toNat (2 ^ 64) := by
  rw [Int64.toInt,BitVec.toInt_eq_toNat_bmod]
  rfl

theorem timeBefore_iff_top {a b : UInt64} : timeBefore a b = true ↔ 2 ^ 63 ≤ (a - b).toNat := by
  have h : (a - b).toNat < 2 ^ 64 := UInt64.toNat_lt _
  rw [timeBefore,decide_eq_true_eq,Int64.lt_iff_toInt_lt,toInt64_toInt,Int64.toInt_zero,Int.bmod_def]
  push_cast
  split_ifs <;> omega

theorem timeBefore_iff {a b : UInt64} (ha : a.toNat < 2 ^ 63) (hb : b.toNat < 2 ^ 63) :
    timeBefore a b = true ↔ a.toNat < b.toNat := by
  rw [timeBefore_iff_top,UInt64.toNat_sub]
  omega

/-- The clamp of both enqueue callbacks and of the decision consumer: a task that
idled starts at most `LAG_LIMIT` behind the clock. -/
def lagClamp (limit vtime : UInt64) : UInt64 :=
  if limit > lagLimit then
    if timeBefore vtime (limit - lagLimit) then limit - lagLimit else vtime
  else vtime

/-- The clamp of the map-full fallback: no test of the clock against `SCX_SLICE_DFL`. -/
def fallbackClamp (limit vtime : UInt64) : UInt64 :=
  if timeBefore vtime (limit - sliceDfl) then limit - sliceDfl else vtime

theorem lagClamp_toNat {limit vtime : UInt64} (hl : limit.toNat < 2 ^ 63)
    (hv : vtime.toNat < 2 ^ 63) :
    (lagClamp limit vtime).toNat = max vtime.toNat (limit.toNat - lagLimit.toNat) := by
  unfold lagClamp
  split
  case isTrue h =>
    have hle : lagLimit.toNat ≤ limit.toNat := (UInt64.lt_iff_toNat_lt.mp h).le
    have hsub : (limit - lagLimit).toNat = limit.toNat - lagLimit.toNat := toNat_sub_of_toNat_le hle
    have hbefore := timeBefore_iff (b := limit - lagLimit) hv (by omega)
    split
    case isTrue hb => have := hbefore.mp hb; omega
    case isFalse hb => have := mt hbefore.mpr hb; omega
  case isFalse h =>
    have hle : limit.toNat ≤ lagLimit.toNat := Nat.not_lt.mp (mt UInt64.lt_iff_toNat_lt.mpr h)
    omega

/-- Without the guard the subtraction wraps early on. For a time that is not ahead of the
clock the wrapped comparison reads the difference as a time before zero, so that the two
clamps agree; a time far ahead of the clock would be moved to the wrapped difference. -/
theorem fallbackClamp_toNat {limit vtime : UInt64} (hl : limit.toNat < 2 ^ 63)
    (hv : vtime.toNat ≤ limit.toNat) :
    (fallbackClamp limit vtime).toNat = max vtime.toNat (limit.toNat - lagLimit.toNat) := by
  by_cases h : sliceDfl.toNat ≤ limit.toNat
  · have hsub : (limit - sliceDfl).toNat = limit.toNat - sliceDfl.toNat := toNat_sub_of_toNat_le h
    have hbefore := timeBefore_iff (b := limit - sliceDfl) (hv.trans_lt hl) (by omega)
    simp only [lagLimit]
    unfold fallbackClamp
    split
    case isTrue hb => have := hbefore.mp hb; omega
    case isFalse hb => have := mt hbefore.mpr hb; omega
  · have hwrap : ¬timeBefore vtime (limit - sliceDfl) = true := by
      rw [timeBefore_iff_top,UInt64.toNat_sub,UInt64.toNat_sub]
      rw [sliceDfl_toNat] at h ⊢
      omega
    unfold fallbackClamp lagLimit
    rw [if_neg hwrap]
    omega

theorem lagClamp_cases (limit vtime : UInt64) : lagClamp limit vtime = vtime ∨
    lagLimit < limit ∧ timeBefore vtime (limit - lagLimit) = true ∧
      lagClamp limit vtime = limit - lagLimit := by
  unfold lagClamp
  split
  case isFalse => exact Or.inl rfl
  case isTrue hl =>
    split
    case isFalse => exact Or.inl rfl
    case isTrue hb => exact Or.inr ⟨hl,hb,rfl⟩

@[simp] theorem lagClamp_lagClamp (limit vtime : UInt64) :
    lagClamp limit (lagClamp limit vtime) = lagClamp limit vtime := by
  rcases lagClamp_cases limit vtime with h | ⟨-,-,h⟩
  · rw [h,h]
  · rw [h]
    rcases lagClamp_cases limit (limit - lagLimit) with h' | ⟨-,-,h'⟩ <;> exact h'

/-- Within the reach of the signed comparison the clamp leaves a time alone or raises it. -/
theorem lagClamp_raises {limit vtime : UInt64}
    (h : lagLimit < limit → vtime.toNat < limit.toNat - lagLimit.toNat + 2 ^ 63) :
    lagClamp limit vtime = vtime ∨ vtime.toNat < (lagClamp limit vtime).toNat ∧
      (lagClamp limit vtime).toNat + lagLimit.toNat = limit.toNat := by
  rcases lagClamp_cases limit vtime with hsame | ⟨hl,hb,hclamped⟩
  · exact Or.inl hsame
  · have hreach := h hl
    have hle : lagLimit.toNat ≤ limit.toNat := (UInt64.lt_iff_toNat_lt.mp hl).le
    have hsub : (limit - lagLimit).toNat = limit.toNat - lagLimit.toNat := toNat_sub_of_toNat_le hle
    have hlt : limit.toNat < 2 ^ 64 := UInt64.toNat_lt limit
    rw [timeBefore_iff_top,UInt64.toNat_sub,hsub] at hb
    rw [hclamped,hsub]
    right
    omega

theorem clamp_bounds {limit vtime clamped : UInt64}
    (h : clamped.toNat = max vtime.toNat (limit.toNat - lagLimit.toNat)) :
    vtime.toNat ≤ clamped.toNat ∧ limit.toNat ≤ clamped.toNat + lagLimit.toNat := by
  omega

end ServerlessSched
