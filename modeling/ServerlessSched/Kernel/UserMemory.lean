import Mathlib.Data.UInt

/-! # User memory and the argument area

The memory of a process as the readers of its command line see it: the bounds of the
argument area and a byte at every mapped address. A read that meets an unmapped byte
fails as a whole.
-/
namespace ServerlessSched

/-- User memory as far as the argument area needs it; `none` is an unmapped byte. -/
structure Mm where
  argStart : UInt64
  argEnd : UInt64
  byte : UInt64 → Option UInt8

namespace Mm

/-- Copy `n` bytes from `start` on; fails when one of them is unmapped. -/
def read (mm : Mm) (start : UInt64) : ℕ → Option (List UInt8)
  | 0 => some []
  | n + 1 =>
    match mm.byte start,mm.read (start + 1) n with
    | some b,some rest => some (b :: rest)
    | _,_ => none

/-- The argument area: the argument strings, each followed by a NUL. -/
def argArea (mm : Mm) : Option (List UInt8) :=
  mm.read mm.argStart (mm.argEnd - mm.argStart).toNat

/-- A process whose argument area holds the given bytes, with zeros around them. -/
def ofArea (start : UInt64) (area : List UInt8) : Mm where
  argStart := start
  argEnd := start + UInt64.ofNat area.length
  byte a := some (area.getD (a - start).toNat 0)

variable {mm : Mm} {start : UInt64} {bs : List UInt8}

theorem read_succ {n : ℕ} (h : mm.read start (n + 1) = some bs) :
    ∃ b rest, mm.byte start = some b ∧ mm.read (start + 1) n = some rest ∧ bs = b :: rest := by
  rw [read] at h
  split at h
  case h_1 b rest hb hr =>
    cases h
    exact ⟨b,rest,hb,hr,rfl⟩
  case h_2 => cases h

theorem read_length {n : ℕ} (h : mm.read start n = some bs) : bs.length = n := by
  induction n generalizing start bs with
  | zero => cases h; rfl
  | succ n ih =>
    obtain ⟨b,rest,-,hr,rfl⟩ := read_succ h
    rw [List.length_cons,ih hr]

theorem read_take {m n : ℕ} (hmn : m ≤ n) (h : mm.read start n = some bs) :
    mm.read start m = some (bs.take m) := by
  induction m generalizing start bs n with
  | zero => rfl
  | succ m ih =>
    obtain ⟨n,rfl⟩ : ∃ l, n = l + 1 := ⟨n - 1,by omega⟩
    obtain ⟨b,rest,hb,hr,rfl⟩ := read_succ h
    rw [read,hb,ih (by omega) hr]
    rfl

theorem read_drop {m n : ℕ} (h : mm.read start (m + n) = some bs) :
    mm.read (start + UInt64.ofNat m) n = some (bs.drop m) := by
  induction m generalizing start bs with
  | zero =>
    rw [Nat.zero_add] at h
    simpa using h
  | succ m ih =>
    rw [Nat.add_right_comm] at h
    obtain ⟨b,rest,-,hr,rfl⟩ := read_succ h
    have hstart : start + UInt64.ofNat (m + 1) = start + 1 + UInt64.ofNat m := by
      rw [UInt64.ofNat_add,UInt64.add_assoc,UInt64.add_comm (UInt64.ofNat m)]
      rfl
    rw [hstart]
    exact ih hr

/-- A read succeeds exactly if its two parts do. -/
theorem read_add_isSome (m n : ℕ) : (mm.read start (m + n)).isSome = true ↔
    (mm.read start m).isSome = true ∧ (mm.read (start + UInt64.ofNat m) n).isSome = true := by
  induction m generalizing start with
  | zero => simp [read]
  | succ m ih =>
    have hstart : start + UInt64.ofNat (m + 1) = start + 1 + UInt64.ofNat m := by
      rw [UInt64.ofNat_add,UInt64.add_assoc,UInt64.add_comm (UInt64.ofNat m)]
      rfl
    have hread : ∀ n, (mm.read start (n + 1)).isSome = true ↔
        (mm.byte start).isSome = true ∧ (mm.read (start + 1) n).isSome = true := by
      intro n
      rw [read]
      cases mm.byte start <;> cases mm.read (start + 1) n <;> simp
    rw [Nat.add_right_comm,hread,hread,ih,hstart,and_assoc]

end Mm

end ServerlessSched
