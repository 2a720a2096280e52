import ServerlessSched.Policy.TaskSlice

/-! # What the in-kernel parser means

`get_task_slice` is meant to give an infinite slice to the short jobs of the table and the
default to everything else, going by the arguments alone. It departs from that for numbers
that do not fit 64 bits, and for short areas with unmapped memory close behind them.
-/
namespace ServerlessSched.KernelAssigned
open Decimal

/-! ## Every access in bounds -/

/-- The loop with its accesses to the buffer checked; `none` is one out of bounds. -/
def scanChecked (cmdline : List UInt8) (totalLen : ℕ) : ℕ → ℕ → UInt64 → Bool → Option (UInt64 × Bool)
  | 0, _, fibArg, foundDigit => some (fibArg,foundDigit)
  | rounds + 1, i, fibArg, foundDigit =>
    match cmdline[i]? with
    | none => none
    | some c =>
      if totalLen - 1 ≤ i then some (fibArg,foundDigit)
      else if c = 0 then
        if foundDigit then some (fibArg,foundDigit)
        else scanChecked cmdline totalLen rounds (i + 1) fibArg foundDigit
      else if 48 ≤ c ∧ c ≤ 57 then
        scanChecked cmdline totalLen rounds (i + 1) (fibArg * 10 + (c - 48).toUInt64) true
      else if foundDigit then some (fibArg,foundDigit)
      else scanChecked cmdline totalLen rounds (i + 1) fibArg foundDigit

def translateEntry (slice : UInt64) : UInt64 :=
  if slice = 0 then sliceDfl else if slice = 1 then sliceInf else slice

/-- The table lookup, checked in the same way. -/
def lookupChecked (fibArg : UInt64) : Option UInt64 :=
  if fibArgMin ≤ fibArg ∧ fibArg ≤ fibArgMax then
    (fibSliceMap[(fibArg - fibArgMin).toNat]?).map translateEntry
  else some sliceDfl

/-- `get_task_slice` with all its indices checked, the one of the forced terminator too. -/
def getTaskSliceChecked (mm : Mm) : Option UInt64 :=
  if mm.argEnd - mm.argStart ≤ 0 then some sliceDfl
  else
    match mm.read (readStart mm) maxCmdlineLen with
    | none => some sliceDfl
    | some cmdline =>
      if (readLen mm - 1).toNat < cmdline.length then
        match scanChecked (cmdline.set (readLen mm - 1).toNat 0) (readLen mm).toNat (maxCmdlineLen - 1) 0 0 false with
        | none => none
        | some (_,false) => some sliceDfl
        | some (fibArg,true) => lookupChecked fibArg
      else none

theorem scanChecked_eq {cmdline : List UInt8} {totalLen rounds i : ℕ} (h : i + rounds ≤ cmdline.length)
    (fibArg : UInt64) (foundDigit : Bool) : scanChecked cmdline totalLen rounds i fibArg foundDigit =
      some (scanFibArg totalLen i ((cmdline.drop i).take rounds) fibArg foundDigit) := by
  induction rounds generalizing i fibArg foundDigit with
  | zero => simp [scanChecked,scanFibArg]
  | succ rounds ih =>
    have hi : i < cmdline.length := by omega
    rw [scanChecked,List.getElem?_eq_getElem hi,List.drop_eq_getElem_cons hi,List.take_succ_cons,scanFibArg]
    simp only [ih (i := i + 1) (by omega)]
    split_ifs <;> rfl

theorem lookupChecked_eq (fibArg : UInt64) : lookupChecked fibArg = some (lookupSlice fibArg) := by
  unfold lookupChecked lookupSlice
  by_cases h : fibArgMin ≤ fibArg ∧ fibArg ≤ fibArgMax
  · rw [if_pos h,if_pos h]
    obtain ⟨hmin,hmax⟩ := h
    have hlow : 24 ≤ fibArg.toNat := UInt64.le_iff_toNat_le.mp hmin
    have hhigh : fibArg.toNat ≤ 46 := UInt64.le_iff_toNat_le.mp hmax
    obtain ⟨n,hn⟩ : ∃ n, fibArg.toNat = n := ⟨_,rfl⟩
    have harg : fibArg = UInt64.ofNat n := by rw [← hn,UInt64.ofNat_toNat]
    rw [hn] at hlow hhigh
    subst harg
    interval_cases n <;> rfl
  · rw [if_neg h,if_neg h]

theorem readLen_le (mm : Mm) : (readLen mm).toNat ≤ 64 := by
  unfold readLen
  split
  case isTrue => exact le_rfl
  case isFalse h => exact Nat.le_of_not_lt (fun hlt => h (UInt64.lt_iff_toNat_lt.mpr hlt))

/-- No index ever leaves the buffer or the table. -/
theorem getTaskSliceChecked_eq (mm : Mm) : getTaskSliceChecked mm = some (getTaskSlice mm) := by
  unfold getTaskSliceChecked getTaskSlice
  by_cases hempty : mm.argEnd - mm.argStart ≤ 0
  · simp only [hempty,↓reduceIte]
  · simp only [hempty,↓reduceIte]
    cases hread : mm.read (readStart mm) maxCmdlineLen with
    | none => rfl
    | some cmdline =>
      have hbuf : cmdline.length = 64 := Mm.read_length hread
      have hpos : 1 ≤ readLen mm := by
        unfold readLen
        split
        case isTrue => decide
        case isFalse =>
          have hne : mm.argEnd - mm.argStart ≠ 0 := fun h => hempty (UInt64.le_zero_iff.mpr h)
          rw [UInt64.le_iff_toNat_le]
          exact Nat.pos_of_ne_zero fun h => hne (UInt64.toNat_inj.mp h)
      have hindex : (readLen mm - 1).toNat = (readLen mm).toNat - 1 := UInt64.toNat_sub_of_le _ _ hpos
      have hlen := readLen_le mm
      have hset : (cmdline.set ((readLen mm).toNat - 1) 0).length = 64 := by rw [List.length_set,hbuf]
      simp only [hindex]
      rw [if_pos (by omega),scanChecked_eq (by rw [hset]; decide),List.drop_zero]
      rcases hscan : scanFibArg (readLen mm).toNat 0
        ((cmdline.set ((readLen mm).toNat - 1) 0).take (maxCmdlineLen - 1)) 0 false with ⟨fibArg,foundDigit⟩
      cases foundDigit with
      | false => rfl
      | true => exact lookupChecked_eq fibArg

/-! ## The number in the window -/

/-- What the parser is for: the first number in the bytes is one of the table, with entry 1. -/
def NamesShortJob (bytes : List UInt8) : Prop :=
  (∃ b ∈ bytes, isDigit b = true) ∧
    fibArgMin.toNat ≤ value (firstRun bytes) ∧ value (firstRun bytes) ≤ fibArgMax.toNat ∧
    fibSliceMap[value (firstRun bytes) - fibArgMin.toNat]? = some 1

theorem entry_one_iff {n : ℕ} (hmin : 24 ≤ n) (hmax : n ≤ 46) : fibSliceMap[n - 24]? = some 1 ↔ n ≤ 35 := by
  interval_cases n <;> decide

theorem firstRun_eq_nil_of_no_digit {bytes : List UInt8} (h : ∀ b ∈ bytes, isDigit b = false) :
    firstRun bytes = [] := by
  have hrun := firstRun_append_of_no_digit h []
  rwa [List.append_nil,firstRun_nil] at hrun

theorem namesShortJob_iff (bytes : List UInt8) :
    NamesShortJob bytes ↔ ShortArg (value (firstRun bytes)) := by
  have hmin : fibArgMin.toNat = 24 := rfl
  have hmax : fibArgMax.toNat = 46 := rfl
  unfold NamesShortJob ShortArg
  rw [hmin,hmax]
  constructor
  · rintro ⟨-,hlow,hhigh,hentry⟩
    have hshort := (entry_one_iff hlow hhigh).mp hentry
    omega
  · rintro ⟨hlow,hhigh⟩
    refine ⟨?_,by omega,by omega,(entry_one_iff (by omega) (by omega)).mpr (by omega)⟩
    by_contra hnone
    have hno : ∀ b ∈ bytes, isDigit b = false := by simpa using hnone
    rw [firstRun_eq_nil_of_no_digit hno,value_nil] at hlow
    omega

theorem policySlice_eq_inf_iff (n : ℤ) : policySlice n = sliceInf ↔ ShortArg n := by
  have hne : sliceDfl ≠ sliceInf := by decide
  unfold policySlice
  split
  case isTrue h => exact iff_of_true rfl h
  case isFalse h => exact iff_of_false hne h

theorem policySlice_eq_dfl_iff (n : ℤ) : policySlice n = sliceDfl ↔ ¬ShortArg n := by
  have hne : sliceInf ≠ sliceDfl := by decide
  unfold policySlice
  split
  case isTrue h => exact iff_of_false hne (not_not_intro h)
  case isFalse h => exact iff_of_true rfl h

/-- The slice is the one the first number in the window calls for exactly if the number fits 64
bits, or at least does not wrap around into the short jobs; and every index is in bounds. -/
theorem getTaskSlice_exact_iff {mm : Mm} {area : List UInt8} (harea : mm.argArea = some area)
    (hread : area ≠ [] → (mm.read (readStart mm) maxCmdlineLen).isSome = true) :
    (((getTaskSlice mm = sliceInf ↔ NamesShortJob (window area)) ∧
        (getTaskSlice mm = sliceDfl ↔ ¬NamesShortJob (window area))) ↔
      value (firstRun (window area)) < 2 ^ 64 ∨
        ¬ShortArg (value (firstRun (window area)) % 2 ^ 64 : ℕ)) ∧
    getTaskSliceChecked mm = some (getTaskSlice mm) := by
  refine ⟨?_,getTaskSliceChecked_eq mm⟩
  have hslice : getTaskSlice mm = policySlice (scannedArg area) := by
    by_cases hempty : area = []
    · have hlen : area.length = (mm.argEnd - mm.argStart).toNat := Mm.read_length harea
      have hzero : mm.argEnd - mm.argStart ≤ 0 := by
        rw [UInt64.le_iff_toNat_le,← hlen,hempty]
        exact le_rfl
      subst hempty
      unfold getTaskSlice
      rw [if_pos hzero]
      rfl
    · obtain ⟨buf,hbuf⟩ := Option.isSome_iff_exists.mp (hread hempty)
      exact getTaskSlice_eq harea hbuf
  rw [hslice,namesShortJob_iff,policySlice_eq_inf_iff,policySlice_eq_dfl_iff,scannedArg]
  generalize value (firstRun (window area)) = n
  by_cases hfits : n < 2 ^ 64
  · rw [Nat.mod_eq_of_lt hfits]
    exact iff_of_true ⟨Iff.rfl,Iff.rfl⟩ (Or.inl hfits)
  · -- a number of more than 64 bits is no short job
    have hlong : ¬ShortArg (n : ℤ) := fun h => by
      unfold ShortArg at h
      omega
    generalize n % 2 ^ 64 = rest
    constructor
    · rintro ⟨hinf,-⟩
      exact Or.inr fun h => hlong (hinf.mp h)
    · rintro (h | h)
      · exact absurd h hfits
      · exact ⟨iff_of_false h hlong,iff_of_true h hlong⟩

/-- A job of 24 and one of 40 are told apart. -/
theorem getTaskSlice_exact_iff_short :
    getTaskSlice (Mm.ofArea 4096 [102,0,50,52,0]) = sliceInf ∧ NamesShortJob (window [102,0,50,52,0]) := by
  have hexact := ((getTaskSlice_exact_iff (by decide : (Mm.ofArea 4096 [102,0,50,52,0]).argArea = some [102,0,50,52,0])
    (fun _ => by decide)).1.mpr (Or.inl (by decide))).1
  have hnames : NamesShortJob (window [102,0,50,52,0]) :=
    ⟨⟨50,by decide,by decide⟩,by decide,by decide,by decide⟩
  exact ⟨hexact.mpr hnames,hnames⟩

/-- The area of `f 18446744073709551640`, a number of 2 ^ 64 + 24. -/
def wrappedArea : List UInt8 :=
  [102,0,49,56,52,52,54,55,52,52,48,55,51,55,48,57,53,53,49,54,52,48,0]

/-- The number wraps around to 24: a number outside the table is treated as a short job. -/
theorem wrapped_short : (Mm.ofArea 4096 wrappedArea).argArea = some wrappedArea ∧
    ((Mm.ofArea 4096 wrappedArea).read (readStart (Mm.ofArea 4096 wrappedArea)) maxCmdlineLen).isSome = true ∧
    value (firstRun (window wrappedArea)) = 2 ^ 64 + 24 ∧ ¬NamesShortJob (window wrappedArea) ∧
    getTaskSlice (Mm.ofArea 4096 wrappedArea) = sliceInf := by
  have hvalue : value (firstRun (window wrappedArea)) = 2 ^ 64 + 24 := by decide
  refine ⟨by decide,by decide,hvalue,?_,by decide⟩
  rintro ⟨-,-,hmax,-⟩
  rw [hvalue] at hmax
  exact absurd hmax (by decide)

/-! ## What follows the area -/

/-- Memory is mapped up to 64 bytes from the start of the area; nothing is asked of an area of
64 bytes or more. -/
def Covered (mm : Mm) : Prop :=
  (mm.read mm.argEnd (maxCmdlineLen - (mm.argEnd - mm.argStart).toNat)).isSome = true

theorem read_isSome_iff_covered {mm : Mm} {area : List UInt8} (harea : mm.argArea = some area) :
    (mm.read (readStart mm) maxCmdlineLen).isSome = true ↔ Covered mm := by
  have hsome : (mm.read mm.argStart (mm.argEnd - mm.argStart).toNat).isSome = true := by
    unfold Mm.argArea at harea
    rw [harea]
    rfl
  generalize hlen : (mm.argEnd - mm.argStart).toNat = len at hsome
  have hend : mm.argEnd = mm.argStart + UInt64.ofNat len := by
    rw [← hlen,UInt64.ofNat_toNat,UInt64.add_comm,UInt64.sub_add_cancel]
  unfold Covered readStart maxCmdlineLen
  rw [hlen]
  by_cases hlong : mm.argEnd - mm.argStart > 64
  · have hlt : 64 < len := by
      rw [← hlen]
      exact UInt64.lt_iff_toNat_lt.mp hlong
    obtain ⟨m,rfl⟩ : ∃ m, len = m + 64 := ⟨len - 64,by omega⟩
    have hstart : mm.argEnd - 64 = mm.argStart + UInt64.ofNat m := by
      rw [hend,UInt64.ofNat_add,← UInt64.add_assoc]
      exact UInt64.add_sub_cancel _ _
    rw [if_pos hlong,hstart,Nat.sub_eq_zero_of_le hlt.le]
    exact iff_of_true ((Mm.read_add_isSome m 64).mp hsome).2 rfl
  · have hle : len ≤ 64 := by
      rw [← hlen]
      exact Nat.le_of_not_lt (fun h => hlong (UInt64.lt_iff_toNat_lt.mpr h))
    have hsum : len + (64 - len) = 64 := by omega
    have hparts := @Mm.read_add_isSome mm mm.argStart len (64 - len)
    rw [hsum,← hend] at hparts
    rw [if_neg hlong,hparts]
    exact and_iff_right hsome

theorem getTaskSlice_of_covered {mm : Mm} {area : List UInt8} (harea : mm.argArea = some area)
    (hcovered : Covered mm) : getTaskSlice mm = policySlice (scannedArg area) := by
  obtain ⟨buf,hbuf⟩ := Option.isSome_iff_exists.mp ((read_isSome_iff_covered harea).mpr hcovered)
  exact getTaskSlice_eq harea hbuf

theorem getTaskSlice_of_not_covered {mm : Mm} {area : List UInt8} (harea : mm.argArea = some area)
    (hcovered : ¬Covered mm) : getTaskSlice mm = sliceDfl := by
  have hnone : mm.read (readStart mm) maxCmdlineLen = none := by
    rw [← read_isSome_iff_covered harea] at hcovered
    simpa using hcovered
  unfold getTaskSlice
  rw [hnone]
  exact ite_self _

/-- Two address spaces with the same argument area give the same slice exactly if it is not
that of a short job, or the memory close behind the area is mapped in both or in neither. -/
theorem getTaskSlice_same_iff {mm mm' : Mm} {area : List UInt8} (hstart : mm'.argStart = mm.argStart)
    (hend : mm'.argEnd = mm.argEnd) (harea : mm.argArea = some area) (harea' : mm'.argArea = some area) :
    (getTaskSlice mm = getTaskSlice mm' ↔
      ¬ShortArg (scannedArg area) ∨ (Covered mm ↔ Covered mm')) ∧
    (64 ≤ (mm.argEnd - mm.argStart).toNat → getTaskSlice mm = getTaskSlice mm') := by
  have hne : sliceInf ≠ sliceDfl := by decide
  constructor
  · by_cases hc : Covered mm <;> by_cases hc' : Covered mm'
    · rw [getTaskSlice_of_covered harea hc,getTaskSlice_of_covered harea' hc']
      simp [hc,hc']
    · rw [getTaskSlice_of_covered harea hc,getTaskSlice_of_not_covered harea' hc',policySlice_eq_dfl_iff]
      simp [hc,hc']
    · rw [getTaskSlice_of_not_covered harea hc,getTaskSlice_of_covered harea' hc',eq_comm,
        policySlice_eq_dfl_iff]
      simp [hc,hc']
    · rw [getTaskSlice_of_not_covered harea hc,getTaskSlice_of_not_covered harea' hc']
      simp [hc,hc']
  · intro hlong
    have hnone : maxCmdlineLen - (mm.argEnd - mm.argStart).toNat = 0 := Nat.sub_eq_zero_of_le hlong
    have hc : Covered mm := by
      unfold Covered
      rw [hnone]
      rfl
    have hc' : Covered mm' := by
      unfold Covered
      rw [hstart,hend,hnone]
      rfl
    rw [getTaskSlice_of_covered harea hc,getTaskSlice_of_covered harea' hc']

/-- The area of `f 30` with nothing mapped behind it. -/
def bareArea : Mm where
  argStart := 4096
  argEnd := 4101
  byte a := if a < 4101 then (Mm.ofArea 4096 [102,0,51,48,0]).byte a else none

/-- The same arguments get the infinite slice with other data behind them, and the default
slice at the end of the mapped memory. -/
theorem slice_depends_on_mapping :
    (Mm.ofArea 4096 [102,0,51,48,0]).argArea = some [102,0,51,48,0] ∧ bareArea.argArea = some [102,0,51,48,0] ∧
    bareArea.argStart = (Mm.ofArea 4096 [102,0,51,48,0]).argStart ∧
    bareArea.argEnd = (Mm.ofArea 4096 [102,0,51,48,0]).argEnd ∧
    getTaskSlice (Mm.ofArea 4096 [102,0,51,48,0]) = sliceInf ∧ getTaskSlice bareArea = sliceDfl := by
  decide

/-- A job of 40 gets the default slice in both. -/
theorem getTaskSlice_same_iff_long :
    getTaskSlice (Mm.ofArea 4096 [102,0,52,48,0]) =
      getTaskSlice ⟨4096,4101,fun a => if a < 4101 then (Mm.ofArea 4096 [102,0,52,48,0]).byte a else none⟩ :=
  (@getTaskSlice_same_iff (Mm.ofArea 4096 [102,0,52,48,0])
    ⟨4096,4101,fun a => if a < 4101 then (Mm.ofArea 4096 [102,0,52,48,0]).byte a else none⟩
    [102,0,52,48,0] rfl rfl (by decide) (by decide)).1.mpr (Or.inl (by decide))

end ServerlessSched.KernelAssigned
