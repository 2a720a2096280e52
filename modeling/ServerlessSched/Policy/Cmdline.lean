import ServerlessSched.Library.CString
import ServerlessSched.Policy.TaskSlice

/-! # The slice the userspace daemon requests

The daemon reads at most 511 bytes of `/proc/<pid>/cmdline`, turns the NULs between the
arguments into blanks and converts what follows the last blank. The consumer in the
kernel translates the requested values 0 and 1.
-/
namespace ServerlessSched.UserAssigned
open CString Decimal

/-- Argument and requested slice: 1 stands for an infinite slice, 0 for the default. -/
def fibSliceMap : List (ℤ × UInt64) :=
  [(24,1), (25,1), (26,1), (27,1), (28,1), (29,1), (30,1), (31,1), (32,1), (33,1), (34,1), (35,1),
    (36,0), (37,0), (38,0), (39,0), (40,0), (41,0), (42,0), (43,0), (44,0), (45,0), (46,0)]

def fibArgMin : ℤ := 24
def fibArgMax : ℤ := 46

def blank (b : UInt8) : UInt8 := if b = 0 then 32 else b

/-- The loop over all bytes read but the last. -/
def blankNuls (buf : List UInt8) : List UInt8 :=
  (buf.take (buf.length - 1)).map blank ++ buf.drop (buf.length - 1)

/-- `read_cmdline` with a buffer of `size` bytes; `file` is what `/proc` holds, `none` when
it cannot be opened. The result is the used part of the buffer with its NUL. -/
def readCmdline (file : Option (List UInt8)) (size : ℕ) : Option (List UInt8) :=
  match file with
  | none => none
  | some bytes =>
    let buf := bytes.take (size - 1)
    if buf.length = 0 then none else some (blankNuls buf ++ [0])

def parseFibArgFromCmdline (cmdline : List UInt8) : ℤ :=
  match strrchr 32 (cstr cmdline) with
  | none => -1
  | some lastSpace =>
    let arg := atoi lastSpace.tail
    if arg ≤ 0 then -1 else arg

def getSliceForFibArg (fibArg : ℤ) : UInt64 :=
  if fibArg < fibArgMin ∨ fibArg > fibArgMax then 0
  else (fibSliceMap.getD (fibArg - fibArgMin).toNat (0,0)).2

/-- The slice a task is enqueued with: 0 unless its command line ends in a known number. -/
def requestedSlice (file : Option (List UInt8)) : UInt64 :=
  match readCmdline file 512 with
  | none => 0
  | some cmdline =>
    if parseFibArgFromCmdline cmdline < 0 then 0
    else getSliceForFibArg (parseFibArgFromCmdline cmdline)

/-- The translation in the decision consumer. -/
def translateSlice (slice : UInt64) : UInt64 :=
  if slice ≤ 1 then if slice = 0 then sliceDfl else sliceInf else slice

theorem translateSlice_getSliceForFibArg (n : ℤ) :
    translateSlice (getSliceForFibArg n) = policySlice n := by
  unfold getSliceForFibArg fibArgMin fibArgMax
  by_cases h : n < 24 ∨ n > 46
  · rw [if_pos h,policySlice,if_neg (by unfold ShortArg; omega)]
    rfl
  · rw [if_neg h]
    obtain ⟨hlow,hhigh⟩ := not_or.mp h
    have hlow' : 24 ≤ n := by omega
    have hhigh' : n ≤ 46 := by omega
    interval_cases n <;> rfl

/-! ## What the daemon's parser reads -/

/-- The bytes of the image the daemon parses: the first 511, a NUL at their end dropped. -/
def parsedBytes (area : List UInt8) : List UInt8 :=
  if (area.take 511).getLast? = some 0 then (area.take 511).dropLast else area.take 511

def isSeparator (b : UInt8) : Bool := b = 0 || b = 32

def lastField (area : List UInt8) : Option (List UInt8) :=
  if (parsedBytes area).any isSeparator then
    some ((parsedBytes area).reverse.takeWhile (fun b => !isSeparator b)).reverse
  else none

/-- The number the daemon finds in an argument area, 0 when there is no separator. -/
def parsedArg (area : List UInt8) : ℤ := ((lastField area).map atoi).getD 0

private theorem blank_eq_blank_iff (b : UInt8) : blank b = 32 ↔ isSeparator b = true := by
  unfold blank isSeparator
  by_cases hb : b = 0 <;> simp [hb]

private theorem blank_ne_zero (b : UInt8) : blank b ≠ 0 := by
  unfold blank
  split
  case isTrue => decide
  case isFalse h => exact h

private theorem blank_of_not_separator {b : UInt8} (h : isSeparator b = false) : blank b = b := by
  have hb : b ≠ 0 := by
    rintro rfl
    cases h
  exact if_neg hb

private theorem zero_notMem_blank (bs : List UInt8) : (0 : UInt8) ∉ bs.map blank := by
  intro h
  obtain ⟨b,-,hb⟩ := List.mem_map.mp h
  exact blank_ne_zero b hb

theorem cstr_readCmdline {area : List UInt8} (hne : area.take 511 ≠ []) :
    cstr (blankNuls (area.take 511) ++ [0]) = (parsedBytes area).map blank := by
  unfold parsedBytes
  generalize area.take 511 = buf at hne ⊢
  obtain ⟨init,last,rfl⟩ : ∃ init last, buf = init ++ [last] :=
    ⟨buf.dropLast,buf.getLast hne,(List.dropLast_append_getLast hne).symm⟩
  have hblank : blankNuls (init ++ [last]) = init.map blank ++ [last] := by simp [blankNuls]
  rw [hblank,List.getLast?_concat,List.dropLast_concat]
  by_cases hlast : last = 0
  · subst hlast
    rw [if_pos rfl,List.append_assoc]
    exact cstr_append_nul (zero_notMem_blank init) _
  · have hnul : (0 : UInt8) ∉ init.map blank ++ [last] := by
      rw [List.mem_append,not_or]
      exact ⟨zero_notMem_blank init,fun h => hlast (List.mem_singleton.mp h).symm⟩
    rw [if_neg (fun h => hlast (Option.some.inj h)),cstr_append_nul hnul]
    simp [blank,hlast]

private theorem strrchr_blank (bs : List UInt8) :
    strrchr 32 (bs.map blank) =
      if bs.any isSeparator then
        some (32 :: (bs.reverse.takeWhile (fun b => !isSeparator b)).reverse)
      else none := by
  have hmem : (32 : UInt8) ∈ bs.map blank ↔ bs.any isSeparator = true := by
    simp only [List.mem_map,List.any_eq_true,blank_eq_blank_iff]
  have htake : (bs.map blank).reverse.takeWhile (fun b => b ≠ 32) =
      bs.reverse.takeWhile (fun b => !isSeparator b) := by
    rw [← List.map_reverse]
    generalize bs.reverse = rs
    induction rs with
    | nil => rfl
    | cons b rs ih =>
      rw [List.map_cons,List.takeWhile_cons,List.takeWhile_cons]
      cases hb : isSeparator b with
      | true => simp [(blank_eq_blank_iff b).mpr hb]
      | false =>
        have hne : blank b ≠ 32 := by
          rw [Ne,blank_eq_blank_iff,hb]
          decide
        simp only [hne,ne_eq,not_false_eq_true,decide_true,↓reduceIte,Bool.not_false]
        rw [blank_of_not_separator hb]
        exact congrArg (b :: ·) (by simpa using ih)
  rw [strrchr_eq,htake]
  by_cases h : bs.any isSeparator = true
  · rw [if_pos (hmem.mpr h),if_pos h]
  · rw [if_neg (mt hmem.mp h),if_neg h]

theorem readCmdline_of_ne_nil {area : List UInt8} (hne : area.take 511 ≠ []) :
    readCmdline (some area) 512 = some (blankNuls (area.take 511) ++ [0]) := by
  have hlen : (area.take (512 - 1)).length ≠ 0 := fun h => hne (List.eq_nil_of_length_eq_zero h)
  simp only [readCmdline,hlen,↓reduceIte]

theorem parseFibArgFromCmdline_blankNuls {area : List UInt8} (hne : area.take 511 ≠ []) :
    parseFibArgFromCmdline (blankNuls (area.take 511) ++ [0]) =
      if parsedArg area ≤ 0 then -1 else parsedArg area := by
  rw [parseFibArgFromCmdline,cstr_readCmdline hne,strrchr_blank]
  unfold parsedArg lastField
  by_cases hsep : (parsedBytes area).any isSeparator = true
  · simp only [hsep,↓reduceIte,List.tail_cons,Option.map_some,Option.getD_some]
    rfl
  · simp [hsep]

theorem translateSlice_requestedSlice (area : List UInt8) :
    translateSlice (requestedSlice (some area)) = policySlice (parsedArg area) := by
  by_cases hne : area.take 511 = []
  · have harea : area = [] := by
      cases area with
      | nil => rfl
      | cons b bs => cases hne
    subst harea
    rfl
  · simp only [requestedSlice,readCmdline_of_ne_nil hne,parseFibArgFromCmdline_blankNuls hne]
    by_cases hpos : parsedArg area ≤ 0
    · rw [if_pos hpos,if_pos (by decide),policySlice,if_neg (by unfold ShortArg; omega)]
      rfl
    · rw [if_neg hpos,if_neg (by omega),translateSlice_getSliceForFibArg]

end ServerlessSched.UserAssigned
