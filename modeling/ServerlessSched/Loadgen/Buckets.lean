import ServerlessSched.Library.Accumulation
import ServerlessSched.Loadgen.Workload
import Mathlib.Data.Rat.Floor

/-! # From the trace to the schedule

The generator adds up the invocations of all functions of one duration, adds the durations up
into one bucket for each calibrated argument, and spreads each bucket over its minute.
-/
namespace ServerlessSched.Loadgen

/-- A row of the merged table: `HashFunction`, `Average` and the columns `1` and `2`. -/
structure FunctionRow where
  hashFunction : String
  average : ℚ
  first : ℕ
  second : ℕ

namespace FunctionRow

def occurList (row : FunctionRow) : List ℕ := [row.first,row.second]

end FunctionRow

def filterRows (table : List FunctionRow) : List FunctionRow :=
  (table.filter (fun row => row.average > 0)).filter (fun row => row.average < 180000)

/-- What `sort_values` may return: its sort is not stable. -/
def SortValues (table df : List FunctionRow) : Prop :=
  df.Perm table ∧ df.Pairwise (fun a b => a.average ≤ b.average)

def addOccur (xs ys : List ℕ) : List ℕ := (xs.zip ys).map (fun x => x.1 + x.2)

/-- The dictionary from durations to occurrences, in the order in which durations turn up. -/
abbrev DurationDict := List (ℚ × List ℕ)

def DurationDict.addRow (dict : DurationDict) (row : FunctionRow) : DurationDict :=
  accumulate [0,0] (fun counts => addOccur counts row.occurList) row.average dict

def durationDict (df : List FunctionRow) : DurationDict := df.foldl DurationDict.addRow []

def durList : List ℚ :=
  [7,8,9,10,12,14,17,21,27,39,56,85,131,205,325,520,838,1347,2175,3512,5673,9172,14835]

def fib : List ℕ :=
  [24,25,26,27,28,29,30,31,32,33,34,35,36,37,38,39,40,41,42,43,44,45,46]

/-- Where the loop over the durations breaks. -/
def bucketIndex (duration : ℚ) : Option ℕ :=
  (List.range durList.length).find? (fun i =>
    duration ≤ durList.getD i 0 ∨ i = durList.length - 1 ∧ duration > durList.getD i 0)

def bucketOccurrence (bucket : ℕ → List ℕ) (entry : ℚ × List ℕ) : ℕ → List ℕ :=
  match bucketIndex entry.1 with
  | none => bucket
  | some i => Function.update bucket (fib.getD i 0) (addOccur (bucket (fib.getD i 0)) entry.2)

def fillBucket (durationOccurrence : DurationDict) : ℕ → List ℕ :=
  durationOccurrence.foldl bucketOccurrence (fun _ => [0,0])

/-- The cell of `arg_df` for an argument and a minute. -/
def argDf (df : List FunctionRow) (arg minute : ℕ) : ℕ := (fillBucket (durationDict df) arg).getD minute 0

/-- The sorted schedule of a whole run of the generator. -/
def schedule (df : List FunctionRow) (downscale : ℚ) : List Invocation :=
  sortList (occurTime (argDf df) downscale)

/-! ## The calibration -/

/-- The pairs of an argument and its calibrated duration. -/
def calibration : List (ℕ × ℚ) := fib.zip durList

/-- The smallest argument that takes at least the duration, the largest one if none does. -/
def CalibratedFor (duration : ℚ) (arg : ℕ) : Prop :=
  ∃ d, (arg,d) ∈ calibration ∧
    ((duration ≤ d ∧ ∀ e ∈ calibration, duration ≤ e.2 → arg ≤ e.1) ∨
      ∀ e ∈ calibration, e.2 < duration ∧ e.1 ≤ arg)

def bucketArg (duration : ℚ) : ℕ := fib.getD ((bucketIndex duration).getD 0) 0

/-- The loop breaks at the first duration that is not exceeded, or at the last one. -/
theorem bucketIndex_spec (duration : ℚ) : ∃ i < 23, bucketIndex duration = some i ∧
    (∀ j < i, durList.getD j 0 < duration) ∧
      (duration ≤ durList.getD i 0 ∨ i = 22 ∧ durList.getD i 0 < duration) := by
  have hlength : durList.length = 23 := rfl
  cases hfind : bucketIndex duration with
  | none =>
    have hlast := List.find?_range_eq_none.mp hfind 22 (by decide)
    rw [Bool.not_eq_true',decide_eq_false_iff_not] at hlast
    rcases le_or_gt duration (durList.getD 22 0) with hle | hgt
    · exact absurd (Or.inl hle) hlast
    · exact absurd (Or.inr ⟨rfl,hgt⟩) hlast
  | some i =>
    obtain ⟨hi,hmem,hbefore⟩ := List.find?_range_eq_some.mp hfind
    rw [List.mem_range,hlength] at hmem
    refine ⟨i,hmem,rfl,fun j hj => ?_,?_⟩
    · have hnot := hbefore j hj
      rw [Bool.not_eq_true',decide_eq_false_iff_not] at hnot
      exact not_le.mp (fun hle => hnot (Or.inl hle))
    · rcases of_decide_eq_true hi with hle | ⟨hlast,hgt⟩
      · exact Or.inl hle
      · rw [hlength] at hlast
        exact Or.inr ⟨hlast,hgt⟩

theorem fib_getD : ∀ i < 23, fib.getD i 0 = i + 24 := by decide

theorem mem_calibration : ∀ i < 23, (i + 24,durList.getD i 0) ∈ calibration := by decide

theorem exists_index : ∀ e ∈ calibration, ∃ i < 23, e = (i + 24,durList.getD i 0) := by decide

theorem calibratedFor_bucketArg (duration : ℚ) : CalibratedFor duration (bucketArg duration) := by
  obtain ⟨i,hi,hindex,hbefore,hbreak⟩ := bucketIndex_spec duration
  have harg : bucketArg duration = i + 24 := by
    rw [bucketArg,hindex]
    exact fib_getD i hi
  rw [harg]
  refine ⟨_,mem_calibration i hi,hbreak.imp (fun hle => ⟨hle,fun e he hreached => ?_⟩) (fun hlast e he => ?_)⟩
  · obtain ⟨j,-,rfl⟩ := exists_index e he
    have hij : i ≤ j := by
      by_contra hlt
      exact absurd hreached (not_le.mpr (hbefore j (not_le.mp hlt)))
    exact Nat.add_le_add_right hij 24
  · obtain ⟨j,hj,rfl⟩ := exists_index e he
    obtain ⟨rfl,hgt⟩ := hlast
    refine ⟨?_,by dsimp only; omega⟩
    rcases Nat.lt_succ_iff_lt_or_eq.mp hj with hlt | rfl
    · exact hbefore j hlt
    · exact hgt

theorem CalibratedFor.unique {duration : ℚ} {a b : ℕ} (ha : CalibratedFor duration a)
    (hb : CalibratedFor duration b) : a = b := by
  obtain ⟨d,had,ha⟩ := ha
  obtain ⟨d',hbd,hb⟩ := hb
  rcases ha with ⟨hle,hleast⟩ | hall <;> rcases hb with ⟨hle',hleast'⟩ | hall'
  · exact le_antisymm (hleast _ hbd hle') (hleast' _ had hle)
  · exact absurd hle (not_le.mpr (hall' _ had).1)
  · exact absurd hle' (not_le.mpr (hall _ hbd).1)
  · exact le_antisymm (hall' _ had).2 (hall _ hbd).2

theorem bucketArg_eq_iff {duration : ℚ} {arg : ℕ} : bucketArg duration = arg ↔ CalibratedFor duration arg :=
  ⟨fun h => h ▸ calibratedFor_bucketArg duration,fun h => (calibratedFor_bucketArg duration).unique h⟩

theorem bucketArg_mem (duration : ℚ) : bucketArg duration ∈ fibArgs := by
  obtain ⟨i,hi,hindex,-⟩ := bucketIndex_spec duration
  have harg : bucketArg duration = i + 24 := by
    rw [bucketArg,hindex]
    exact fib_getD i hi
  rw [harg,fibArgs,List.mem_range'_1]
  omega

/-! ## The totals -/

theorem length_addOccur {xs ys : List ℕ} (h : xs.length = ys.length) : (addOccur xs ys).length = ys.length := by
  simp [addOccur,h]

theorem getD_addOccur {xs ys : List ℕ} (h : xs.length = ys.length) (m : ℕ) :
    (addOccur xs ys).getD m 0 = xs.getD m 0 + ys.getD m 0 := by
  rcases lt_or_ge m ys.length with hm | hm
  · have hx : m < xs.length := h ▸ hm
    simp [addOccur,List.getD_eq_getElem?_getD,hm,hx]
  · have hx : xs.length ≤ m := h ▸ hm
    simp [addOccur,List.getD_eq_getElem?_getD,hm,hx]

theorem getD_zeros (m : ℕ) : ([0,0] : List ℕ).getD m 0 = 0 := by
  rcases m with _ | _ | m <;> rfl

/-- What a minute counts of the durations that `p` selects. -/
def selected (p : ℚ → Prop) [DecidablePred p] (m : ℕ) (duration : ℚ) (counts : List ℕ) : ℕ :=
  if p duration then counts.getD m 0 else 0

section Totals
variable (p : ℚ → Prop) [DecidablePred p] (m : ℕ)

/-- Both minutes are there in every entry. -/
def DurationDict.Full (dict : DurationDict) : Prop := ∀ e ∈ dict, e.2.length = 2

def DurationDict.total (dict : DurationDict) : ℕ := (dict.map (fun e => selected p m e.1 e.2)).sum

theorem selected_addOccur {duration : ℚ} {xs ys : List ℕ} (h : xs.length = ys.length) :
    selected p m duration (addOccur xs ys) = selected p m duration xs + selected p m duration ys := by
  unfold selected
  split
  case isTrue => exact getD_addOccur h m
  case isFalse => rfl

theorem selected_zeros (duration : ℚ) : selected p m duration [0,0] = 0 := by
  unfold selected
  rw [getD_zeros,ite_self]

variable {p m} {dict : DurationDict} {row : FunctionRow}

theorem addRow_full (h : dict.Full) : (dict.addRow row).Full := by
  have hkept : ∀ counts : List ℕ, counts.length = 2 → (addOccur counts row.occurList).length = 2 :=
    fun counts hcounts => length_addOccur hcounts
  exact @forall_accumulate ℚ (List ℕ) _ [0,0] (fun counts => addOccur counts row.occurList) row.average
    (fun counts => counts.length = 2) dict rfl hkept h

theorem addRow_total (h : dict.Full) : (dict.addRow row).total p m =
    dict.total p m + selected p m row.average row.occurList := by
  have hadded : ∀ counts : List ℕ, counts.length = 2 → selected p m row.average (addOccur counts row.occurList) =
      selected p m row.average counts + selected p m row.average row.occurList :=
    fun counts hcounts => selected_addOccur p m hcounts
  exact sum_accumulate (selected_zeros p m row.average) (show [0,0].length = 2 from rfl) hadded h

theorem foldl_addRow (h : dict.Full) (df : List FunctionRow) : (df.foldl DurationDict.addRow dict).Full ∧
    (df.foldl DurationDict.addRow dict).total p m =
      dict.total p m + (df.map (fun row => selected p m row.average row.occurList)).sum := by
  induction df generalizing dict with
  | nil => exact ⟨h,rfl⟩
  | cons row df ih =>
    have hadded : (dict.addRow row).Full := addRow_full h
    obtain ⟨hfull,htotal⟩ := ih hadded
    refine ⟨hfull,?_⟩
    rw [List.foldl_cons,htotal,addRow_total h,List.map_cons,List.sum_cons,Nat.add_assoc]

theorem bucketOccurrence_apply (bucket : ℕ → List ℕ) (entry : ℚ × List ℕ) (arg : ℕ) :
    bucketOccurrence bucket entry arg =
      if bucketArg entry.1 = arg then addOccur (bucket arg) entry.2 else bucket arg := by
  obtain ⟨i,-,hindex,-⟩ := bucketIndex_spec entry.1
  unfold bucketOccurrence bucketArg
  rw [hindex]
  dsimp only [Option.getD_some]
  split
  case isTrue harg =>
    subst harg
    exact Function.update_self _ _ _
  case isFalse harg => exact Function.update_of_ne (Ne.symm harg) _ _

theorem foldl_bucketOccurrence {bucket : ℕ → List ℕ} (arg : ℕ) (hbucket : (bucket arg).length = 2)
    (h : dict.Full) : (dict.foldl bucketOccurrence bucket arg).getD m 0 =
      (bucket arg).getD m 0 + dict.total (fun duration => bucketArg duration = arg) m := by
  induction dict generalizing bucket with
  | nil => rfl
  | cons entry dict ih =>
    obtain ⟨hentry,hrest⟩ := List.forall_mem_cons.mp h
    have hlengths : (bucket arg).length = entry.2.length := hbucket.trans hentry.symm
    have hnew : (bucketOccurrence bucket entry arg).length = 2 := by
      rw [bucketOccurrence_apply]
      split
      case isTrue => exact (length_addOccur hlengths).trans hentry
      case isFalse => exact hbucket
    have hcell : (bucketOccurrence bucket entry arg).getD m 0 =
        (bucket arg).getD m 0 + selected (fun duration => bucketArg duration = arg) m entry.1 entry.2 := by
      rw [bucketOccurrence_apply]
      unfold selected
      split
      case isTrue => exact getD_addOccur hlengths m
      case isFalse => rfl
    rw [List.foldl_cons,ih hnew hrest,hcell,Nat.add_assoc]
    rfl

/-- A cell of `arg_df` counts exactly the rows whose duration belongs to the argument. -/
theorem argDf_eq (df : List FunctionRow) (arg : ℕ) : argDf df arg m =
    ((df.filter (fun row => bucketArg row.average = arg)).map (fun row => row.occurList.getD m 0)).sum := by
  have hempty : DurationDict.Full [] := List.forall_mem_nil _
  obtain ⟨hfull,htotal⟩ := foldl_addRow (p := fun duration => bucketArg duration = arg) (m := m) hempty df
  have hdict : (durationDict df).total (fun duration => bucketArg duration = arg) m = _ :=
    htotal.trans (Nat.zero_add _)
  have hcell : argDf df arg m = ([0,0] : List ℕ).getD m 0 + (durationDict df).total _ m :=
    foldl_bucketOccurrence arg rfl hfull
  rw [hcell,getD_zeros,Nat.zero_add,hdict,sum_filter_eq_sum_ite]
  rfl

end Totals
/-! ## The schedule -/

theorem toString_injective : ∀ a ∈ fibArgs, ∀ b ∈ fibArgs, toString a = toString b → a = b := by
  decide

section Schedule
variable {downscale : ℚ} {minute arg count : ℕ} {i : Invocation}

/-- The items of an argument in a minute: as many as the rounded share, evenly from the start on. -/
theorem invocationsOf_eq (downscale : ℚ) (minute arg count : ℕ) : invocationsOf downscale minute arg count =
    (List.range ⌊count / downscale⌋₊).map
      (fun n : ℕ => (⟨60 * minute + n * (60 * downscale / count),toString arg⟩ : Invocation)) := by
  have hfloor : (count / downscale : ℚ).floor.toNat = ⌊count / downscale⌋₊ := by
    change ⌊(count / downscale : ℚ)⌋.toNat = _
    exact Int.floor_toNat (count / downscale : ℚ)
  have hstep : (60 : ℚ) / (count / downscale) = 60 * downscale / count := div_div_eq_mul_div 60 _ _
  unfold invocationsOf
  dsimp only
  rw [hfloor,hstep]
  simp only [bind_pure_comp,List.map_eq_map,List.map_map]
  apply List.map_congr_left
  intro n _
  rw [Function.comp_apply,mul_comm (minute : ℚ) 60]

theorem step_nonneg (hpos : 0 < downscale) (count : ℕ) : 0 ≤ 60 * downscale / count :=
  div_nonneg (by linarith) (Nat.cast_nonneg count)

theorem invocationsOf_spec (hpos : 0 < downscale) (h : i ∈ invocationsOf downscale minute arg count) :
    i.arg = toString arg ∧ 60 * minute ≤ i.time ∧ i.time < 60 * minute + 60 := by
  rw [invocationsOf_eq] at h
  obtain ⟨n,hn,rfl⟩ := List.mem_map.mp h
  have hshare : (n : ℚ) + 1 ≤ count / downscale := by
    have hle : n + 1 ≤ ⌊(count : ℚ) / downscale⌋₊ := List.mem_range.mp hn
    have hfloor := (Nat.le_floor_iff' (Nat.succ_ne_zero n)).mp hle
    rwa [Nat.cast_succ] at hfloor
  rw [le_div_iff₀ hpos] at hshare
  have hnonneg : (0 : ℚ) ≤ n := Nat.cast_nonneg n
  have hcount : (0 : ℚ) < count := by nlinarith
  have hlt : n * (60 * downscale / count) < 60 := by
    rw [← mul_div_assoc,div_lt_iff₀ hcount]
    nlinarith
  have hle : 0 ≤ n * (60 * downscale / count) := mul_nonneg hnonneg (step_nonneg hpos count)
  exact ⟨rfl,by dsimp only; linarith,by dsimp only; linarith⟩

theorem invocationsOf_sorted (hpos : 0 < downscale) (minute arg count : ℕ) :
    (invocationsOf downscale minute arg count).Pairwise (fun a b => a.time ≤ b.time) := by
  rw [invocationsOf_eq,List.pairwise_map]
  refine List.pairwise_le_range.imp (fun {a b} hab => ?_)
  have hcast : (a : ℚ) ≤ b := Nat.cast_le.mpr hab
  have hmul := mul_le_mul_of_nonneg_right hcast (step_nonneg hpos count)
  exact add_le_add_right hmul _

/-- Whether an item belongs to an argument and a minute. -/
def Within (minute arg : ℕ) (i : Invocation) : Prop :=
  i.arg = toString arg ∧ 60 * minute ≤ i.time ∧ i.time < 60 * minute + 60

instance (minute arg : ℕ) (i : Invocation) : Decidable (Within minute arg i) := by
  unfold Within
  infer_instance

theorem Within.unique {minute' arg' : ℕ} (harg : arg ∈ fibArgs) (harg' : arg' ∈ fibArgs)
    (h : Within minute arg i) (h' : Within minute' arg' i) : minute = minute' ∧ arg = arg' := by
  obtain ⟨hname,hfrom,hto⟩ := h
  obtain ⟨hname',hfrom',hto'⟩ := h'
  refine ⟨?_,toString_injective arg harg arg' harg' (hname.symm.trans hname')⟩
  have hlt : (minute : ℚ) < minute' + 1 := by linarith
  have hlt' : (minute' : ℚ) < minute + 1 := by linarith
  have hnat : minute < minute' + 1 := by exact_mod_cast hlt
  have hnat' : minute' < minute + 1 := by exact_mod_cast hlt'
  omega

theorem mem_occurTime {counts : ℕ → ℕ → ℕ} (hpos : 0 < downscale) (h : i ∈ occurTime counts downscale) :
    ∃ minute ∈ minutes, ∃ arg ∈ fibArgs, Within minute arg i := by
  obtain ⟨minute,hminute,h⟩ := List.mem_flatMap.mp h
  obtain ⟨arg,harg,h⟩ := List.mem_flatMap.mp h
  exact ⟨minute,hminute,arg,harg,invocationsOf_spec hpos h⟩

/-- The items of an argument and a minute are those made for them. -/
theorem filter_occurTime (counts : ℕ → ℕ → ℕ) (hpos : 0 < downscale) (hminute : minute ∈ minutes)
    (harg : arg ∈ fibArgs) : (occurTime counts downscale).filter (fun i => Within minute arg i) =
      invocationsOf downscale minute arg (counts arg minute) := by
  have hnone : ∀ minute' arg', arg' ∈ fibArgs → ¬(minute' = minute ∧ arg' = arg) →
      (invocationsOf downscale minute' arg' (counts arg' minute')).filter (fun i => Within minute arg i) = [] := by
    intro minute' arg' harg' hne
    refine List.filter_eq_nil_iff.mpr fun i hi hwithin => hne ?_
    exact Within.unique harg' harg (invocationsOf_spec hpos hi) (of_decide_eq_true hwithin)
  have hall : (invocationsOf downscale minute arg (counts arg minute)).filter (fun i => Within minute arg i) =
      invocationsOf downscale minute arg (counts arg minute) :=
    List.filter_eq_self.mpr fun i hi => decide_eq_true (invocationsOf_spec hpos hi)
  have hnodup : fibArgs.Nodup := List.nodup_range'
  unfold occurTime
  rw [List.filter_flatMap,flatMap_eq_of_unique (by decide) hminute,List.filter_flatMap,
    flatMap_eq_of_unique hnodup harg,hall]
  · exact fun arg' harg' hne => hnone minute arg' harg' (fun h => hne h.2)
  · intro minute' _ hne
    rw [List.filter_flatMap]
    exact List.flatMap_eq_nil_iff.mpr fun arg' harg' => hnone minute' arg' harg' (fun h => hne h.1)

theorem sortList_sorted (l : List Invocation) : (sortList l).Pairwise (fun a b => a.time ≤ b.time) := by
  have htotal : Std.Total (fun a b : Invocation => a.time ≤ b.time) := ⟨fun a b => le_total a.time b.time⟩
  have htrans : IsTrans Invocation (fun a b => a.time ≤ b.time) := ⟨fun a b c hab hbc => le_trans hab hbc⟩
  exact List.pairwise_insertionSort _ l

theorem sortList_perm (l : List Invocation) : (sortList l).Perm l := List.perm_insertionSort _ l

/-- Sorting leaves the items of an argument and a minute as they were made. -/
theorem filter_sortList (counts : ℕ → ℕ → ℕ) (hpos : 0 < downscale) (hminute : minute ∈ minutes)
    (harg : arg ∈ fibArgs) : (sortList (occurTime counts downscale)).filter (fun i => Within minute arg i) =
      invocationsOf downscale minute arg (counts arg minute) := by
  have hperm := (sortList_perm (occurTime counts downscale)).filter (fun i => Within minute arg i)
  rw [filter_occurTime counts hpos hminute harg] at hperm
  refine List.Perm.eq_of_pairwise (fun a b ha hb hab hba => ?_) ((sortList_sorted _).filter _)
    (invocationsOf_sorted hpos minute arg _) hperm
  have hname : a.arg = b.arg :=
    (of_decide_eq_true (List.mem_filter.mp ha).2 : Within minute arg a).1.trans (invocationsOf_spec hpos hb).1.symm
  rcases a with ⟨time,name⟩
  rcases b with ⟨time',name'⟩
  cases le_antisymm hab hba
  cases hname
  rfl

end Schedule

/-- For every table and positive downscale, in whatever order `sort_values` leaves rows of equal
duration: the buckets of a minute hold all its invocations, each row in the bucket of its
calibrated argument; each bucket gives as many items as its rounded share, evenly spread over
the minute; and the schedule has the first minute before the second and never goes back. -/
theorem workload_conserves {table df : List FunctionRow} {downscale : ℚ}
    (hsort : SortValues (filterRows table) df) (hpos : 0 < downscale) :
    (∀ m ∈ minutes, (fibArgs.map (fun arg => argDf df arg m)).sum =
      ((filterRows table).map (fun row => row.occurList.getD m 0)).sum) ∧
    (∀ duration arg, bucketArg duration = arg ↔ CalibratedFor duration arg) ∧
    (∀ m ∈ minutes, ∀ arg ∈ fibArgs, argDf df arg m = (((filterRows table).filter
      (fun row => bucketArg row.average = arg)).map (fun row => row.occurList.getD m 0)).sum) ∧
    (∀ m ∈ minutes, ∀ arg ∈ fibArgs, (schedule df downscale).filter (fun i => Within m arg i) =
      (List.range ⌊argDf df arg m / downscale⌋₊).map
        (fun n : ℕ => ⟨60 * m + n * (60 * downscale / argDf df arg m),toString arg⟩)) ∧
    (∀ i ∈ schedule df downscale, ∃ m ∈ minutes, ∃ arg ∈ fibArgs, Within m arg i) ∧
    schedule df downscale = (schedule df downscale).filter (fun i => i.time < 60) ++
      (schedule df downscale).filter (fun i => 60 ≤ i.time) ∧
    ∀ d ∈ diffs ((schedule df downscale).map Invocation.time), 0 ≤ d := by
  have hcell : ∀ m arg, argDf df arg m = (((filterRows table).filter
      (fun row => bucketArg row.average = arg)).map (fun row => row.occurList.getD m 0)).sum := fun m arg =>
    (argDf_eq df arg).trans ((hsort.1.filter _).map _).sum_eq
  have hsorted : (schedule df downscale).Pairwise (fun a b => a.time ≤ b.time) := sortList_sorted _
  refine ⟨fun m _ => ?_,fun _ _ => bucketArg_eq_iff,fun m _ arg _ => hcell m arg,fun m hm arg harg => ?_,
    fun i hi => ?_,eq_filter_append_filter hsorted 60,?_⟩
  · rw [funext (hcell m)]
    exact sum_fibres List.nodup_range' _ _ (fun row _ => bucketArg_mem row.average)
  · exact (filter_sortList (argDf df) hpos hm harg).trans (invocationsOf_eq downscale m arg _)
  · exact mem_occurTime hpos ((sortList_perm _).subset hi)
  · exact diffs_nonneg (List.pairwise_map.mpr hsorted)

/-- Two functions of one duration and one slower than all arguments. -/
def threeFunctions : List FunctionRow := [⟨"a",7,3,0⟩,⟨"b",7,1,1⟩,⟨"c",20000,2,0⟩]

theorem workload_conserves_three : (fibArgs.map (fun arg => argDf threeFunctions arg 0)).sum = 6 ∧
    argDf threeFunctions 24 0 = 4 ∧ argDf threeFunctions 46 0 = 2 ∧
    (schedule threeFunctions 2).filter (fun i => Within 0 24 i) = [⟨0,"24"⟩,⟨30,"24"⟩] := by
  have hsort : SortValues (filterRows threeFunctions) threeFunctions :=
    ⟨List.Perm.refl _,by decide +kernel⟩
  obtain ⟨htotal,-,hcell,hitems,-⟩ := workload_conserves hsort (by norm_num : (0 : ℚ) < 2)
  exact ⟨(htotal 0 (by decide)).trans (by decide +kernel),(hcell 0 (by decide) 24 (by decide)).trans (by decide +kernel),
    (hcell 0 (by decide) 46 (by decide)).trans (by decide +kernel),
    (hitems 0 (by decide) 24 (by decide)).trans (by decide +kernel)⟩

end ServerlessSched.Loadgen
