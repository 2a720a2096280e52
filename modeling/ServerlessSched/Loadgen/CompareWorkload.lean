import ServerlessSched.Library.PythonText
import ServerlessSched.Library.StepCurve
import ServerlessSched.Loadgen.Buckets
import Mathlib.Algebra.BigOperators.Ring.Finset
import Mathlib.Algebra.Order.BigOperators.Group.List
import Mathlib.Algebra.Order.Field.Rat
import Mathlib.Data.List.ProdSigma

/-! # Does the workload follow the trace?

A script draws two cumulative curves over the durations: that of the calibrated durations of
the generated workload, and that of the first two minutes of the trace.
-/
namespace ServerlessSched.Loadgen
open PythonText

namespace CompareWorkload

/-- `p`, the shares of the counts, and the curve of their running sums over the durations in seconds. -/
def cdf (counts : List (ℚ × ℕ)) : List (ℚ × ℚ) :=
  let y := counts.map (fun c => (c.2 : ℚ))
  (counts.map (fun c => c.1 / 1000)).zip (runningSums 0 (y.map (fun v => v / y.sum)))

/-- The column `arg` of the workload file. Nothing can be read from an empty file. -/
def readArgs (lines : List WorkloadLine) : Option (List ℕ) :=
  if lines.isEmpty then none else some (lines.map (fun line => intOfDigits line.arg.toList))

/-- `value_counts().sort_index()`. -/
def workloadCounts (args : List ℕ) : List (ℕ × ℕ) := groupSums id (fun _ => 1) args

/-- `arg_to_duration`; the script has the lists of the generator. -/
def argToDuration (arg : ℕ) : Option ℚ := calibration.lookup arg

def workloadDurationCounts (counts : List (ℕ × ℕ)) : List (ℚ × ℕ) :=
  (counts.filterMap (fun c => (argToDuration c.1).map (fun duration => (duration,c.2)))).insertionSort
    (fun a b => a.1 ≤ b.1)

/-- `x_divided_wl` and `cdf_wl`. -/
def workloadCdf (lines : List WorkloadLine) : Option (List (ℚ × ℚ)) :=
  (readArgs lines).map (fun args => cdf (workloadDurationCounts (workloadCounts args)))

/-- `df_2min_grouped` with its column `Count`. -/
def twoMinutesGrouped (table : List FunctionRow) : List (ℚ × ℕ) :=
  let grouped := groupSums FunctionRow.average (fun row => (row.first,row.second))
    (table.filter (fun row => row.average > 0))
  (grouped.map (fun e => (e.1,e.2.1 + e.2.2))).filter (fun c => c.2 > 0)

/-- `x_2min` and `cdf_2min`. -/
def twoMinutesCdf (table : List FunctionRow) : List (ℚ × ℚ) := cdf (twoMinutesGrouped table)

end CompareWorkload

open CompareWorkload

/-- The invocations of the first two minutes. -/
def FunctionRow.calls (row : FunctionRow) : ℕ := row.first + row.second

/-- What the table has of functions that the generator leaves out as too slow. -/
def slowCalls (table : List FunctionRow) : ℕ :=
  ((table.filter (fun row => 180000 ≤ row.average)).map FunctionRow.calls).sum

def allCalls (table : List FunctionRow) : ℕ :=
  ((table.filter (fun row => row.average > 0)).map FunctionRow.calls).sum

/-- At every calibrated duration but the longest the two curves are close. -/
structure Follows (table : List FunctionRow) (total : ℕ) (curve : List (ℚ × ℚ)) : Prop where
  close : ∀ e ∈ calibration.dropLast,
    |stepValue 0 (e.2 / 1000) curve - stepValue 0 (e.2 / 1000) (twoMinutesCdf table)| ≤
      47 / total + slowCalls table / allCalls table
  whole : stepValue 0 (durList.getLastD 0 / 1000) curve = 1

/-! ## The curves -/

theorem stepValue_cdf {counts : List (ℚ × ℕ)} (hsorted : counts.Pairwise (fun a b => a.1 ≤ b.1)) (d : ℚ) :
    stepValue 0 (d / 1000) (cdf counts) =
      ((counts.filter (fun c => c.1 ≤ d)).map Prod.snd).sum / (counts.map Prod.snd).sum := by
  obtain ⟨total,htotal⟩ : ∃ total : ℚ, (counts.map (fun c => (c.2 : ℚ))).sum = total := ⟨_,rfl⟩
  have hpoints : cdf counts = ((counts.map (fun c => (c.1 / 1000,(c.2 : ℚ) / total))).map Prod.fst).zip
      (runningSums 0 ((counts.map (fun c => (c.1 / 1000,(c.2 : ℚ) / total))).map Prod.snd)) := by
    simp only [cdf,htotal,List.map_map,Function.comp_def]
  have hpoints_sorted : (counts.map (fun c => (c.1 / 1000,(c.2 : ℚ) / total))).Pairwise (fun p q => p.1 ≤ q.1) := by
    refine List.pairwise_map.mpr (hsorted.imp (fun {a b} h => ?_))
    exact div_le_div_of_nonneg_right h (by norm_num)
  have hselect : (counts.map (fun c => (c.1 / 1000,(c.2 : ℚ) / total))).filter (fun p => p.1 ≤ d / 1000) =
      (counts.filter (fun c => c.1 ≤ d)).map (fun c => (c.1 / 1000,(c.2 : ℚ) / total)) := by
    rw [List.filter_map]
    apply congrArg
    apply List.filter_congr
    intro c _
    simp [div_le_div_iff_of_pos_right (show (0 : ℚ) < 1000 by norm_num)]
  have hcast : ∀ l : List (ℚ × ℕ), (((l.map Prod.snd).sum : ℕ) : ℚ) = (l.map (fun c => (c.2 : ℚ))).sum := by
    intro l
    rw [Nat.cast_list_sum,List.map_map]
    rfl
  rw [hpoints,stepValue_runningSums hpoints_sorted,zero_add,hselect,List.map_map,hcast,hcast,htotal,
    div_eq_mul_inv,← List.sum_map_mul_right]
  rfl

/-! ## The calibrated durations -/

/-- The duration an argument stands for. -/
def calibrated (arg : ℕ) : ℚ := durList.getD (arg - 24) 0

theorem argToDuration_eq : ∀ arg ∈ fibArgs, argToDuration arg = some (calibrated arg) := by decide

theorem mem_calibration_iff : ∀ e ∈ calibration.dropLast, ∃ i < 22, e = (i + 24,durList.getD i 0) := by decide

theorem durList_mono : ∀ i < 23, ∀ j ≤ i, durList.getD j 0 ≤ durList.getD i 0 := by decide

theorem durList_lt_last : ∀ i < 22, durList.getD i 0 < durList.getD 22 0 := by decide

/-- Rounding a duration up to a calibrated one does not take it past another calibrated one. -/
theorem calibrated_bucketArg_le {duration : ℚ} {i : ℕ} (hi : i < 22) :
    calibrated (bucketArg duration) ≤ durList.getD i 0 ↔ duration ≤ durList.getD i 0 := by
  obtain ⟨j,hj,hindex,hbefore,hbreak⟩ := bucketIndex_spec duration
  have harg : bucketArg duration = j + 24 := by
    rw [bucketArg,hindex]
    exact fib_getD j hj
  rw [calibrated,harg,Nat.add_sub_cancel]
  constructor
  · intro hle
    rcases hbreak with hreached | ⟨rfl,-⟩
    · exact hreached.trans hle
    · exact absurd hle (not_le.mpr (durList_lt_last i hi))
  · intro hle
    have hji : j ≤ i := by
      by_contra hlt
      exact absurd hle (not_le.mpr (hbefore i (not_le.mp hlt)))
    exact durList_mono i (by omega) j hji

theorem calibrated_le_last : ∀ arg ∈ fibArgs, calibrated arg ≤ durList.getLastD 0 := by decide

/-! ## The curve of the workload -/

/-- The counted durations, before they are sorted. -/
theorem filterMap_workloadCounts {args : List ℕ} (hargs : ∀ arg ∈ args, arg ∈ fibArgs) :
    (workloadCounts args).filterMap (fun c => (argToDuration c.1).map (fun duration => (duration,c.2))) =
      (workloadCounts args).map (fun c => (calibrated c.1,c.2)) := by
  rw [← List.filterMap_eq_map]
  apply List.filterMap_congr
  intro c hc
  have hkey : c.1 ∈ args.map id := mem_keys_of_mem_groupSums hc
  rw [List.map_id] at hkey
  rw [argToDuration_eq c.1 (hargs c.1 hkey)]
  rfl

/-- The curve has, at any duration, the share of the arguments calibrated for no more. -/
theorem stepValue_workload {args : List ℕ} (hargs : ∀ arg ∈ args, arg ∈ fibArgs) (d : ℚ) :
    stepValue 0 (d / 1000) (cdf (workloadDurationCounts (workloadCounts args))) =
      args.countP (fun arg => calibrated arg ≤ d) / args.length := by
  have htotal : Std.Total (fun a b : ℚ × ℕ => a.1 ≤ b.1) := ⟨fun a b => le_total a.1 b.1⟩
  have htrans : IsTrans (ℚ × ℕ) (fun a b => a.1 ≤ b.1) := ⟨fun a b c hab hbc => le_trans hab hbc⟩
  have hperm : (workloadDurationCounts (workloadCounts args)).Perm
      ((workloadCounts args).map (fun c => (calibrated c.1,c.2))) := by
    rw [← filterMap_workloadCounts hargs]
    exact List.perm_insertionSort _ _
  have hsorted : (workloadDurationCounts (workloadCounts args)).Pairwise (fun a b => a.1 ≤ b.1) :=
    List.pairwise_insertionSort _ _
  have hones : ∀ l : List ℕ, (l.map (fun _ => 1)).sum = l.length := fun l => by simp
  have hbelow : (((workloadDurationCounts (workloadCounts args)).filter (fun c => c.1 ≤ d)).map Prod.snd).sum =
      args.countP (fun arg => calibrated arg ≤ d) := by
    rw [((hperm.filter _).map _).sum_eq,List.filter_map,List.map_map]
    refine (sum_groupSums id (fun _ => 1) args (fun arg => calibrated arg ≤ d)).trans ?_
    rw [hones,List.countP_eq_length_filter]
    rfl
  have hall : ((workloadDurationCounts (workloadCounts args)).map Prod.snd).sum = args.length := by
    rw [(hperm.map _).sum_eq,List.map_map]
    exact (sum_groupSums_all id (fun _ => 1) args).trans (hones args)
  rw [stepValue_cdf hsorted,hbelow,hall]

/-! ## The curve of the trace -/

/-- Groups without calls are left out, and add nothing. -/
theorem sum_filter_pos (l : List (ℚ × ℕ)) : ((l.filter (fun c => c.2 > 0)).map Prod.snd).sum = (l.map Prod.snd).sum := by
  induction l with
  | nil => rfl
  | cons c l ih =>
    by_cases hc : c.2 > 0
    · rw [List.filter_cons_of_pos (by simpa using hc),List.map_cons,List.map_cons,List.sum_cons,List.sum_cons,ih]
    · rw [List.filter_cons_of_neg (by simpa using hc),List.map_cons,List.sum_cons,ih,Nat.eq_zero_of_not_pos hc,
        Nat.zero_add]

theorem sum_fst_add_snd {A : Type} (f : A → ℕ × ℕ) (l : List A) :
    (l.map (fun a => (f a).1 + (f a).2)).sum = (l.map f).sum.1 + (l.map f).sum.2 := by
  induction l with
  | nil => rfl
  | cons a l ih =>
    rw [List.map_cons,List.map_cons,List.sum_cons,List.sum_cons,ih,Prod.fst_add,Prod.snd_add]
    omega

theorem stepValue_twoMinutes (table : List FunctionRow) (d : ℚ) :
    stepValue 0 (d / 1000) (twoMinutesCdf table) =
      ((((table.filter (fun row => row.average > 0)).filter (fun row => row.average ≤ d)).map FunctionRow.calls).sum : ℕ) /
        (allCalls table : ℕ) := by
  obtain ⟨rows,hrows⟩ : ∃ rows, table.filter (fun row => row.average > 0) = rows := ⟨_,rfl⟩
  obtain ⟨grouped,hgrouped⟩ : ∃ grouped, groupSums FunctionRow.average (fun row => (row.first,row.second)) rows = grouped :=
    ⟨_,rfl⟩
  have hcounts : twoMinutesGrouped table =
      (grouped.map (fun e => (e.1,e.2.1 + e.2.2))).filter (fun c => c.2 > 0) := by
    rw [← hgrouped,← hrows]
    rfl
  have hsorted : (twoMinutesGrouped table).Pairwise (fun a b => a.1 ≤ b.1) := by
    rw [hcounts]
    refine List.Pairwise.filter _ (List.pairwise_map.mpr ?_)
    rw [← hgrouped]
    exact groupSums_sorted.imp (fun {a b} h => h.le)
  have hcalls : ∀ l : List FunctionRow, (l.map FunctionRow.calls).sum =
      (l.map (fun row => (row.first,row.second))).sum.1 + (l.map (fun row => (row.first,row.second))).sum.2 :=
    sum_fst_add_snd (fun row : FunctionRow => (row.first,row.second))
  have hbelow : (((twoMinutesGrouped table).filter (fun c => c.1 ≤ d)).map Prod.snd).sum =
      ((rows.filter (fun row => row.average ≤ d)).map FunctionRow.calls).sum := by
    rw [hcounts,List.filter_comm,sum_filter_pos,List.filter_map,List.map_map,hcalls,
      ← sum_groupSums FunctionRow.average _ _ (fun k => k ≤ d),hgrouped]
    exact sum_fst_add_snd Prod.snd _
  have hall : ((twoMinutesGrouped table).map Prod.snd).sum = (rows.map FunctionRow.calls).sum := by
    rw [hcounts,sum_filter_pos,List.map_map,hcalls,← sum_groupSums_all FunctionRow.average,hgrouped]
    exact sum_fst_add_snd Prod.snd _
  rw [twoMinutesCdf,stepValue_cdf hsorted,hbelow,hall,allCalls,hrows]

/-! ## What the generator rounds away -/

/-- The minutes and arguments for which the generator makes items. -/
def cells : List (ℕ × ℕ) := minutes.product fibArgs

section Rounding
variable {downscale : ℚ} (p : ℕ → Prop) [DecidablePred p]

/-- Rounding every share down takes less than one item from each. -/
theorem sum_floor_bounds (hpos : 0 < downscale) (f : ℕ × ℕ → ℕ) (l : List (ℕ × ℕ)) :
    downscale * ((l.map (fun c => ⌊(f c : ℚ) / downscale⌋₊)).sum : ℕ) ≤ (l.map f).sum ∧
      ((l.map f).sum : ℚ) ≤ downscale * ((l.map (fun c => ⌊(f c : ℚ) / downscale⌋₊)).sum + l.length : ℕ) := by
  induction l with
  | nil => simp
  | cons c l ih =>
    obtain ⟨hlow,hhigh⟩ := ih
    have hfloor : downscale * (⌊(f c : ℚ) / downscale⌋₊ : ℕ) ≤ f c := by
      have h := Nat.floor_le (div_nonneg (Nat.cast_nonneg (f c)) hpos.le)
      rwa [le_div_iff₀ hpos,mul_comm] at h
    have hceil : (f c : ℚ) < downscale * ((⌊(f c : ℚ) / downscale⌋₊ : ℕ) + 1) := by
      have h := Nat.lt_floor_add_one ((f c : ℚ) / downscale)
      rwa [div_lt_iff₀ hpos,mul_comm] at h
    rw [List.map_cons,List.map_cons,List.sum_cons,List.sum_cons,List.length_cons]
    push_cast at hlow hhigh ⊢
    constructor
    · linarith
    · linarith

theorem intOfDigits_toString (arg : ℕ) : intOfDigits (toString arg).toList = arg := by
  have htext : (toString arg).toList = str arg := String.toList_ofList
  rw [htext,intOfDigits_str]

theorem countP_invocationsOf (minute arg count : ℕ) :
    (invocationsOf downscale minute arg count).countP (fun i => p (intOfDigits i.arg.toList)) =
      if p arg then ⌊(count : ℚ) / downscale⌋₊ else 0 := by
  rw [invocationsOf_eq,List.countP_map]
  split
  case isTrue h =>
    rw [List.countP_eq_length.mpr,List.length_range]
    intro n _
    simpa only [Function.comp_apply,intOfDigits_toString,decide_eq_true_eq] using h
  case isFalse h =>
    rw [List.countP_eq_zero]
    intro n _
    simpa only [Function.comp_apply,intOfDigits_toString,decide_eq_true_eq] using h

theorem countP_occurTime (counts : ℕ → ℕ → ℕ) :
    (occurTime counts downscale).countP (fun i => p (intOfDigits i.arg.toList)) =
      ((cells.filter (fun c => p c.2)).map (fun c => ⌊(counts c.2 c.1 : ℚ) / downscale⌋₊)).sum := by
  have hcells : occurTime counts downscale =
      cells.flatMap (fun c => invocationsOf downscale c.1 c.2 (counts c.2 c.1)) := by
    rw [cells,List.product,List.flatMap_assoc]
    simp only [List.flatMap_map]
    rfl
  rw [hcells,List.countP_flatMap,sum_filter_eq_sum_ite]
  apply congrArg List.sum
  apply List.map_congr_left
  intro c _
  exact countP_invocationsOf p c.1 c.2 _

/-- The cells of the selected arguments have the calls of the functions in their buckets. -/
theorem sum_argDf (df : List FunctionRow) :
    ((cells.filter (fun c => p c.2)).map (fun c => argDf df c.2 c.1)).sum =
      ((df.filter (fun row => p (bucketArg row.average))).map FunctionRow.calls).sum := by
  have hminute : ∀ m, ((fibArgs.filter (fun arg => p arg)).map (fun arg => argDf df arg m)).sum =
      ((df.filter (fun row => p (bucketArg row.average))).map (fun row => row.occurList.getD m 0)).sum := by
    intro m
    have hnodup : (fibArgs.filter (fun arg => p arg)).Nodup := List.Nodup.filter _ List.nodup_range'
    rw [← sum_fibres hnodup (fun row : FunctionRow => bucketArg row.average)]
    · apply congrArg List.sum
      apply List.map_congr_left
      intro arg harg
      have hp : p arg := by simpa using (List.mem_filter.mp harg).2
      rw [argDf_eq,List.filter_filter]
      apply congrArg (fun rows : List FunctionRow => (rows.map (fun row => row.occurList.getD m 0)).sum)
      apply List.filter_congr
      intro row _
      by_cases hrow : bucketArg row.average = arg
      · simp [hrow,hp]
      · simp [hrow]
    · intro row hrow
      exact List.mem_filter.mpr ⟨bucketArg_mem row.average,(List.mem_filter.mp hrow).2⟩
  have hcells : cells.filter (fun c => p c.2) =
      (fibArgs.filter (fun arg => p arg)).map (fun arg => (0,arg)) ++
        (fibArgs.filter (fun arg => p arg)).map (fun arg => (1,arg)) := by
    simp only [cells,minutes,List.product,List.flatMap_cons,List.flatMap_nil,List.append_nil,List.filter_append,
      List.filter_map,Function.comp_def]
  rw [hcells,List.map_append,List.sum_append,List.map_map,List.map_map]
  refine (congrArg₂ _ (hminute 0) (hminute 1)).trans ?_
  rw [← List.sum_map_add]
  rfl

/-- The shares of two counts, one of which is the other rounded, differ by the share of what is lost. -/
theorem abs_share_sub_le {n total calls all lost : ℚ} (hpos : 0 < downscale) (htotal : 0 < total) (hn : 0 ≤ n)
    (hntotal : n ≤ total) (hlost : 0 ≤ lost) (hlow : downscale * n ≤ calls) (hhigh : calls ≤ downscale * (n + lost))
    (halllow : downscale * total ≤ all) (hallhigh : all ≤ downscale * (total + lost)) :
    |n / total - calls / all| ≤ lost / total := by
  have hall : 0 < all := (mul_pos hpos htotal).trans_le halllow
  have hleast : n / total - lost / total ≤ calls / all := by
    have hshare : n / (total + lost) ≤ calls / all := by
      rw [div_le_div_iff₀ (by linarith) hall]
      calc n * all ≤ n * (downscale * (total + lost)) := mul_le_mul_of_nonneg_left hallhigh hn
        _ = downscale * n * (total + lost) := by ring
        _ ≤ calls * (total + lost) := mul_le_mul_of_nonneg_right hlow (by linarith)
    refine le_trans ?_ hshare
    rw [← sub_div,div_le_div_iff₀ htotal (by linarith)]
    nlinarith
  have hmost : calls / all ≤ n / total + lost / total := by
    rw [← add_div,div_le_div_iff₀ hall htotal]
    calc calls * total ≤ downscale * (n + lost) * total := mul_le_mul_of_nonneg_right hhigh htotal.le
      _ = (n + lost) * (downscale * total) := by ring
      _ ≤ (n + lost) * all := mul_le_mul_of_nonneg_left halllow (by linarith)
  rw [abs_le]
  constructor
  · linarith
  · linarith

end Rounding

/-! ## The generated workload -/

section Generated
variable {table df : List FunctionRow} {counts : ℕ → ℕ → ℕ} {downscale : ℚ} {lines : List WorkloadLine}

/-- The lines lack the last item of the schedule. -/
theorem args_of_genWorkload (hgen : genWorkload counts downscale = some lines) :
    lines.map WorkloadLine.arg = ((sortList (occurTime counts downscale)).map Invocation.arg).dropLast := by
  unfold genWorkload at hgen
  cases hschedule : sortList (occurTime counts downscale) with
  | nil =>
    rw [hschedule] at hgen
    cases hgen
  | cons first rest =>
    rw [hschedule] at hgen
    obtain ⟨lines',hlines,-,-,hargs⟩ := outputList_cons first rest
    cases hlines.symm.trans hgen
    exact hargs

theorem arg_of_genWorkload (hgen : genWorkload counts downscale = some lines) {line : WorkloadLine}
    (hline : line ∈ lines) : ∃ arg ∈ fibArgs, line.arg = toString arg := by
  have hmem : line.arg ∈ ((sortList (occurTime counts downscale)).map Invocation.arg).dropLast := by
    rw [← args_of_genWorkload hgen]
    exact List.mem_map_of_mem hline
  obtain ⟨i,hi,heq⟩ := List.mem_map.mp (List.dropLast_subset _ hmem)
  obtain ⟨minute,-,hi⟩ := List.mem_flatMap.mp ((sortList_perm _).subset hi)
  obtain ⟨arg,harg,hi⟩ := List.mem_flatMap.mp hi
  obtain ⟨n,-,rfl⟩ := List.mem_map.mp hi
  exact ⟨arg,harg,heq.symm⟩

theorem args_mem_fibArgs (hgen : genWorkload counts downscale = some lines) :
    ∀ arg ∈ lines.map (fun line => intOfDigits line.arg.toList), arg ∈ fibArgs := by
  intro arg harg
  obtain ⟨line,hline,rfl⟩ := List.mem_map.mp harg
  obtain ⟨arg,harg,hname⟩ := arg_of_genWorkload hgen hline
  rw [hname,intOfDigits_toString]
  exact harg

theorem countP_dropLast_bounds {A : Type} (q : A → Bool) (l : List A) :
    l.dropLast.countP q ≤ l.countP q ∧ l.countP q ≤ l.dropLast.countP q + 1 := by
  rcases l.eq_nil_or_concat with rfl | ⟨l,a,rfl⟩
  · exact ⟨le_rfl,Nat.zero_le _⟩
  · rw [List.concat_eq_append,List.dropLast_concat,List.countP_append]
    have hlast : [a].countP q ≤ 1 := List.countP_le_length
    omega

/-- Scaled up again, the lines of the selected arguments fall short of the calls in their buckets by
less than one item for each cell and the item that is not written. -/
theorem lines_bounds (p : ℕ → Prop) [DecidablePred p] (hsort : SortValues (filterRows table) df) (hpos : 0 < downscale)
    (hgen : genWorkload (argDf df) downscale = some lines) :
    downscale * ((lines.map (fun line => intOfDigits line.arg.toList)).countP (fun arg => p arg) : ℕ) ≤
        ((((filterRows table).filter (fun row => p (bucketArg row.average))).map FunctionRow.calls).sum : ℕ) ∧
      ((((filterRows table).filter (fun row => p (bucketArg row.average))).map FunctionRow.calls).sum : ℚ) ≤
        downscale * (((lines.map (fun line => intOfDigits line.arg.toList)).countP (fun arg => p arg) : ℕ) + 47) := by
  obtain ⟨n,hn⟩ : ∃ n, (lines.map (fun line => intOfDigits line.arg.toList)).countP (fun arg => p arg) = n := ⟨_,rfl⟩
  obtain ⟨items,hitems⟩ : ∃ items,
      (occurTime (argDf df) downscale).countP (fun i => p (intOfDigits i.arg.toList)) = items := ⟨_,rfl⟩
  have hwritten : n ≤ items ∧ items ≤ n + 1 := by
    have hargs : (lines.map WorkloadLine.arg).countP (fun arg => p (intOfDigits arg.toList)) = n := by
      rw [← hn,List.countP_map,List.countP_map]
      rfl
    have hall : ((sortList (occurTime (argDf df) downscale)).map Invocation.arg).countP
        (fun arg => p (intOfDigits arg.toList)) = items := by
      rw [← hitems,List.countP_map]
      exact (sortList_perm _).countP_eq _
    rw [args_of_genWorkload hgen] at hargs
    rw [← hargs,← hall]
    exact countP_dropLast_bounds _ _
  have hcalls : (((filterRows table).filter (fun row => p (bucketArg row.average))).map FunctionRow.calls).sum =
      ((cells.filter (fun c => p c.2)).map (fun c => argDf df c.2 c.1)).sum := by
    rw [sum_argDf]
    exact ((hsort.1.symm.filter _).map _).sum_eq
  obtain ⟨hlow,hhigh⟩ := sum_floor_bounds hpos (fun c => argDf df c.2 c.1) (cells.filter (fun c => p c.2))
  rw [← countP_occurTime p (argDf df),hitems] at hlow hhigh
  have hcells : (cells.filter (fun c => p c.2)).length ≤ 46 :=
    (List.length_filter_le _ _).trans (show cells.length ≤ 46 by decide)
  rw [hn,hcalls]
  constructor
  · exact (mul_le_mul_of_nonneg_left (Nat.cast_le.mpr hwritten.1) hpos.le).trans hlow
  · refine hhigh.trans (mul_le_mul_of_nonneg_left ?_ hpos.le)
    have hle : items + (cells.filter (fun c => p c.2)).length ≤ n + 47 := by omega
    exact_mod_cast hle

theorem filter_average_le {d : ℚ} (hd : d < 180000) :
    (table.filter (fun row => row.average > 0)).filter (fun row => row.average ≤ d) =
      (filterRows table).filter (fun row => row.average ≤ d) := by
  rw [filterRows,List.filter_filter (l := table.filter _)]
  apply List.filter_congr
  intro row _
  by_cases hle : row.average ≤ d
  · simp [hle,hle.trans_lt hd]
  · simp [hle]

theorem allCalls_eq : allCalls table = ((filterRows table).map FunctionRow.calls).sum + slowCalls table := by
  induction table with
  | nil => rfl
  | cons row table ih =>
    unfold allCalls slowCalls filterRows at ih ⊢
    by_cases hrow : row.average > 0
    · by_cases hfast : row.average < 180000
      · have hslow : ¬180000 ≤ row.average := not_le.mpr hfast
        simp [hrow,hfast,hslow,ih,Nat.add_assoc]
      · have hslow : 180000 ≤ row.average := not_lt.mp hfast
        simp [hrow,hfast,hslow,ih,Nat.add_left_comm]
    · have hslow : ¬180000 ≤ row.average := by linarith
      simp [hrow,hslow,ih]

/-- Leaving out the slow functions changes a share by their share at most. -/
theorem abs_share_add_sub_le {calls all slow : ℚ} (hcalls : 0 ≤ calls) (hle : calls ≤ all) (hall : 0 < all)
    (hslow : 0 ≤ slow) : |calls / all - calls / (all + slow)| ≤ slow / (all + slow) := by
  have hsplit : calls / all - calls / (all + slow) = calls / all * (slow / (all + slow)) := by
    field_simp
    ring
  have hshare : calls / all ≤ 1 := (div_le_one hall).mpr hle
  have hnonneg : 0 ≤ slow / (all + slow) := div_nonneg hslow (by linarith)
  rw [hsplit,abs_of_nonneg (mul_nonneg (div_nonneg hcalls hall.le) hnonneg)]
  exact mul_le_of_le_one_left hnonneg hshare

/-- For every table and positive downscale, the curve of the workload is as close to that of the trace
as the number of lines and the share of the functions left out allow; only at the longest
calibrated duration it is whole, since that stands for all longer ones. -/
theorem workload_follows_trace (hsort : SortValues (filterRows table) df) (hpos : 0 < downscale)
    (hgen : genWorkload (argDf df) downscale = some lines) (hne : lines ≠ []) :
    ∃ curve, workloadCdf lines = some curve ∧ Follows table lines.length curve := by
  obtain ⟨args,hlines⟩ : ∃ args, lines.map (fun line => intOfDigits line.arg.toList) = args := ⟨_,rfl⟩
  have hargs : ∀ arg ∈ args, arg ∈ fibArgs := by
    rw [← hlines]
    exact args_mem_fibArgs hgen
  have hlength : args.length = lines.length := by rw [← hlines,List.length_map]
  have hread : readArgs lines = some args := by
    rw [readArgs,hlines,if_neg (by simpa using hne)]
  have htotal : (0 : ℚ) < lines.length := Nat.cast_pos.mpr (List.length_pos_iff.mpr hne)
  refine ⟨_,by rw [workloadCdf,hread,Option.map_some],fun e he => ?_,?_⟩
  · obtain ⟨i,hi,rfl⟩ := mem_calibration_iff e he
    have hd : durList.getD i 0 < 180000 := (durList_lt_last i hi).trans (by decide)
    obtain ⟨hlow,hhigh⟩ := lines_bounds (fun arg => calibrated arg ≤ durList.getD i 0) hsort hpos hgen
    obtain ⟨halllow,hallhigh⟩ := lines_bounds (fun _ => True) hsort hpos hgen
    simp only [calibrated_bucketArg_le hi,hlines] at hlow hhigh
    simp only [decide_true,List.countP_true,List.filter_true,List.length_map] at halllow hallhigh
    rw [stepValue_workload hargs,stepValue_twoMinutes,filter_average_le hd,allCalls_eq,hlength,Nat.cast_add]
    have hcounted : args.countP (fun arg => calibrated arg ≤ durList.getD i 0) ≤ lines.length :=
      hlength ▸ List.countP_le_length
    have hcalls : (((filterRows table).filter (fun row => row.average ≤ durList.getD i 0)).map FunctionRow.calls).sum ≤
        ((filterRows table).map FunctionRow.calls).sum :=
      (List.filter_sublist.map _).sum_le_sum (fun _ _ => Nat.zero_le _)
    have hall : (0 : ℚ) < (((filterRows table).map FunctionRow.calls).sum : ℕ) := (mul_pos hpos htotal).trans_le halllow
    have hrounded := abs_share_sub_le hpos htotal (Nat.cast_nonneg _) (Nat.cast_le.mpr hcounted) (by norm_num) hlow hhigh
      halllow hallhigh
    have hslow := abs_share_add_sub_le (Nat.cast_nonneg _) (Nat.cast_le.mpr hcalls) hall (Nat.cast_nonneg (slowCalls table))
    exact (abs_sub_le _ _ _).trans (add_le_add hrounded hslow)
  · rw [stepValue_workload hargs,List.countP_eq_length.mpr,hlength,div_self htotal.ne']
    intro arg harg
    exact decide_eq_true (calibrated_le_last arg (hargs arg harg))

end Generated

theorem genWorkload_three : genWorkload (argDf threeFunctions) 2 = some [⟨0,"24"⟩,⟨30,"46"⟩] := by decide +kernel

theorem workload_follows_trace_three :
    ∃ curve, workloadCdf [⟨0,"24"⟩,⟨30,"46"⟩] = some curve ∧ Follows threeFunctions 2 curve := by
  have hsort : SortValues (filterRows threeFunctions) threeFunctions := ⟨List.Perm.refl _,by decide⟩
  exact workload_follows_trace hsort (by norm_num) genWorkload_three (List.cons_ne_nil _ _)

end ServerlessSched.Loadgen
