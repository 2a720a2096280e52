import ServerlessSched.Policy.Cmdline

/-! # When the two schedulers apply the same policy

Both look for the job number in the argument area: one takes the first run of digits in
the last 64 bytes, the other the last field of the first 511 bytes. For a command line
whose last argument is the numeral of `n` the two findings are compared with `n` itself.
-/
namespace ServerlessSched.Agreement
open Decimal CString KernelAssigned UserAssigned

/-- The argument area of a process: every argument followed by a NUL. -/
def argImage (args : List (List UInt8)) : List UInt8 := args.flatMap (fun a => a ++ [0])

theorem argImage_append_one (others : List (List UInt8)) (a : List UInt8) :
    argImage (others ++ [a]) = argImage others ++ (a ++ [0]) := by
  simp [argImage]

theorem argImage_eq_concat {others : List (List UInt8)} (h : others ≠ []) :
    ∃ bs, argImage others = bs ++ [0] := by
  obtain ⟨init,last,rfl⟩ : ∃ init last, others = init ++ [last] :=
    ⟨others.dropLast,others.getLast h,(List.dropLast_append_getLast h).symm⟩
  exact ⟨argImage init ++ last,by rw [argImage_append_one,List.append_assoc]⟩

/-- The slice the userspace-assigned scheduler ends up with for a process. -/
def askedSlice (area : List UInt8) : UInt64 := translateSlice (requestedSlice (some area))

section LastArgument
variable {others : List (List UInt8)} {n : ℕ}

def windowBefore (others : List (List UInt8)) (n : ℕ) : List UInt8 :=
  (argImage others).drop ((argImage (others ++ [numeral n])).length - 64)

theorem window_argImage (hn : n < 2 ^ 31) :
    window (argImage (others ++ [numeral n])) = windowBefore others n ++ numeral n := by
  have hlen : (numeral n).length ≤ 10 := numeral_length_le (by omega)
  unfold window windowBefore
  rw [argImage_append_one,← List.append_assoc]
  have hdrop : (argImage others ++ numeral n ++ [0]).length - 64 ≤ (argImage others).length := by
    simp only [List.length_append,List.length_singleton]
    omega
  generalize (argImage others ++ numeral n ++ [0]).length - 64 = k at hdrop ⊢
  rw [List.append_assoc,List.drop_append_of_le_length hdrop,← List.append_assoc,
    List.dropLast_concat]

theorem scannedArg_argImage (hn : n < 2 ^ 31)
    (h : ∀ b ∈ windowBefore others n, isDigit b = false) :
    scannedArg (argImage (others ++ [numeral n])) = n := by
  rw [scannedArg,window_argImage hn,firstRun_append_of_no_digit h,firstRun_numeral,value_numeral]
  exact Nat.mod_eq_of_lt (by omega)

theorem parsedArg_argImage (hothers : others ≠ []) (hpos : 0 < n) (hn : n < 2 ^ 31)
    (hfit : (argImage (others ++ [numeral n])).length ≤ 511) :
    parsedArg (argImage (others ++ [numeral n])) = n := by
  obtain ⟨bs,hbs⟩ := argImage_eq_concat hothers
  have htake : (argImage (others ++ [numeral n])).take 511 = bs ++ [0] ++ numeral n ++ [0] := by
    rw [List.take_of_length_le hfit,argImage_append_one,hbs,List.append_assoc (bs ++ [0])]
  have hparsed : parsedBytes (argImage (others ++ [numeral n])) = bs ++ [0] ++ numeral n := by
    rw [parsedBytes,htake,List.getLast?_concat,if_pos rfl,List.dropLast_concat]
  have hsep : (bs ++ [0] ++ numeral n).any isSeparator = true :=
    List.any_eq_true.mpr ⟨0,by simp,rfl⟩
  have hfield : (bs ++ [0] ++ numeral n).reverse.takeWhile (fun b => !isSeparator b) =
      (numeral n).reverse := by
    have hall : ∀ b ∈ (numeral n).reverse, (!isSeparator b) = true := by
      intro b hb
      have hdigit := numeral_isDigit n b (List.mem_reverse.mp hb)
      have hspace := isSpace_of_isDigit hdigit
      rw [isDigit_iff] at hdigit
      simp only [isSeparator,Bool.not_eq_true',Bool.or_eq_false_iff,decide_eq_false_iff_not,
        ← UInt8.toNat_inj]
      have h0 : (0 : UInt8).toNat = 0 := rfl
      have h32 : (32 : UInt8).toNat = 32 := rfl
      omega
    rw [List.reverse_append,List.takeWhile_append_of_pos hall,List.reverse_concat]
    simp [isSeparator]
  rw [parsedArg,lastField,hparsed,if_pos hsep,hfield,List.reverse_reverse,Option.map_some,
    Option.getD_some,atoi_numeral hpos hn]

/-- Where both schedulers treat the command line as the job `n`: no digit precedes the last
argument in the 64-byte window, or the first run there happens to be a number of the same
kind as `n`; and the image fits the 511 bytes the daemon reads, or what it finds in them
happens to be a number of the same kind. -/
def ReadAlike (others : List (List UInt8)) (n : ℕ) : Prop :=
  ((∀ b ∈ windowBefore others n, isDigit b = false) ∨
    (ShortArg (scannedArg (argImage (others ++ [numeral n]))) ↔ ShortArg n)) ∧
  ((argImage (others ++ [numeral n])).length ≤ 511 ∨
    (ShortArg (parsedArg (argImage (others ++ [numeral n]))) ↔ ShortArg n))

theorem readAlike_iff (hothers : others ≠ []) (hpos : 0 < n) (hn : n < 2 ^ 31) :
    ReadAlike others n ↔
      (ShortArg (scannedArg (argImage (others ++ [numeral n]))) ↔ ShortArg n) ∧
      (ShortArg (parsedArg (argImage (others ++ [numeral n]))) ↔ ShortArg n) := by
  unfold ReadAlike
  refine and_congr (or_iff_right_of_imp fun h => ?_) (or_iff_right_of_imp fun h => ?_)
  · rw [scannedArg_argImage hn h]
  · rw [parsedArg_argImage hothers hpos hn h]

end LastArgument

/-- Both schedulers give a process the slice its last argument calls for, and hence the
same one, exactly on the command lines they read alike. -/
theorem same_policy_iff (others : List (List UInt8)) (n : ℕ) (mm : Mm)
    (hothers : others ≠ []) (hpos : 1 ≤ n) (hn : n ≤ 2 ^ 31 - 1)
    (harea : mm.argArea = some (argImage (others ++ [numeral n])))
    (hread : (mm.read (readStart mm) maxCmdlineLen).isSome = true) :
    (getTaskSlice mm = askedSlice (argImage (others ++ [numeral n])) ∧
      getTaskSlice mm = policySlice n) ↔ ReadAlike others n := by
  have hlt : n < 2 ^ 31 := by omega
  obtain ⟨buf,hread⟩ := Option.isSome_iff_exists.mp hread
  rw [readAlike_iff hothers hpos hlt,askedSlice,translateSlice_requestedSlice,
    getTaskSlice_eq harea hread,← policySlice_eq_iff,← policySlice_eq_iff]
  constructor
  · rintro ⟨hsame,hpolicy⟩
    exact ⟨hpolicy,hsame.symm.trans hpolicy⟩
  · rintro ⟨hscanned,hparsed⟩
    exact ⟨hscanned.trans hparsed.symm,hscanned⟩

/-! ## The commands of the load generator -/

def ascii (s : String) : List UInt8 := s.toList.map (fun c => UInt8.ofNat c.toNat)

/-- `base_cmd` of `launcher_worker` under `sched_ext`, for the install directory `dir`. -/
def launcherBaseCmd (dir : List UInt8) : List (List UInt8) :=
  [dir ++ ascii "/payload/run_with_sched_ext",dir ++ ascii "/payload/launch_function.out"]

/-- An install directory without digits, short enough for the daemon's buffer, causes no
disagreement. -/
theorem launcher_readAlike {dir : List UInt8} {n : ℕ} (hdir : ∀ b ∈ dir, isDigit b = false)
    (hlen : dir.length ≤ 200) (hn : n < 2 ^ 31) : ReadAlike (launcherBaseCmd dir) n := by
  have hnum : (numeral n).length ≤ 10 := numeral_length_le (by omega)
  have hrun : ∀ b ∈ ascii "/payload/run_with_sched_ext", isDigit b = false := by decide +kernel
  have hfun : ∀ b ∈ ascii "/payload/launch_function.out", isDigit b = false := by decide +kernel
  refine ⟨Or.inl fun b hb => ?_,Or.inl ?_⟩
  · have hmem : b ∈ argImage (launcherBaseCmd dir) := List.mem_of_mem_drop hb
    simp only [argImage,launcherBaseCmd,List.flatMap_cons,List.flatMap_nil,List.append_nil,
      List.mem_append,List.mem_singleton] at hmem
    rcases hmem with ((h | h) | rfl) | ((h | h) | rfl)
    · exact hdir b h
    · exact hrun b h
    · rfl
    · exact hdir b h
    · exact hfun b h
    · rfl
  · have hrunlen : (ascii "/payload/run_with_sched_ext").length = 27 := by decide
    have hfunlen : (ascii "/payload/launch_function.out").length = 28 := by decide
    rw [argImage_append_one]
    simp only [argImage,launcherBaseCmd,List.flatMap_cons,List.flatMap_nil,List.append_nil,
      List.length_append,List.length_singleton,hrunlen,hfunlen]
    omega

theorem same_policy_iff_root :
    (getTaskSlice (Mm.ofArea 4096 (argImage (launcherBaseCmd (ascii "/root/loadgen") ++ [numeral 30]))) =
        askedSlice (argImage (launcherBaseCmd (ascii "/root/loadgen") ++ [numeral 30])) ∧
      getTaskSlice (Mm.ofArea 4096 (argImage (launcherBaseCmd (ascii "/root/loadgen") ++ [numeral 30]))) =
        policySlice 30) ↔ ReadAlike (launcherBaseCmd (ascii "/root/loadgen")) 30 :=
  same_policy_iff (launcherBaseCmd (ascii "/root/loadgen")) 30 _ (by decide) (by decide) (by decide)
    (by decide) (by decide)

/-- Under `/home/user2` the window starts inside the first path, and the digit of the
directory is taken for the job number: job 30 loses its infinite slice in one scheduler. -/
theorem same_policy_fails_user2 :
    (Mm.ofArea 4096 (argImage (launcherBaseCmd (ascii "/home/user2/loadgen") ++ [numeral 30]))).argArea =
        some (argImage (launcherBaseCmd (ascii "/home/user2/loadgen") ++ [numeral 30])) ∧
      getTaskSlice (Mm.ofArea 4096 (argImage (launcherBaseCmd (ascii "/home/user2/loadgen") ++ [numeral 30]))) =
        sliceDfl ∧
      askedSlice (argImage (launcherBaseCmd (ascii "/home/user2/loadgen") ++ [numeral 30])) = sliceInf := by
  decide

end ServerlessSched.Agreement
