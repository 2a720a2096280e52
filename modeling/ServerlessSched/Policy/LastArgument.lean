import ServerlessSched.Policy.Agreement
import ServerlessSched.UserAssigned.Daemon

/-! # The daemon recovers the last argument

`read_cmdline` on the stack buffer of its caller, with all accesses checked, and the number
that `parse_fib_arg_from_cmdline` finds in the buffer afterwards.
-/
namespace ServerlessSched.UserAssigned
open CString Decimal Agreement

/-- The loop over the bytes read; `none` is an access out of bounds. -/
def blankNulsChecked : ℕ → ℕ → List UInt8 → Option (List UInt8)
  | 0, _, buf => some buf
  | rounds + 1, i, buf =>
    match buf[i]? with
    | none => none
    | some b => blankNulsChecked rounds (i + 1) (if b = 0 then buf.set i 32 else buf)

/-- `read_cmdline` with what it leaves in the buffer; `fread` stores at most `size - 1` bytes. -/
def readCmdlineChecked (file : Option (List UInt8)) (buf : List UInt8) (size : ℕ) : Option (ℤ × List UInt8) :=
  match file with
  | none => some (-1,buf)
  | some bytes =>
    let len := (bytes.take (size - 1)).length
    if buf.length < len then none
    else
      let buf := bytes.take (size - 1) ++ buf.drop len
      if len = 0 then some (-1,buf)
      else
        match blankNulsChecked (len - 1) 0 buf with
        | none => none
        | some buf => if len < buf.length then some (0,buf.set len 0) else none

theorem blankNulsChecked_eq {rounds i : ℕ} {buf : List UInt8} (h : i + rounds ≤ buf.length) :
    blankNulsChecked rounds i buf =
      some (buf.take i ++ ((buf.drop i).take rounds).map blank ++ buf.drop (i + rounds)) := by
  induction rounds generalizing i buf with
  | zero => simp [blankNulsChecked]
  | succ rounds ih =>
    have hi : i < buf.length := by omega
    have hset : (if buf[i] = 0 then buf.set i 32 else buf) = buf.take i ++ blank buf[i] :: buf.drop (i + 1) := by
      unfold blank
      split
      case isTrue => rw [List.set_eq_take_append_cons_drop,if_pos hi]
      case isFalse => rw [← List.drop_eq_getElem_cons hi,List.take_append_drop]
    have htake : (buf.take i).length = i := List.length_take_of_le hi.le
    rw [blankNulsChecked,List.getElem?_eq_getElem hi]
    dsimp only
    rw [hset,ih (by simp; omega),List.drop_eq_getElem_cons hi,List.take_succ_cons,List.map_cons]
    have hfirst : (buf.take i ++ blank buf[i] :: buf.drop (i + 1)).take (i + 1) = buf.take i ++ [blank buf[i]] := by
      rw [List.append_cons,List.take_left' (by simp [htake])]
    have hrest : (buf.take i ++ blank buf[i] :: buf.drop (i + 1)).drop (i + 1) = buf.drop (i + 1) := by
      rw [List.append_cons,List.drop_left' (by simp [htake])]
    have hlast : (buf.take i ++ blank buf[i] :: buf.drop (i + 1)).drop (i + 1 + rounds) =
        buf.drop (i + (rounds + 1)) := by
      rw [← List.drop_drop,hrest,List.drop_drop]
      congr 1
      omega
    rw [hfirst,hrest,hlast]
    simp

/-- Every access is in bounds, and the used part of the buffer is what `readCmdline` says. -/
theorem readCmdlineChecked_eq {size : ℕ} (file : Option (List UInt8)) {buf : List UInt8}
    (hbuf : buf.length = size) (hsize : 0 < size) :
    (readCmdline file size = none ∧ ∃ left, readCmdlineChecked file buf size = some (-1,left)) ∨
    ∃ cmdline left, readCmdline file size = some cmdline ∧ (0 : UInt8) ∈ cmdline ∧
      (cmdline ++ left).length = size ∧ readCmdlineChecked file buf size = some (0,cmdline ++ left) := by
  cases file with
  | none => exact Or.inl ⟨rfl,buf,rfl⟩
  | some bytes =>
    unfold readCmdline readCmdlineChecked
    dsimp only
    generalize hused : bytes.take (size - 1) = used
    have hlen : used.length ≤ size - 1 := by
      rw [← hused]
      exact List.length_take_le _ _
    have hroom : ¬buf.length < used.length := by omega
    rw [if_neg hroom]
    by_cases hempty : used.length = 0
    · rw [if_pos hempty,if_pos hempty]
      exact Or.inl ⟨rfl,_,rfl⟩
    · rw [if_neg hempty,if_neg hempty]
      have hall : (used ++ buf.drop used.length).length = size := by simp; omega
      rw [blankNulsChecked_eq (by omega)]
      have hblank : (used ++ buf.drop used.length).take 0 ++
          (((used ++ buf.drop used.length).drop 0).take (used.length - 1)).map blank ++
            (used ++ buf.drop used.length).drop (0 + (used.length - 1)) =
          blankNuls used ++ buf.drop used.length := by
        rw [blankNuls,List.take_zero,List.nil_append,List.drop_zero,Nat.zero_add,
          List.take_append_of_le_length (Nat.sub_le _ _),List.drop_append_of_le_length (Nat.sub_le _ _),
          List.append_assoc]
      rw [hblank]
      have hused' : (blankNuls used).length = used.length := by simp [blankNuls]
      have hset : (blankNuls used ++ buf.drop used.length).set used.length 0 =
          blankNuls used ++ [0] ++ buf.drop (used.length + 1) := by
        have hmore : used.length < buf.length := by omega
        rw [List.set_append_right _ _ hused'.le,hused',Nat.sub_self,List.drop_eq_getElem_cons hmore,
          List.set_cons_zero,List.append_assoc]
        rfl
      dsimp only
      rw [hset,if_pos (by simp [hused']; omega)]
      refine Or.inr ⟨_,_,rfl,by simp,?_,rfl⟩
      simp [hused']
      omega

/-- With the number `n` as last argument and an image that fits, `read_cmdline` fills the buffer
of 512 bytes in bounds and terminates the string, and the parser returns `n`; an image that
is empty or cannot be read is refused, and the task is listed with no slice asked for. -/
theorem last_argument_recovered {others : List (List UInt8)} {n : ℕ} {stack : List UInt8}
    (hothers : others ≠ []) (hpos : 1 ≤ n) (hn : n ≤ 2 ^ 31 - 1)
    (hfit : (argImage (others ++ [numeral n])).length ≤ 511) (hstack : stack.length = 512) :
    (∃ buf, readCmdlineChecked (some (argImage (others ++ [numeral n]))) stack 512 = some (0,buf) ∧
      buf.length = 512 ∧ (cstr buf).length < 512 ∧ parseFibArgFromCmdline buf = n ∧
      ∃ cmdline, readCmdline (some (argImage (others ++ [numeral n]))) 512 = some cmdline ∧
        parseFibArgFromCmdline cmdline = n) ∧
    ∀ file, file = none ∨ file = some [] → readCmdline file 512 = none ∧
      (∃ left, readCmdlineChecked file stack 512 = some (-1,left)) ∧
      ∀ pidMax pid (d : Daemon), d.Accepts pidMax pid → ∃ d', d.localEnqueueTask pidMax pid file = .ok d' ∧
        d'.tasks pid = ⟨0,true⟩ ∧ d'.failedToGetCmdline = d.failedToGetCmdline + 1 := by
  have hlt : n < 2 ^ 31 := by omega
  constructor
  · have hne : (argImage (others ++ [numeral n])).take 511 ≠ [] := by
      rw [argImage_append_one]
      simp
    have hread := readCmdline_of_ne_nil hne
    have hparse := parseFibArgFromCmdline_blankNuls hne
    rw [parsedArg_argImage hothers hpos hlt hfit,if_neg (by omega)] at hparse
    rcases readCmdlineChecked_eq (some (argImage (others ++ [numeral n]))) hstack (by decide) with
      ⟨hnone,-⟩ | ⟨cmdline,left,hsome,hnul,hlen,hchecked⟩
    · rw [hread] at hnone
      cases hnone
    · cases hread.symm.trans hsome
      have hmem : (0 : UInt8) ∈ blankNuls ((argImage (others ++ [numeral n])).take 511) ++ [0] ++ left :=
        List.mem_append_left left hnul
      refine ⟨_,hchecked,hlen,hlen ▸ cstr_length_lt hmem,?_,_,hread,hparse⟩
      rw [parseFibArgFromCmdline,cstr_append_of_mem hnul]
      exact hparse
  · intro file hfile
    have hnone : readCmdline file 512 = none := by rcases hfile with rfl | rfl <;> rfl
    refine ⟨hnone,?_,fun pidMax pid d hacc => ?_⟩
    · rcases hfile with rfl | rfl
      all_goals exact ⟨_,rfl⟩
    · have hget : d.getEnqueuedTask pidMax pid = some (d.tasks pid) := if_neg (Nat.not_le.mpr hacc.1)
      unfold Daemon.localEnqueueTask
      simp only [hget,hacc.2,hnone,Bool.false_eq_true,if_false]
      exact ⟨_,rfl,by simp [Daemon.insertLocal],rfl⟩

/-- `run 7 30`, whose second argument holds a digit too. -/
theorem last_argument_recovered_two :
    ∃ buf, readCmdlineChecked (some (argImage ([[114,117,110],[32,55]] ++ [numeral 30])))
        (List.replicate 512 65) 512 = some (0,buf) ∧ parseFibArgFromCmdline buf = 30 := by
  have hfit : (argImage ([[114,117,110],[32,55]] ++ [numeral 30])).length ≤ 511 := by decide
  obtain ⟨buf,hbuf,-,-,hparse,-⟩ := (last_argument_recovered (List.cons_ne_nil _ _) (by decide : 1 ≤ 30)
    (by decide) hfit (List.length_replicate : (List.replicate 512 (65 : UInt8)).length = 512)).1
  exact ⟨buf,hbuf,hparse⟩

end ServerlessSched.UserAssigned
