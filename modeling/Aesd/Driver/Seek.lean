import Aesd.Driver.Ownership

/-! The two ways to move a file position: `aesd_llseek`, inside the contents, and the seek command
of `aesd_ioctl`, to a byte of a stored entry. -/

namespace Aesd.Driver

open Aesd.CInt ProofKit

variable {kernel : Kernel} {base : Nat × List UInt8} {ring : List Held} {wip : Option Held}
  {frame : KHeap}

/-- The loop of `aesd_adjust_file_offset` adds up the entries in front of `writeCmd`, as long as no
length wraps around. -/
theorem adjustLoop_eq {buffer : AesdCircularBuffer} {queue : List AesdBufferEntry}
    (rep : Represents buffer queue) (named : ∀ e ∈ queue, e.buffptr.isSome) (o n i acc : Nat)
    (small : i + n < 10) (fits : acc + ((queue.drop i).map AesdBufferEntry.size).sum < 2 ^ 64) :
    adjustLoop buffer (i + n) o (List.range' i (n + 1)) acc =
      match queue[i + n]? with
      | none => none
      | some e => if o < e.size then
          some (acc + (((queue.take (i + n)).drop i).map AesdBufferEntry.size).sum + o)
        else none := by
  induction n generalizing i acc with
  | zero =>
    simp only [Nat.add_zero, Nat.zero_add, List.range'_one, adjustLoop]
    by_cases old : i < queue.length
    · have entry := rep.stored i old
      have drop := List.drop_eq_getElem_cons old
      rw [drop, List.map_cons, List.sum_cons] at fits
      have notNull : queue[i].buffptr.isNone = false := by
        simpa using named _ (List.getElem_mem old)
      simp only [entry, notNull, List.getElem?_eq_getElem old, Bool.false_eq_true, ite_false,
        ne_eq, not_true_eq_false]
      by_cases inside : o < queue[i].size
      · rw [if_neg (by omega), if_pos inside, ← Int.natCast_add, toSizeT_of_lt (by omega),
          List.drop_eq_nil_of_le (by simp)]
        simp
      · rw [if_pos (by omega), if_neg inside]
    · have entry := rep.empty i (by omega) (by omega)
      rw [List.getElem?_eq_none (by omega)]
      simp [entry, AesdBufferEntry.zero]
  | succ n ih =>
    rw [List.range'_succ, adjustLoop]
    by_cases old : i < queue.length
    · have entry := rep.stored i old
      have drop := List.drop_eq_getElem_cons old
      rw [drop, List.map_cons, List.sum_cons] at fits
      have notNull : queue[i].buffptr.isNone = false := by
        simpa using named _ (List.getElem_mem old)
      have front : (queue.take (i + (n + 1))).drop i =
          queue[i] :: (queue.take (i + (n + 1))).drop (i + 1) := by
        rw [List.drop_eq_getElem_cons (by simp; omega), List.getElem_take]
      have step : i + (n + 1) = i + 1 + n := by omega
      simp only [entry, notNull, Bool.false_eq_true, ite_false]
      rw [if_pos (by omega), ← Int.natCast_add, toSizeT_of_lt (by omega), step,
        ih (i + 1) _ (by omega) (by omega), ← step, front, List.map_cons, List.sum_cons,
        Nat.add_assoc acc]
    · have entry := rep.empty i (by omega) (by omega)
      rw [List.getElem?_eq_none (by omega)]
      simp [entry, AesdBufferEntry.zero]

theorem length_take_flatten {α : Type} {lines : List (List α)} {line : List α} {i : Nat}
    (found : lines[i]? = some line) :
    (lines.take i).flatten.length + line.length ≤ lines.flatten.length := by
  obtain ⟨hi, rfl⟩ := List.getElem?_eq_some_iff.mp found
  have cut := congrArg (fun lines => lines.flatten.length) (List.take_append_drop i lines)
  simp only [List.drop_eq_getElem_cons hi, List.flatten_append, List.flatten_cons,
    List.length_append] at cut
  omega

section Seek

variable (h : Holds kernel base ring wip frame)

include h

theorem Holds.length_stored : kernel.stored.length ≤ 10 := by
  simpa [h.stored_eq] using h.length_ring

/-- The seek command moves the position to byte `writeCmdOffset` of stored entry `writeCmd`, oldest
first, when there is such a byte. -/
theorem aesdAdjustFileOffset_eq (fPos : Int) (writeCmd writeCmdOffset : UInt32) :
    aesdAdjustFileOffset kernel fPos writeCmd writeCmdOffset false =
      match kernel.stored[writeCmd.toNat]? with
      | none => (-einval, fPos)
      | some line => if writeCmdOffset.toNat < line.length then
          (0, (kernel.stored.take writeCmd.toNat).flatten.length + writeCmdOffset.toNat)
        else (-einval, fPos) := by
  unfold aesdAdjustFileOffset
  have count := h.length_stored
  by_cases tooBig : aesdcharMaxWriteOperationsSupported ≤ writeCmd.toNat
  · rw [if_pos tooBig, List.getElem?_eq_none (Nat.le_trans count tooBig)]
  have small : writeCmd.toNat < 10 := Nat.lt_of_not_le tooBig
  have bytes := h.length_contents
  have total := h.total_eq
  rw [h.represents.total_eq] at total
  have loop := adjustLoop_eq h.represents (by simp) writeCmdOffset.toNat writeCmd.toNat 0 0
    (by omega) (by simp only [List.drop_zero]; omega)
  rw [Nat.zero_add, ← List.range_eq_range'] at loop
  simp only [if_neg tooBig, Bool.false_eq_true, ite_false, loop, h.stored_eq,
    List.getElem?_map, List.drop_zero, Nat.zero_add]
  cases line : ring[writeCmd.toNat]? with
  | none => rfl
  | some x =>
    simp only [Option.map_some, Held.entry_size]
    by_cases inside : writeCmdOffset.toNat < x.bytes.length
    · have front : (((ring.map Held.entry).take writeCmd.toNat).map AesdBufferEntry.size).sum =
          ((ring.map Held.bytes).take writeCmd.toNat).flatten.length := by
        rw [List.length_flatten, ← List.map_take, ← List.map_take, List.map_map, List.map_map]
        rfl
      have offset : writeCmdOffset.toNat < 2 ^ 32 := writeCmdOffset.toNat_lt
      have entry : (ring.map Held.bytes)[writeCmd.toNat]? = some x.bytes := by
        rw [List.getElem?_map, line]
        rfl
      have before := length_take_flatten entry
      rw [← h.stored_eq, ← Kernel.contents, h.stored_eq] at before
      simp only [if_pos inside, front, ← Int.natCast_add]
      rw [toLoffT_of_range (by omega) (by omega)]
    · simp only [inside, ite_false]

omit h in
theorem vfsSetpos_of_range {fPos offset maxsize : Int} (low : 0 ≤ offset)
    (high : offset ≤ maxsize) : vfsSetpos fPos offset maxsize = (offset, offset) := by
  rw [vfsSetpos, if_neg (Int.not_lt.mpr low), if_neg (Int.not_lt.mpr high)]

theorem Holds.toLoffT_size :
    toLoffT (aesdCircularBufferSize kernel.dev.buffer) = kernel.contents.length := by
  have bytes := h.length_contents
  rw [h.size_eq, toLoffT_of_range (by omega) (by omega)]

theorem aesdLlseek_start (fPos : Int) : aesdLlseek kernel fPos 0 seekSet false = (0, 0) := by
  simp only [aesdLlseek, fixedSizeLlseek, h.toLoffT_size, Bool.false_eq_true, ite_false,
    ite_true]
  exact vfsSetpos_of_range (Int.le_refl 0) (Int.natCast_nonneg _)

theorem aesdLlseek_fPos (fPos off : Int) (whence : Nat) (interrupted : Bool) :
    (aesdLlseek kernel fPos off whence interrupted).2 = fPos ∨
      0 ≤ (aesdLlseek kernel fPos off whence interrupted).2 ∧
        (aesdLlseek kernel fPos off whence interrupted).2 ≤ kernel.contents.length := by
  have set (offset : Int) : (vfsSetpos fPos offset kernel.contents.length).2 = fPos ∨
      0 ≤ (vfsSetpos fPos offset kernel.contents.length).2 ∧
        (vfsSetpos fPos offset kernel.contents.length).2 ≤ kernel.contents.length := by
    unfold vfsSetpos
    split
    · exact .inl rfl
    · split
      · exact .inl rfl
      · rename_i low high
        exact .inr ⟨Int.not_lt.mp low, Int.not_lt.mp high⟩
  simp only [aesdLlseek, fixedSizeLlseek, h.toLoffT_size]
  split
  · exact .inl rfl
  repeat' split
  all_goals first | exact .inl rfl | exact set _

theorem aesdIoctl_fPos (fPos : Int) (cmd : UInt32) (arg : AesdSeekto) (env : IoctlEnv) :
    (aesdIoctl kernel fPos cmd arg env).2 = fPos ∨
      0 ≤ (aesdIoctl kernel fPos cmd arg env).2 ∧
        (aesdIoctl kernel fPos cmd arg env).2 ≤ kernel.contents.length := by
  unfold aesdIoctl
  split
  · split
    · exact .inl rfl
    · cases interrupted : env.interrupted with
      | true =>
        unfold aesdAdjustFileOffset
        split <;> exact .inl rfl
      | false =>
        rw [aesdAdjustFileOffset_eq h]
        cases found : kernel.stored[arg.writeCmd.toNat]? with
        | none => exact .inl rfl
        | some line =>
          simp only
          split
          · rename_i inside
            have place := length_take_flatten found
            rw [Kernel.contents]
            exact .inr ⟨by simp only; omega, by simp only; omega⟩
          · exact .inl rfl
  · exact .inl rfl

end Seek

end Aesd.Driver
