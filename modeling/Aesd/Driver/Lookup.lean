import Aesd.Driver.Calls

/-! Lookup by offset and seek by entry are two directions of one bijection: the pairs of a stored
entry and an offset in it, and the offsets into the entries laid end to end. -/

namespace Aesd.Driver

open Aesd.CInt ProofKit AesdCircularBuffer

variable {buffer : AesdCircularBuffer}

namespace AesdCircularBuffer

/-- The sizes of the first `i` entries that a walk meets, added up. -/
def sizeBefore (buffer : AesdCircularBuffer) (i : Nat) : Nat :=
  ((List.range i).map fun j => (buffer.entry (currentPos buffer.outOffs j)).size).sum

/-- Entry `i` of a walk reaches over `charOffset`, which is its byte `byte`. -/
def Reaches (buffer : AesdCircularBuffer) (charOffset i byte : Nat) : Prop :=
  i < aesdcharMaxWriteOperationsSupported ∧ buffer.sizeBefore i + byte = charOffset ∧
    byte < (buffer.entry (currentPos buffer.outOffs i)).size

theorem getElem?_positions {i : Nat} (hi : i < 10) :
    buffer.positions[i]? = some (currentPos buffer.outOffs i) := by
  simp [positions, hi]

theorem sum_take_positions {i : Nat} (hi : i < 10) :
    ((buffer.positions.take i).map fun pos => (buffer.entry pos).size).sum =
      buffer.sizeBefore i := by
  rw [positions, ← List.map_take, List.take_range, Nat.min_eq_left (Nat.le_of_lt hi), List.map_map]
  rfl

theorem locate_positions {charOffset byte : Nat}
    {pos : Fin aesdcharMaxWriteOperationsSupported} :
    locate (fun pos => (buffer.entry pos).size) buffer.positions charOffset = some (pos, byte) ↔
      ∃ i, buffer.Reaches charOffset i byte ∧ pos = currentPos buffer.outOffs i := by
  rw [locate_eq_some_index]
  constructor
  · rintro ⟨i, at_, inside, sum⟩
    have hi : i < 10 := by
      have := (List.getElem?_eq_some_iff.mp at_).1
      simpa [positions] using this
    rw [getElem?_positions hi] at at_
    cases at_
    exact ⟨i, ⟨hi, by rw [← sum_take_positions hi, sum], inside⟩, rfl⟩
  · rintro ⟨i, ⟨hi, sum, inside⟩, rfl⟩
    exact ⟨i, getElem?_positions hi, inside, by rw [sum_take_positions hi, sum]⟩

theorem Reaches.unique {charOffset i j byte other : Nat} (first : buffer.Reaches charOffset i byte)
    (second : buffer.Reaches charOffset j other) : i = j ∧ byte = other := by
  refine index_unique (fun pos => (buffer.entry pos).size) (getElem?_positions first.1)
    (getElem?_positions second.1) first.2.2 second.2.2 ?_
  rw [sum_take_positions first.1, sum_take_positions second.1, first.2.1, second.2.1]

end AesdCircularBuffer

theorem find_eq_some {charOffset rtn byte : Nat} {pos : Fin aesdcharMaxWriteOperationsSupported}
    (fits : buffer.total < 2 ^ 64) :
    aesdCircularBufferFindEntryOffsetForFpos buffer charOffset rtn = (some pos, byte) ↔
      ∃ i, buffer.Reaches charOffset i byte ∧ pos = currentPos buffer.outOffs i := by
  rw [find_eq charOffset rtn fits, ← locate_positions]
  cases locate (fun pos => (buffer.entry pos).size) buffer.positions charOffset with
  | none => simp
  | some found => simp [Prod.ext_iff]

theorem find_none_iff {charOffset rtn : Nat} (fits : buffer.total < 2 ^ 64) :
    (aesdCircularBufferFindEntryOffsetForFpos buffer charOffset rtn).1 = none ↔
      aesdCircularBufferSize buffer ≤ charOffset := by
  have sum : buffer.total = (buffer.positions.map fun pos => (buffer.entry pos).size).sum := by
    simp [total, walk, Function.comp_def]
  rw [find_eq charOffset rtn fits, aesdCircularBufferSize_eq fits, sum, ← locate_eq_none]
  cases locate (fun pos => (buffer.entry pos).size) buffer.positions charOffset <;> simp

theorem find_inside {charOffset : Nat} (fits : buffer.total < 2 ^ 64) (rtn : Nat)
    (inside : charOffset < aesdCircularBufferSize buffer) :
    ∃ i byte, buffer.Reaches charOffset i byte ∧
      aesdCircularBufferFindEntryOffsetForFpos buffer charOffset rtn =
        (some (currentPos buffer.outOffs i), byte) := by
  rcases h : aesdCircularBufferFindEntryOffsetForFpos buffer charOffset rtn with ⟨found, byte⟩
  cases found with
  | none =>
    have past := (find_none_iff fits).mp (by rw [h])
    omega
  | some pos =>
    obtain ⟨i, reaches, rfl⟩ := (find_eq_some fits).mp h
    exact ⟨i, byte, reaches, rfl⟩

/-- `aesd_circular_buffer_find_entry_offset_for_fpos` is indexing into the ten entries laid end to
end. It finds nothing from `aesd_circular_buffer_size` on, and then leaves
`*entry_offset_byte_rtn`; before it, it finds the one entry that reaches over the offset, and the
byte found is the one at that offset, whatever bytes the entries hold. -/
theorem find_is_index (fits : buffer.total < 2 ^ 64) (charOffset rtn : Nat) :
    ((aesdCircularBufferFindEntryOffsetForFpos buffer charOffset rtn).1 = none ↔
      aesdCircularBufferSize buffer ≤ charOffset) ∧
    ((aesdCircularBufferFindEntryOffsetForFpos buffer charOffset rtn).1 = none →
      (aesdCircularBufferFindEntryOffsetForFpos buffer charOffset rtn).2 = rtn) ∧
    (charOffset < aesdCircularBufferSize buffer →
      ∃ i byte, buffer.Reaches charOffset i byte ∧
        (∀ j other, buffer.Reaches charOffset j other → j = i ∧ other = byte) ∧
        aesdCircularBufferFindEntryOffsetForFpos buffer charOffset rtn =
          (some (currentPos buffer.outOffs i), byte) ∧
        ∀ bytes : Fin aesdcharMaxWriteOperationsSupported → List UInt8,
          (∀ pos, (bytes pos).length = (buffer.entry pos).size) →
          (buffer.positions.map bytes).flatten[charOffset]? =
            (bytes (currentPos buffer.outOffs i))[byte]?) := by
  refine ⟨find_none_iff fits, fun missing => ?_, fun inside => ?_⟩
  · rw [find_eq charOffset rtn fits] at missing ⊢
    cases place : locate (fun pos => (buffer.entry pos).size) buffer.positions charOffset with
    | none => rfl
    | some found => simp [place] at missing
  · obtain ⟨i, byte, reaches, found⟩ := find_inside fits rtn inside
    exact ⟨i, byte, reaches, fun j other second => second.unique reaches, found,
      fun bytes len => getElem?_flatten_of_locate (fun pos _ => len pos)
        (locate_positions.mpr ⟨i, reaches, rfl⟩)⟩

/-- A walk that starts at position 7 and meets empty entries between the others. -/
theorem find_is_index_rotated :
    let buffer : AesdCircularBuffer := ⟨fun pos => ⟨none, pos % 3⟩, 7, 7, true⟩
    aesdCircularBufferFindEntryOffsetForFpos buffer 3 99 = (some 1, 0) ∧
    ∃ i byte, buffer.Reaches 3 i byte ∧
      aesdCircularBufferFindEntryOffsetForFpos buffer 3 99 =
        (some (currentPos buffer.outOffs i), byte) := by
  intro buffer
  obtain ⟨i, byte, reaches, -, found, -⟩ :=
    (find_is_index (by decide : buffer.total < 2 ^ 64) 3 99).2.2 (by decide)
  exact ⟨by decide, i, byte, reaches, found⟩

/-! The stored entries in terms of the walk. -/

section Stored

variable {kernel : Kernel} {base : Nat × List UInt8} {ring : List Held} {wip : Option Held}
  {frame : KHeap} (h : Holds kernel base ring wip frame)

include h

theorem Holds.size_stored {i : Nat} {line : List UInt8} (found : kernel.stored[i]? = some line) :
    (kernel.dev.buffer.entry (currentPos kernel.dev.buffer.outOffs i)).size = line.length := by
  rw [h.stored_eq, List.getElem?_map, Option.map_eq_some_iff] at found
  obtain ⟨x, at_, rfl⟩ := found
  obtain ⟨hi, rfl⟩ := List.getElem?_eq_some_iff.mp at_
  rw [h.represents.stored i (by simpa using hi), List.getElem_map, Held.entry_size]

theorem Holds.size_unused {i : Nat} (past : kernel.stored[i]? = none) (hi : i < 10) :
    (kernel.dev.buffer.entry (currentPos kernel.dev.buffer.outOffs i)).size = 0 := by
  rw [h.stored_eq, List.getElem?_eq_none_iff, List.length_map] at past
  rw [h.represents.empty i (by simpa using past) hi]
  rfl

theorem Holds.sizeBefore_eq {i : Nat} (hi : i ≤ kernel.stored.length) :
    kernel.dev.buffer.sizeBefore i = (kernel.stored.take i).flatten.length := by
  induction i with
  | zero => simp [sizeBefore]
  | succ i ih =>
    have found := List.getElem?_eq_getElem (show i < kernel.stored.length by omega)
    have before := ih (by omega)
    simp only [sizeBefore] at before
    rw [sizeBefore, List.range_succ, List.map_append, List.sum_append, before, List.map_singleton,
      List.sum_singleton, h.size_stored found, List.take_succ_eq_append_getElem (by omega),
      List.flatten_append, List.length_append]
    simp

theorem Holds.lt_of_reaches {q i byte : Nat} (reaches : kernel.dev.buffer.Reaches q i byte) :
    i < kernel.stored.length := by
  obtain ⟨small, -, inside⟩ := reaches
  by_contra past
  rw [h.size_unused (List.getElem?_eq_none (Nat.le_of_not_lt past)) small] at inside
  exact Nat.not_lt_zero _ inside

/-- The seek command goes to the byte that the lookup takes back to the same entry. -/
theorem Holds.seekTarget_iff {seekto : AesdSeekto} {q : Nat} :
    seekTarget kernel.stored seekto = some q ↔
      kernel.dev.buffer.Reaches q seekto.writeCmd.toNat seekto.writeCmdOffset.toNat := by
  have count := h.length_stored
  unfold seekTarget Reaches
  cases found : kernel.stored[seekto.writeCmd.toNat]? with
  | none =>
    refine iff_of_false (by simp) ?_
    rintro ⟨small, -, inside⟩
    rw [h.size_unused found small] at inside
    exact Nat.not_lt_zero _ inside
  | some line =>
    obtain ⟨small, -⟩ := List.getElem?_eq_some_iff.mp found
    have small' : seekto.writeCmd.toNat < aesdcharMaxWriteOperationsSupported :=
      Nat.lt_of_lt_of_le small count
    rw [h.size_stored found, h.sizeBefore_eq (Nat.le_of_lt small)]
    simp only [small', true_and]
    constructor
    · intro target
      split at target
      · exact ⟨Option.some.inj target, ‹_›⟩
      · contradiction
    · rintro ⟨sum, inside⟩
      rw [if_pos inside, sum]

end Stored

/-- Seeking by entry and looking up by offset are inverse to each other. In every state that a
loaded module can get into, the seek command succeeds exactly when it names a byte of a stored
entry, and the lookup of the position that it sets finds that entry and that byte; otherwise it
reports `-EINVAL` and leaves the position. Every position inside the contents is set by exactly one
pair of an entry and an offset. -/
theorem Loaded.Reachable.seek_inverse {d : Loaded} (reach : d.Reachable) :
    (∀ (fPos : Int) (writeCmd writeCmdOffset : UInt32),
      let pos := currentPos d.kernel.dev.buffer.outOffs writeCmd.toNat
      let result := aesdAdjustFileOffset d.kernel fPos writeCmd writeCmdOffset false
      (result.1 = 0 ↔ writeCmd.toNat < d.kernel.stored.length ∧
        writeCmdOffset.toNat < (d.kernel.dev.buffer.entry pos).size) ∧
      (result.1 = 0 → ∃ p : Nat, result.2 = p ∧ ∀ rtn,
        aesdCircularBufferFindEntryOffsetForFpos d.kernel.dev.buffer p rtn =
          (some pos, writeCmdOffset.toNat)) ∧
      (result.1 ≠ 0 → result = (-einval, fPos))) ∧
    ∀ p < aesdCircularBufferSize d.kernel.dev.buffer, ∃ writeCmd writeCmdOffset : UInt32,
      (∀ fPos, aesdAdjustFileOffset d.kernel fPos writeCmd writeCmdOffset false = (0, ↑p)) ∧
      ∀ fPos cmd offset, aesdAdjustFileOffset d.kernel fPos cmd offset false = (0, ↑p) →
        cmd = writeCmd ∧ offset = writeCmdOffset := by
  obtain ⟨base, ring, wip, frame, h⟩ := reach.holds
  have bytes := h.length_contents
  have total := h.total_eq
  have fits : d.kernel.dev.buffer.total < 2 ^ 64 := by omega
  have adjust (fPos : Int) (cmd offset : UInt32) : _ :=
    aesdAdjustFileOffset_target h fPos ⟨cmd, offset⟩
  simp only at adjust
  refine ⟨fun fPos writeCmd writeCmdOffset => ?_, fun p inside => ?_⟩
  · intro pos result
    rw [show result = _ from adjust fPos writeCmd writeCmdOffset]
    cases target : seekTarget d.kernel.stored ⟨writeCmd, writeCmdOffset⟩ with
    | none =>
      have nonzero : -einval ≠ 0 := by decide
      refine ⟨iff_of_false nonzero ?_, fun zero => absurd zero nonzero, fun _ => rfl⟩
      rintro ⟨small, inside⟩
      have reached : seekTarget d.kernel.stored ⟨writeCmd, writeCmdOffset⟩ = some _ :=
        h.seekTarget_iff.mpr ⟨Nat.lt_of_lt_of_le small h.length_stored, rfl, inside⟩
      exact Option.some_ne_none _ (reached.symm.trans target)
    | some q =>
      have reaches := h.seekTarget_iff.mp target
      refine ⟨iff_of_true rfl ⟨h.lt_of_reaches reaches, reaches.2.2⟩,
        fun _ => ⟨q, rfl, fun rtn => (find_eq_some fits).mpr ⟨_, reaches, rfl⟩⟩,
        fun nonzero => absurd rfl nonzero⟩
  · obtain ⟨i, byte, reaches, -⟩ := find_inside fits 0 inside
    have stored := h.lt_of_reaches reaches
    have line := List.getElem?_eq_getElem stored
    have short := Loaded.Owned.stored_short ⟨base, ring, wip, frame, h⟩ _ (List.getElem_mem stored)
    have small := reaches.2.2
    rw [h.size_stored line] at small
    have cmd_eq : (UInt32.ofNat i).toNat = i :=
      UInt32.toNat_ofNat_of_lt' (Nat.lt_trans reaches.1 (by decide))
    have offset_eq : (UInt32.ofNat byte).toNat = byte :=
      UInt32.toNat_ofNat_of_lt' (show byte < 2 ^ 32 by omega)
    refine ⟨.ofNat i, .ofNat byte, fun fPos => ?_, fun fPos cmd offset set => ?_⟩
    · have target : seekTarget d.kernel.stored ⟨.ofNat i, .ofNat byte⟩ = some p :=
        h.seekTarget_iff.mpr (by rwa [cmd_eq, offset_eq])
      rw [adjust, target]
    · rw [adjust] at set
      cases target : seekTarget d.kernel.stored ⟨cmd, offset⟩ with
      | none =>
        rw [target] at set
        exact absurd (congrArg Prod.fst set) (by decide : -einval ≠ 0)
      | some q =>
        rw [target] at set
        obtain rfl : q = p := Int.ofNat_inj.mp (congrArg Prod.snd set)
        obtain ⟨sameCmd, sameOffset⟩ := (h.seekTarget_iff.mp target).unique reaches
        exact ⟨UInt32.toNat_inj.mp (sameCmd.trans cmd_eq.symm),
          UInt32.toNat_inj.mp (sameOffset.trans offset_eq.symm)⟩

/-- Two stored lines and the start of a third. -/
theorem seek_inverse_two_lines : ∃ d : Loaded,
    d.kernel.stored = [[97, newline], [98, 99, newline]] ∧
    ∀ p < aesdCircularBufferSize d.kernel.dev.buffer, ∃ writeCmd writeCmdOffset : UInt32,
      (∀ fPos, aesdAdjustFileOffset d.kernel fPos writeCmd writeCmdOffset false = (0, ↑p)) ∧
      ∀ fPos cmd offset, aesdAdjustFileOffset d.kernel fPos cmd offset false = (0, ↑p) →
        cmd = writeCmd ∧ offset = writeCmdOffset := by
  refine ⟨_, ?_, (Loaded.Reachable.seek_inverse
    ⟨∅, ⟨0, some ⟨1, fun _ => 0⟩, 0⟩, _,
      [(.write 0 ⟨[97, newline], by decide⟩ { allocation := some ⟨2, fun _ => 0⟩ }, ⟨2, []⟩),
        (.write 0 ⟨[98, 99, newline], by decide⟩ { allocation := some ⟨3, fun _ => 0⟩ }, ⟨3, []⟩),
        (.write 0 ⟨[100], by decide⟩ { allocation := some ⟨4, fun _ => 0⟩ }, ⟨1, []⟩)],
      rfl, .cons rfl (.cons rfl (.cons rfl (.nil _)))⟩).2⟩
  rfl

end Aesd.Driver
