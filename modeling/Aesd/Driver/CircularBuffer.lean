import Aesd.CInt
import Aesd.ProofKit.Segments
import Mathlib.Logic.Function.Basic

/-! The circular buffer of `aesd-circular-buffer.h` and `aesd-circular-buffer.c`: ten entries, the
index that the next entry goes to, the index that reading starts from, and the `full` flag. -/

namespace Aesd.Driver

open Aesd.CInt ProofKit

abbrev aesdcharMaxWriteOperationsSupported : Nat := 10

/-- `struct aesd_buffer_entry`: a buffer, or `none` for `NULL`, and the number of bytes stored in
it. -/
structure AesdBufferEntry where
  buffptr : Option Nat
  size : Nat
  deriving DecidableEq, Repr

/-- The entry that `memset` leaves. -/
def AesdBufferEntry.zero : AesdBufferEntry := ⟨none, 0⟩

/-- `struct aesd_circular_buffer`. The type of `inOffs` keeps the next write inside `entry`. -/
structure AesdCircularBuffer where
  entry : Fin aesdcharMaxWriteOperationsSupported → AesdBufferEntry
  inOffs : Fin aesdcharMaxWriteOperationsSupported
  outOffs : Nat
  full : Bool

def aesdCircularBufferInit : AesdCircularBuffer where
  entry _ := .zero
  inOffs := ⟨0, by decide⟩
  outOffs := 0
  full := false

/-- Position `i` of a walk from `offset`:
`(offset + i) % AESDCHAR_MAX_WRITE_OPERATIONS_SUPPORTED`. -/
def currentPos (offset i : Nat) : Fin aesdcharMaxWriteOperationsSupported :=
  ⟨(offset + i) % aesdcharMaxWriteOperationsSupported, Nat.mod_lt _ (by decide)⟩

/-- The loop of `aesd_circular_buffer_find_entry_offset_for_fpos` over the indices left, with the
length accumulated so far. -/
def findLoop (buffer : AesdCircularBuffer) (charOffset entryOffsetByteRtn : Nat) :
    List Nat → Nat → Option (Fin aesdcharMaxWriteOperationsSupported) × Nat
  | [], _ => (none, entryOffsetByteRtn)
  | i :: is, accLength =>
    let pos := currentPos buffer.outOffs i
    let reach := toSizeT (accLength + (buffer.entry pos).size)
    if charOffset < reach then (some pos, toSizeT (charOffset - accLength))
    else findLoop buffer charOffset entryOffsetByteRtn is reach

/-- `aesd_circular_buffer_find_entry_offset_for_fpos`: the index of the entry found, or `none` for
`NULL`, and the value left in `*entry_offset_byte_rtn`. -/
def aesdCircularBufferFindEntryOffsetForFpos (buffer : AesdCircularBuffer)
    (charOffset entryOffsetByteRtn : Nat) :
    Option (Fin aesdcharMaxWriteOperationsSupported) × Nat :=
  findLoop buffer charOffset entryOffsetByteRtn (List.range aesdcharMaxWriteOperationsSupported) 0

/-- `in_offs` after an addition: the next position, and 0 past the last one. -/
def nextOffs (inOffs : Fin aesdcharMaxWriteOperationsSupported) :
    Fin aesdcharMaxWriteOperationsSupported :=
  if last : (inOffs : Nat) + 1 = aesdcharMaxWriteOperationsSupported then ⟨0, by decide⟩
  else ⟨inOffs + 1, Nat.lt_of_le_of_ne inOffs.isLt last⟩

/-- `aesd_circular_buffer_add_entry`: the pointer returned and the buffer it leaves. -/
def aesdCircularBufferAddEntry (buffer : AesdCircularBuffer) (addEntry : AesdBufferEntry) :
    Option Nat × AesdCircularBuffer :=
  let removedBuffptr := (buffer.entry buffer.inOffs).buffptr
  let entry := Function.update buffer.entry buffer.inOffs addEntry
  let inOffs := nextOffs buffer.inOffs
  -- going back to position 0 sets the flag, which stays set
  let full := buffer.full || (buffer.inOffs : Nat) + 1 == aesdcharMaxWriteOperationsSupported
  let outOffs := if full then (inOffs : Nat) else buffer.outOffs
  (removedBuffptr, { entry, inOffs, outOffs, full })

def aesdCircularBufferSize (buffer : AesdCircularBuffer) : Nat :=
  (List.range aesdcharMaxWriteOperationsSupported).foldl
    (fun bufferSize i =>
      toSizeT (bufferSize + (buffer.entry (currentPos buffer.outOffs i)).size)) 0

namespace AesdCircularBuffer

/-- The ten entry positions in the order that every walk visits them. -/
def positions (buffer : AesdCircularBuffer) : List (Fin aesdcharMaxWriteOperationsSupported) :=
  (List.range aesdcharMaxWriteOperationsSupported).map (currentPos buffer.outOffs)

/-- The ten entries in the order that every walk visits them. -/
def walk (buffer : AesdCircularBuffer) : List AesdBufferEntry :=
  buffer.positions.map buffer.entry

@[simp] theorem length_walk (buffer : AesdCircularBuffer) : buffer.walk.length = 10 := by
  simp [walk, positions]

/-- The number of bytes that the entries say they hold, not reduced to a `size_t`. -/
def total (buffer : AesdCircularBuffer) : Nat := (buffer.walk.map AesdBufferEntry.size).sum

end AesdCircularBuffer

open AesdCircularBuffer

variable {buffer : AesdCircularBuffer}

/-- The search loop is a lookup in the entries left, as long as no length wraps around. -/
theorem findLoop_eq (charOffset rtn : Nat) (is : List Nat) (accLength : Nat)
    (reached : accLength ≤ charOffset)
    (fits : accLength + ((is.map (currentPos buffer.outOffs)).map
      (fun pos => (buffer.entry pos).size)).sum < 2 ^ 64) :
    findLoop buffer charOffset rtn is accLength =
      match locate (fun pos => (buffer.entry pos).size) (is.map (currentPos buffer.outOffs))
        (charOffset - accLength) with
      | none => (none, rtn)
      | some (pos, byte) => (some pos, byte) := by
  induction is generalizing accLength with
  | nil => rfl
  | cons i is ih =>
    simp only [List.map_cons, List.sum_cons] at fits
    have reach : toSizeT ((accLength : Int) + (buffer.entry (currentPos buffer.outOffs i)).size) =
        accLength + (buffer.entry (currentPos buffer.outOffs i)).size := by
      rw [← Int.natCast_add]
      exact toSizeT_of_lt (by omega)
    simp only [findLoop, List.map_cons, locate, reach]
    by_cases inside : charOffset < accLength + (buffer.entry (currentPos buffer.outOffs i)).size
    · rw [if_pos inside, if_pos (by omega), ← Int.natCast_sub reached,
        toSizeT_of_lt (by omega)]
    · rw [if_neg inside, if_neg (by omega), ih _ (by omega) (by omega), Nat.sub_add_eq]

/-- `aesd_circular_buffer_find_entry_offset_for_fpos` finds the entry and the byte in it that
`char_offset` falls on when the ten entries are laid end to end. -/
theorem find_eq (charOffset rtn : Nat) (fits : buffer.total < 2 ^ 64) :
    aesdCircularBufferFindEntryOffsetForFpos buffer charOffset rtn =
      match locate (fun pos => (buffer.entry pos).size) buffer.positions charOffset with
      | none => (none, rtn)
      | some (pos, byte) => (some pos, byte) := by
  refine findLoop_eq charOffset rtn _ 0 (Nat.zero_le _) ?_
  rw [Nat.zero_add]
  simpa [total, walk, positions, Function.comp_def] using fits

theorem foldl_size_eq (pick : Nat → Nat) (is : List Nat) (acc : Nat)
    (fits : acc + (is.map pick).sum < 2 ^ 64) :
    is.foldl (fun (size : Nat) i => toSizeT (size + pick i)) acc = acc + (is.map pick).sum := by
  induction is generalizing acc with
  | nil => simp
  | cons i is ih =>
    simp only [List.map_cons, List.sum_cons] at fits ⊢
    rw [List.foldl_cons, ← Int.natCast_add, toSizeT_of_lt (by omega), ih _ (by omega),
      Nat.add_assoc]

theorem aesdCircularBufferSize_eq (fits : buffer.total < 2 ^ 64) :
    aesdCircularBufferSize buffer = buffer.total := by
  have sum : buffer.total = ((List.range aesdcharMaxWriteOperationsSupported).map
      fun i => (buffer.entry (currentPos buffer.outOffs i)).size).sum := by
    simp [total, walk, positions, Function.comp_def]
  rw [sum] at fits ⊢
  rw [aesdCircularBufferSize, foldl_size_eq _ _ 0 (by omega), Nat.zero_add]

end Aesd.Driver
