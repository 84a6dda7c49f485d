import Aesd.Driver.Char
import Aesd.Driver.Fifo
import Mathlib.Algebra.Order.BigOperators.Group.List
import Mathlib.Algebra.Order.Ring.Nat
import Mathlib.Algebra.Group.Action.Defs

/-! Which blocks of kernel memory the driver holds, and what each operation does with them. The
driver holds the block of the circular buffer, one block for each stored entry and one for the
working entry; every other block belongs to someone else and is never touched. -/

namespace Aesd.Driver

open Aesd.CInt ProofKit

/-- A block that the driver holds: its address, and the bytes stored in it in front of the
terminator. -/
structure Held where
  addr : Nat
  bytes : List UInt8
  deriving DecidableEq, Repr

namespace Held

/-- The entry that refers to the block. -/
def entry (x : Held) : AesdBufferEntry := ⟨some x.addr, x.bytes.length⟩

/-- The block with its contents. -/
def block (x : Held) : Nat × List UInt8 := (x.addr, x.bytes ++ [0])

@[simp] theorem entry_buffptr (x : Held) : x.entry.buffptr = some x.addr := rfl

@[simp] theorem entry_size (x : Held) : x.entry.size = x.bytes.length := rfl

end Held

/-- The bytes stored for an entry. -/
def entryBytes (heap : KHeap) (entry : AesdBufferEntry) : List UInt8 :=
  match entry.buffptr with
  | none => []
  | some p => ((heap.lookup p).getD []).take entry.size

/-- The stored entries of the device, oldest first. -/
def Kernel.stored (kernel : Kernel) : List (List UInt8) :=
  (kernel.dev.buffer.walk.filter (·.buffptr.isSome)).map (entryBytes kernel.heap)

/-- The bytes of the working entry. -/
def Kernel.pending (kernel : Kernel) : List UInt8 := entryBytes kernel.heap kernel.dev.wipEntry

def Kernel.contents (kernel : Kernel) : List UInt8 := kernel.stored.flatten

/-- The driver holds the block `base` for the circular buffer, the blocks `ring` for the stored
entries, oldest first, and `wip` for the working entry, and `frame` is the rest of memory. -/
structure Holds (kernel : Kernel) (base : Nat × List UInt8) (ring : List Held)
    (wip : Option Held) (frame : KHeap) : Prop where
  bufferptr : kernel.dev.bufferptr = some base.1
  owns : kernel.heap.Owns (base :: (ring ++ wip.toList).map Held.block) frame
  represents : Represents kernel.dev.buffer (ring.map Held.entry)
  wipEntry : kernel.dev.wipEntry = (wip.map Held.entry).getD .zero
  small : ∀ x ∈ ring ++ wip.toList, x.bytes.length < kmallocMaxSize

variable {kernel : Kernel} {base : Nat × List UInt8} {ring : List Held} {wip : Option Held}
  {frame : KHeap}

namespace Holds

theorem entryBytes_eq (h : Holds kernel base ring wip frame) {x : Held}
    (hx : x ∈ ring ++ wip.toList) : entryBytes kernel.heap x.entry = x.bytes := by
  have held := h.owns.held x.block (List.mem_cons_of_mem _ (List.mem_map_of_mem hx))
  simp only [Held.block] at held
  simp [entryBytes, held]

theorem stored_eq (h : Holds kernel base ring wip frame) :
    kernel.stored = ring.map Held.bytes := by
  have named : (ring.map Held.entry).filter (·.buffptr.isSome) = ring.map Held.entry :=
    List.filter_eq_self.mpr (by simp)
  have zeros (n : Nat) :
      (List.replicate n AesdBufferEntry.zero).filter (·.buffptr.isSome) = [] := by
    simp [AesdBufferEntry.zero]
  rw [Kernel.stored, h.represents.walk_eq, List.filter_append, named, zeros, List.append_nil,
    List.map_map]
  exact List.map_congr_left fun x hx => h.entryBytes_eq (List.mem_append_left _ hx)

theorem pending_eq (h : Holds kernel base ring wip frame) :
    kernel.pending = (wip.map Held.bytes).getD [] := by
  rw [Kernel.pending, h.wipEntry]
  cases wip with
  | none => rfl
  | some w => exact h.entryBytes_eq (x := w) (by simp)

theorem length_ring (h : Holds kernel base ring wip frame) : ring.length ≤ 10 := by
  simpa using h.represents.length_le

theorem total_eq (h : Holds kernel base ring wip frame) :
    kernel.dev.buffer.total = kernel.contents.length := by
  rw [h.represents.total_eq, Kernel.contents, h.stored_eq, List.length_flatten, List.map_map,
    List.map_map]
  rfl

/-- Ten entries that `kmalloc` could serve are far from overflowing any of the types that hold a
length or a position. -/
theorem length_contents (h : Holds kernel base ring wip frame) :
    kernel.contents.length ≤ 10 * 2 ^ 31 := by
  have bound : ∀ n ∈ ring.map (List.length ∘ Held.bytes), n ≤ 2 ^ 31 := by
    intro n hn
    obtain ⟨x, hx, rfl⟩ := List.mem_map.mp hn
    exact Nat.le_of_lt (h.small x (List.mem_append_left _ hx))
  have sum := List.sum_le_card_nsmul _ _ bound
  have len := h.length_ring
  rw [Kernel.contents, h.stored_eq, List.length_flatten, List.map_map]
  simp only [List.length_map, smul_eq_mul] at sum
  calc _ ≤ ring.length * 2 ^ 31 := sum
    _ ≤ 10 * 2 ^ 31 := Nat.mul_le_mul_right _ len

theorem size_eq (h : Holds kernel base ring wip frame) :
    aesdCircularBufferSize kernel.dev.buffer = kernel.contents.length := by
  have bound := h.length_contents
  rw [aesdCircularBufferSize_eq (by rw [h.total_eq]; omega), h.total_eq]

theorem wip_size (h : Holds kernel base ring wip frame) :
    kernel.dev.wipEntry.size = ((wip.map Held.bytes).getD []).length := by
  rw [h.wipEntry]
  cases wip <;> rfl

theorem wip_short (h : Holds kernel base ring wip frame) :
    ((wip.map Held.bytes).getD []).length < 2 ^ 31 := by
  cases wip with
  | none => simp
  | some w => exact h.small w (by simp)

end Holds

end Aesd.Driver
