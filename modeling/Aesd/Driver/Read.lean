import Aesd.Driver.Ownership

/-! What `aesd_read` gives: the bytes of the device contents from the file position on, up to the
end of an entry. -/

namespace Aesd.Driver

open Aesd.CInt ProofKit

variable {kernel : Kernel} {base : Nat × List UInt8} {ring : List Held} {wip : Option Held}
  {frame : KHeap}

section Read

variable (h : Holds kernel base ring wip frame)

include h

theorem Holds.entry_cases {pos : Fin aesdcharMaxWriteOperationsSupported}
    (met : pos ∈ kernel.dev.buffer.positions) :
    (∃ x ∈ ring, kernel.dev.buffer.entry pos = x.entry) ∨
      kernel.dev.buffer.entry pos = .zero := by
  have walked : kernel.dev.buffer.entry pos ∈ kernel.dev.buffer.walk := List.mem_map_of_mem met
  rw [h.represents.walk_eq, List.mem_append] at walked
  rcases walked with stored | empty
  · obtain ⟨x, hx, eq⟩ := List.mem_map.mp stored
    exact .inl ⟨x, hx, eq.symm⟩
  · exact .inr (List.eq_of_mem_replicate empty)

theorem Holds.length_entryBytes {pos : Fin aesdcharMaxWriteOperationsSupported}
    (met : pos ∈ kernel.dev.buffer.positions) :
    (entryBytes kernel.heap (kernel.dev.buffer.entry pos)).length =
      (kernel.dev.buffer.entry pos).size := by
  rcases h.entry_cases met with ⟨x, hx, eq⟩ | eq
  · rw [eq, h.entryBytes_eq (List.mem_append_left _ hx)]
    rfl
  · rw [eq]
    rfl

/-- The contents are the bytes of the ten entries laid end to end. -/
theorem Holds.contents_eq : kernel.contents =
    (kernel.dev.buffer.positions.map
      fun pos => entryBytes kernel.heap (kernel.dev.buffer.entry pos)).flatten := by
  have zeros (n : Nat) : ((List.replicate n AesdBufferEntry.zero).map
      (entryBytes kernel.heap)).flatten = [] := by
    simp [entryBytes, AesdBufferEntry.zero]
  have bytes : (ring.map Held.entry).map (entryBytes kernel.heap) = ring.map Held.bytes := by
    rw [List.map_map]
    exact List.map_congr_left fun x hx => h.entryBytes_eq (List.mem_append_left _ hx)
  calc kernel.contents = (kernel.dev.buffer.walk.map (entryBytes kernel.heap)).flatten := by
        rw [Kernel.contents, h.stored_eq, h.represents.walk_eq, List.map_append,
          List.flatten_append, zeros, List.append_nil, bytes]
    _ = _ := by simp only [AesdCircularBuffer.walk, List.map_map, Function.comp_def]

/-- A read that the kernel lets through gives nothing at or past the end of the contents. Before
it, unless the copy to the user fails, it gives the next bytes: as many as asked for, or fewer
when an entry ends there, and at least one when any are asked for. -/
theorem aesdRead_spec (count : Nat) (fPos : Int) (uncopied : Nat) :
    ∃ n ≤ count, (0 < count → toSizeT fPos < kernel.contents.length → 0 < n) ∧
      toSizeT fPos + n ≤ max (toSizeT fPos) kernel.contents.length ∧
      aesdRead kernel count fPos { uncopied } =
        .ok (if kernel.contents.length ≤ toSizeT fPos then ⟨0, [], fPos⟩
          else if uncopied = 0 then
            ⟨n, (kernel.contents.drop (toSizeT fPos)).take n, toLoffT (fPos + n)⟩
          else ⟨-efault, ((kernel.contents.drop (toSizeT fPos)).take n).take (n - uncopied),
            fPos⟩) := by
  have total : (kernel.dev.buffer.positions.map
      fun pos => (kernel.dev.buffer.entry pos).size).sum = kernel.contents.length := by
    rw [h.contents_eq]
    exact (length_flatten_map fun pos met => h.length_entryBytes met).symm
  have bound := h.length_contents
  have found : aesdCircularBufferFindEntryOffsetForFpos kernel.dev.buffer (toSizeT fPos) 0 = _ :=
    find_eq (toSizeT fPos) 0 (by rw [h.total_eq]; omega)
  unfold aesdRead
  rw [found]
  cases place : locate (fun pos => (kernel.dev.buffer.entry pos).size)
    kernel.dev.buffer.positions (toSizeT fPos) with
  | none =>
    have past : kernel.contents.length ≤ toSizeT fPos := by
      rw [← total]
      exact locate_eq_none.mp place
    refine ⟨0, Nat.zero_le _, by omega, by omega, ?_⟩
    rw [if_pos past]
    rfl
  | some at_ =>
    obtain ⟨pos, o⟩ := at_
    obtain ⟨before, after, split, inside, -⟩ := locate_eq_some.mp place
    have met : pos ∈ kernel.dev.buffer.positions := by simp [split]
    -- only a stored entry has a byte to point at
    obtain ⟨x, hx, eq⟩ := (h.entry_cases met).resolve_right fun zero => by
      simp [zero, AesdBufferEntry.zero] at inside
    have mem := List.mem_append_left wip.toList hx
    have small : x.bytes.length < 2 ^ 31 := h.small x mem
    simp only [eq, Held.entry_size] at inside
    obtain ⟨rest, drop⟩ := flatten_drop_of_locate (fun pos met => h.length_entryBytes met) place
    rw [← h.contents_eq, eq, h.entryBytes_eq mem] at drop
    have len := congrArg List.length drop
    simp only [List.length_drop, List.length_append] at len
    have more : ¬kernel.contents.length ≤ toSizeT fPos := by omega
    refine ⟨min count (x.bytes.length - o), Nat.min_le_left _ _, by omega, by omega, ?_⟩
    have left : toSizeT ((x.bytes.length : Int) - o) = x.bytes.length - o := by
      rw [← Int.natCast_sub (by omega)]
      exact toSizeT_of_lt (by omega)
    have clamp : (if x.bytes.length - o < count then x.bytes.length - o else count) =
        min count (x.bytes.length - o) := by
      split <;> omega
    have loaded : load kernel.heap (some x.addr) o (min count (x.bytes.length - o)) =
        .ok ((kernel.contents.drop (toSizeT fPos)).take (min count (x.bytes.length - o))) := by
      have owned : (x.addr, x.bytes ++ [0]) ∈ base :: (ring ++ wip.toList).map Held.block :=
        List.mem_cons_of_mem _ (List.mem_map_of_mem mem)
      rw [load_owned h.owns owned (by simp; omega), drop,
        List.drop_append_of_le_length (by omega),
        List.take_append_of_le_length (by simp),
        List.take_append_of_le_length (by simp)]
    simp only [eq, Held.entry_size, Held.entry_buffptr, left, clamp, loaded, ok_bind,
      Bool.false_eq_true, ite_false, if_neg more]
    have ret : toLoffT ((min count (x.bytes.length - o) : Nat) : Int) =
        (min count (x.bytes.length - o) : Nat) := toLoffT_of_range (by omega) (by omega)
    by_cases copied : uncopied = 0
    · simp only [copied, ne_eq, not_true_eq_false, ite_false, ite_true, ret]
      rfl
    · simp only [copied, ne_eq, not_false_eq_true, ite_true, ite_false]
      rfl

end Read

end Aesd.Driver
