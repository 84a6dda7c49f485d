import Aesd.Driver.Ownership
import Mathlib.Data.List.GetD
import Mathlib.Data.List.Induction

/-! What `aesd_write` does: a write that gets its block and its bytes appends them to the working
entry, and stores that entry when it ends a line; any other write changes nothing that a reader
can see. -/

namespace Aesd.Driver

open Aesd.CInt ProofKit

variable {kernel : Kernel} {base : Nat × List UInt8} {ring : List Held} {wip : Option Held}
  {frame : KHeap}

/-- The last byte that `aesd_write` looks at: with no byte at all it is the one in front of the
block. -/
def lastByte (bytes : List UInt8) (stray : UInt8) : UInt8 := bytes.getLast?.getD stray

theorem getD_lastByte (bytes : List UInt8) (stray : UInt8) (short : bytes.length < 2 ^ 63) :
    (bytes ++ [0]).getD (toSizeT (bytes.length - 1)) stray = lastByte bytes stray := by
  cases bytes using List.reverseRecOn with
  | nil => rfl
  | append_singleton bytes b =>
    have index : toSizeT (((bytes ++ [b]).length : Int) - 1) = bytes.length := by
      simp only [List.length_append, List.length_singleton] at short ⊢
      rw [show ((bytes.length + 1 : Nat) : Int) - 1 = (bytes.length : Nat) by omega]
      exact toSizeT_of_lt (by omega)
    rw [index, lastByte, List.getLast?_concat, Option.getD_some, List.append_assoc,
      List.getD_append_right _ _ _ _ (Nat.le_refl _)]
    simp

theorem exists_append_three {α : Type} (xs : List α) {a b c : Nat} (h : xs.length = a + b + c) :
    ∃ left mid right, xs = left ++ mid ++ right ∧ left.length = a ∧ mid.length = b ∧
      right.length = c := by
  refine ⟨xs.take a, (xs.drop a).take b, (xs.drop a).drop b, ?_, ?_, ?_, ?_⟩
  · rw [List.append_assoc, List.take_append_drop, List.take_append_drop]
  all_goals simp; omega

/-- The new block of a write holds the bytes of the working entry, then the bytes copied from the
user, then what is left of the block: the terminator when all bytes were copied. -/
theorem fillBlock_owned {heap : KHeap} {p : Nat} {block : List UInt8} (wip : Option Held)
    (buf : List UInt8) {owned : List (Nat × List UInt8)}
    (own : heap.Owns ((p, block) :: owned) frame) (mem : ∀ w ∈ wip, w.block ∈ owned)
    (len : block.length = ((wip.map Held.bytes).getD []).length + buf.length + 1)
    (short : block.length < 2 ^ 64) (uncopied : Nat) :
    ∃ heap' rest, fillBlock heap p ((wip.map Held.entry).getD .zero) buf uncopied = .ok heap' ∧
      heap'.Owns ((p, (wip.map Held.bytes).getD [] ++ buf.take (buf.length - uncopied) ++ rest)
        :: owned) frame ∧ (uncopied = 0 → rest = [0]) := by
  obtain ⟨left, mid, right, rfl, left_len, mid_len, right_len⟩ := exists_append_three block len
  have size : ((wip.map Held.entry).getD .zero).size = left.length := by
    rw [left_len]
    cases wip <;> rfl
  have stop : toSizeT (left.length + buf.length) = (left ++ mid).length := by
    rw [← Int.natCast_add, toSizeT_of_lt (by omega), List.length_append]
    omega
  -- the terminator
  obtain ⟨heap1, store1, own1⟩ : ∃ heap1,
      store heap p (left ++ mid).length [0] = .ok heap1 ∧
        heap1.Owns ((p, left ++ mid ++ [0]) :: owned) frame := by
    have := store_owned (left ++ mid) right [] [0] (by rwa [List.append_nil]) (by simp [right_len])
    rwa [List.append_nil] at this
  -- the bytes of the working entry
  obtain ⟨heap2, copy2, own2⟩ : ∃ heap2,
      copyWipEntry heap1 p ((wip.map Held.entry).getD .zero) = .ok heap2 ∧
        heap2.Owns ((p, (wip.map Held.bytes).getD [] ++ mid ++ [0]) :: owned) frame := by
    cases wip with
    | none =>
      obtain rfl : left = [] := List.length_eq_zero_iff.mp left_len
      exact ⟨heap1, rfl, own1⟩
    | some w =>
      have w_len : w.bytes.length = left.length := left_len.symm
      have loaded : load heap1 (some w.addr) 0 left.length = .ok w.bytes := by
        rw [load_owned own1 (List.mem_cons_of_mem _ (mem w rfl)) (by simp [w_len]),
          ← w_len, List.drop_zero, List.take_left]
      obtain ⟨heap2, store2, own2⟩ := store_owned [] left (mid ++ [0]) w.bytes
        (by simpa using own1) w_len
      exact ⟨heap2, by simpa [copyWipEntry, memcpy, w_len, loaded] using store2,
        by simpa using own2⟩
  -- the bytes from the user
  have cut : (buf.take (buf.length - uncopied)).length =
      (mid.take (buf.length - uncopied)).length := by
    simp [mid_len]
  obtain ⟨heap3, store3, own3⟩ := store_owned ((wip.map Held.bytes).getD [])
    (mid.take (buf.length - uncopied)) (mid.drop (buf.length - uncopied) ++ [0])
    (buf.take (buf.length - uncopied))
    (by simpa [List.append_assoc, ← List.append_assoc (mid.take _)] using own2) cut
  refine ⟨heap3, mid.drop (buf.length - uncopied) ++ [0], ?_, own3, ?_⟩
  · rw [← left_len] at store3
    simp only [fillBlock, size, stop, store1, copy2, ok_bind, copyFromUser]
    exact store3
  · rintro rfl
    simp [← mid_len]

/-- The stored entries and the working entry once the working entry is `x`: it is stored when it
ends a line, and the oldest entry makes room for it. -/
def flush (ring : List Held) (x : Held) (stray : UInt8) : List Held × Option Held :=
  if lastByte x.bytes stray = newline then (window 10 (ring ++ [x]), none) else (ring, some x)

/-- The circular buffer after the working entry became `x`. -/
def flushBuffer (buffer : AesdCircularBuffer) (x : Held) (stray : UInt8) : AesdCircularBuffer :=
  if lastByte x.bytes stray = newline then (aesdCircularBufferAddEntry buffer x.entry).2
  else buffer

theorem kfree_outdated {heap : KHeap} {x : Held} (len : ring.length ≤ 10)
    (own : heap.Owns (base :: (ring ++ [x]).map Held.block) frame) :
    ∃ heap', kfree heap (((outdated 10 (ring ++ [x])).head?).map Held.addr) = .ok heap' ∧
      heap'.Owns (base :: (window 10 (ring ++ [x])).map Held.block) frame := by
  by_cases room : (ring ++ [x]).length ≤ 10
  · rw [outdated_of_le room, window_of_le room]
    exact ⟨heap, rfl, own⟩
  · cases ring with
    | nil => simp at room
    | cons oldest others =>
      have nine : others.length + 1 = 10 := by
        simp only [List.length_append, List.length_cons, List.length_nil] at room len
        omega
      obtain ⟨kept, gone⟩ := window_cons_snoc (x := x) nine oldest
      rw [kept, gone]
      exact kfree_owned (own.perm (List.Perm.swap _ _ _))

theorem flushWipEntry_holds {heap : KHeap} {dev : AesdDev} {x : Held} (stray : UInt8)
    (h : Holds ⟨heap, { dev with wipEntry := x.entry }⟩ base ring (some x) frame) :
    ∃ kernel', flushWipEntry heap dev x.addr x.bytes.length stray = .ok kernel' ∧
      kernel'.dev.buffer = flushBuffer dev.buffer x stray ∧
      Holds kernel' base (flush ring x stray).1 (flush ring x stray).2 frame := by
  have own : heap.Owns (base :: (ring ++ [x]).map Held.block) frame := h.owns
  have short : x.bytes.length < 2 ^ 31 := h.small x (by simp)
  have last : byteAt heap x.addr (toSizeT (x.bytes.length - 1)) stray = lastByte x.bytes stray := by
    have front : (base :: (ring ++ [x]).map Held.block).Perm
        (x.block :: base :: ring.map Held.block) := by
      rw [List.map_append]
      exact List.perm_append_singleton _ (base :: ring.map Held.block)
    rw [byteAt_owned (own.perm front), getD_lastByte _ _ (by omega)]
  by_cases ends : lastByte x.bytes stray = newline
  · have added := h.represents.add x.entry
    have mapped : ring.map Held.entry ++ [x.entry] = (ring ++ [x]).map Held.entry := by simp
    obtain ⟨heap', free, own'⟩ := kfree_outdated h.length_ring own
    have oldbuf : (aesdCircularBufferAddEntry dev.buffer x.entry).1 =
        ((outdated 10 (ring ++ [x])).head?).map Held.addr := by
      rw [added.2, mapped, ← map_outdated, List.head?_map]
      cases (outdated 10 (ring ++ [x])).head? <;> rfl
    refine ⟨⟨heap', dev.bufferptr, (aesdCircularBufferAddEntry dev.buffer x.entry).2, .zero⟩, ?_,
      by rw [flushBuffer, if_pos ends], ?_⟩
    · simp only [flushWipEntry, last, if_pos ends]
      change (kfree heap (aesdCircularBufferAddEntry dev.buffer x.entry).1 >>= _) = _
      rw [oldbuf, free]
      rfl
    · rw [flush, if_pos ends]
      refine ⟨h.bufferptr, ?_, ?_, rfl, fun y hy => h.small y ?_⟩
      · simpa using own'
      · rw [map_window, ← mapped]
        exact added.1
      · exact window_sublist.subset (by simpa using hy)
  · refine ⟨⟨heap, { dev with wipEntry := x.entry }⟩, ?_, by rw [flushBuffer, if_neg ends], ?_⟩
    · simp only [flushWipEntry, last, if_neg ends]
      rfl
    · rw [flush, if_neg ends]
      exact h

/-- What a write needs from the kernel to go through. -/
def WriteSucceeds (kernel : Kernel) (buf : UserBuf) (env : WriteEnv) : Prop :=
  env.interrupted = false ∧ env.uncopied = 0 ∧
    (kmalloc kernel.heap (kernel.pending.length + buf.bytes.length + 1) env.allocation).isSome

/-- The file position that a write leaves. -/
def endOfWrite (kernel : Kernel) : Int := toLoffT (toSizeT (kernel.contents.length - 1))

theorem kfree_wip {heap : KHeap} {x : Held}
    (own : heap.Owns (x.block :: base :: (ring ++ wip.toList).map Held.block) frame) :
    ∃ heap', kfree heap ((wip.map Held.entry).getD .zero).buffptr = .ok heap' ∧
      heap'.Owns (base :: (ring ++ [x]).map Held.block) frame := by
  have back : (x.block :: base :: ring.map Held.block).Perm
      (base :: (ring ++ [x]).map Held.block) := by
    rw [List.map_append]
    exact (List.perm_append_singleton _ (base :: ring.map Held.block)).symm
  cases wip with
  | none =>
    exact ⟨heap, rfl, (by simpa using own : heap.Owns (x.block :: base :: _) frame).perm back⟩
  | some w =>
    have front : (x.block :: base :: (ring ++ [w]).map Held.block).Perm
        (w.block :: x.block :: base :: ring.map Held.block) := by
      rw [List.map_append]
      exact List.perm_append_singleton _ (x.block :: base :: ring.map Held.block)
    obtain ⟨heap', free, own'⟩ := kfree_owned (own.perm front)
    exact ⟨heap', free, own'.perm back⟩

section Write

variable (h : Holds kernel base ring wip frame) (buf : UserBuf) (fPos : Int) (env : WriteEnv)

include h

theorem Holds.request_eq :
    toSizeT (kernel.dev.wipEntry.size + buf.bytes.length + 1) =
      kernel.pending.length + buf.bytes.length + 1 := by
  have wip := h.wip_short
  have new := buf.short
  rw [h.wip_size, h.pending_eq, ← Int.natCast_add, ← Int.natCast_succ]
  exact toSizeT_of_lt (by omega)

theorem Holds.newSize_eq :
    toSizeT (kernel.dev.wipEntry.size + buf.bytes.length) =
      (kernel.pending ++ buf.bytes).length := by
  have wip := h.wip_short
  have new := buf.short
  rw [h.wip_size, h.pending_eq, ← Int.natCast_add, List.length_append]
  exact toSizeT_of_lt (by omega)

/-- The new block filled and the old one freed, the working entry owns the new one. -/
theorem Holds.working {found : Allocation} {heap : KHeap}
    (granted : kmalloc kernel.heap (kernel.pending.length + buf.bytes.length + 1) (some found) =
      some (found.addr, heap)) :
    ∃ filled freed, fillBlock heap found.addr kernel.dev.wipEntry buf.bytes 0 = .ok filled ∧
      kfree filled kernel.dev.wipEntry.buffptr = .ok freed ∧
      Holds ⟨freed, { kernel.dev with
        wipEntry := Held.entry ⟨found.addr, kernel.pending ++ buf.bytes⟩ }⟩ base ring
        (some ⟨found.addr, kernel.pending ++ buf.bytes⟩) frame := by
  obtain ⟨found', same, -, fits, alloc⟩ := kmalloc_eq_some granted
  obtain rfl := Option.some.inj same
  let x : Held := ⟨found.addr, kernel.pending ++ buf.bytes⟩
  have pending := h.pending_eq
  have limit : kmallocMaxSize = 2 ^ 31 := rfl
  obtain ⟨filled, rest, fill, own, whole⟩ := fillBlock_owned wip buf.bytes
    (h.owns.alloc alloc) (fun w hw => List.mem_cons_of_mem _ (List.mem_map_of_mem (by
      simp [Option.mem_toList.mpr hw]))) (by simp [pending]) (by simp; omega) 0
  obtain rfl := whole rfl
  rw [Nat.sub_zero, List.take_length, ← pending] at own
  obtain ⟨freed, drop, own'⟩ := kfree_wip (x := x) own
  rw [← h.wipEntry] at fill drop
  refine ⟨filled, freed, fill, drop, h.bufferptr, own', h.represents, rfl, fun y hy => ?_⟩
  rcases List.mem_append.mp hy with old | new
  · exact h.small y (List.mem_append_left _ old)
  · obtain rfl : y = x := by simpa using new
    simp only [x, List.length_append]
    omega

/-- A write that gets its block and its bytes appends them to the working entry, and stores that
entry when it ends a line. -/
theorem aesdWrite_success (ok : WriteSucceeds kernel buf env) :
    ∃ found kernel', env.allocation = some found ∧
      aesdWrite kernel buf fPos env = .ok ⟨buf.bytes.length, kernel', endOfWrite kernel'⟩ ∧
      kernel'.dev.buffer = flushBuffer kernel.dev.buffer
        ⟨found.addr, kernel.pending ++ buf.bytes⟩ env.stray ∧
      Holds kernel' base (flush ring ⟨found.addr, kernel.pending ++ buf.bytes⟩ env.stray).1
        (flush ring ⟨found.addr, kernel.pending ++ buf.bytes⟩ env.stray).2 frame := by
  obtain ⟨free, copied, granted⟩ := ok
  obtain ⟨⟨bptr, heap⟩, request⟩ := Option.isSome_iff_exists.mp granted
  obtain ⟨found, allocation, rfl, -, -⟩ := kmalloc_eq_some request
  rw [allocation] at request
  obtain ⟨filled, freed, fill, drop, working⟩ := h.working buf request
  obtain ⟨kernel', flushed, buffer, holds⟩ := flushWipEntry_holds env.stray working
  refine ⟨found, kernel', allocation, ?_, buffer, holds⟩
  unfold aesdWrite
  simp only [free, copied, allocation, h.request_eq buf, h.newSize_eq buf, request, fill, drop,
    ok_bind, Bool.false_eq_true, ne_eq, not_true_eq_false, ite_false]
  simp only at flushed
  rw [flushed, ok_bind, holds.size_eq]
  rfl

/-- A write that fails at the lock or at `kmalloc` changes nothing. -/
theorem aesdWrite_refused (refused : env.interrupted = true ∨
    kmalloc kernel.heap (kernel.pending.length + buf.bytes.length + 1) env.allocation = none) :
    ∃ retval < 0, aesdWrite kernel buf fPos env = .ok ⟨retval, kernel, fPos⟩ := by
  unfold aesdWrite
  by_cases interrupted : env.interrupted = true
  · exact ⟨-erestartsys, by decide, if_pos interrupted⟩
  · refine ⟨-enomem, by decide, ?_⟩
    simp only [interrupted, h.request_eq buf, refused.resolve_left interrupted,
      Bool.false_eq_true, ite_false]

omit h in
theorem aesdWrite_interrupted (lock : env.interrupted = true) :
    aesdWrite kernel buf fPos env = .ok ⟨-erestartsys, kernel, fPos⟩ := if_pos lock

theorem aesdWrite_noMemory (lock : ¬env.interrupted = true)
    (refused : kmalloc kernel.heap (kernel.pending.length + buf.bytes.length + 1)
      env.allocation = none) :
    aesdWrite kernel buf fPos env = .ok ⟨-enomem, kernel, fPos⟩ := by
  rw [aesdWrite, if_neg lock, h.request_eq buf, refused]

/-- A write that fails to copy from the user forgets its new block: the block stays live and joins
the memory that is not the driver's. -/
theorem aesdWrite_faulted (free : env.interrupted = false) (faulted : env.uncopied ≠ 0)
    (granted : (kmalloc kernel.heap (kernel.pending.length + buf.bytes.length + 1)
      env.allocation).isSome) :
    ∃ found heap' block, env.allocation = some found ∧ found.addr ∉ kernel.heap ∧
      aesdWrite kernel buf fPos env = .ok ⟨-efault, { kernel with heap := heap' }, fPos⟩ ∧
      Holds { kernel with heap := heap' } base ring wip (frame.insert found.addr block) := by
  obtain ⟨⟨bptr, heap1⟩, request⟩ := Option.isSome_iff_exists.mp granted
  obtain ⟨found, allocation, rfl, fits, alloc⟩ := kmalloc_eq_some request
  have limit : kmallocMaxSize = 2 ^ 31 := rfl
  obtain ⟨heap2, rest, fill, own2, -⟩ := fillBlock_owned wip buf.bytes
    (h.owns.alloc alloc) (fun w hw => List.mem_cons_of_mem _ (List.mem_map_of_mem (by
      simp [Option.mem_toList.mpr hw]))) (by simp [h.pending_eq]) (by simp; omega) env.uncopied
  rw [← h.wipEntry] at fill
  refine ⟨found, heap2, _, allocation, Heap.not_mem_of_alloc alloc, ?_,
    h.bufferptr, own2.leak, h.represents, h.wipEntry, h.small⟩
  simp only [aesdWrite, free, h.request_eq buf, request, fill, ok_bind, faulted, ne_eq,
    not_false_eq_true, ite_true, Bool.false_eq_true, ite_false]
  rfl

/-- Any write that does not go through reports an error and leaves the device and the file position
as they were. -/
theorem aesdWrite_failure (bad : ¬WriteSucceeds kernel buf env) :
    ∃ result frame', aesdWrite kernel buf fPos env = .ok result ∧ result.retval < 0 ∧
      result.fPos = fPos ∧ result.kernel.dev = kernel.dev ∧
      Holds result.kernel base ring wip frame' ∧ (∀ p, p ∈ frame → p ∈ frame') ∧
      (env.uncopied = 0 → result.kernel = kernel) := by
  by_cases refused : env.interrupted = true ∨
    kmalloc kernel.heap (kernel.pending.length + buf.bytes.length + 1) env.allocation = none
  · obtain ⟨retval, negative, ok⟩ := aesdWrite_refused h buf fPos env refused
    exact ⟨_, frame, ok, negative, rfl, rfl, h, fun _ => id, fun _ => rfl⟩
  · obtain ⟨free, granted⟩ := not_or.mp refused
    rw [Bool.not_eq_true] at free
    replace granted := Option.isSome_iff_ne_none.mpr granted
    have faulted : env.uncopied ≠ 0 := fun copied => bad ⟨free, copied, granted⟩
    obtain ⟨found, heap', block, -, -, ok, holds⟩ :=
      aesdWrite_faulted h buf fPos env free faulted granted
    exact ⟨_, _, ok, (by decide : -efault < 0), rfl, rfl, holds,
      fun p hp => (AList.mem_insert _).mpr (.inr hp), fun copied => absurd copied faulted⟩

end Write

end Aesd.Driver
