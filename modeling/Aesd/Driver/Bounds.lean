import Aesd.Driver.Lookup
import Aesd.ProofKit.Noted

/-! Every index that `aesd_write` and `aesd_read` access. The noted functions are those of the
driver with services that note down the range they access; what they access is inside the blocks,
but for the test of the last byte when there is no byte. -/

namespace Aesd.Driver

open Aesd.CInt ProofKit

/-- An access to `count` bytes from index `offset` of the block at `block` on. -/
structure Access where
  block : Option Nat
  offset : Nat
  count : Nat
  deriving DecidableEq, Repr

/-- The access stays inside the first `size` bytes of the block at `p`. -/
def Access.Inside (access : Access) (p : Option Nat) (size : Nat) : Prop :=
  access.block = p ∧ access.offset + access.count ≤ size

/-! The services. -/

def loadNoted (heap : KHeap) (p : Option Nat) (offset n : Nat) :
    Noted Fault Access (List UInt8) := do
  note ⟨p, offset, n⟩
  silent (load heap p offset n)

def storeNoted (heap : KHeap) (p offset : Nat) (bytes : List UInt8) : Noted Fault Access KHeap := do
  note ⟨some p, offset, bytes.length⟩
  silent (store heap p offset bytes)

def memcpyNoted (heap : KHeap) (dest : Nat) (src : Option Nat) (n : Nat) :
    Noted Fault Access KHeap := do
  note ⟨src, 0, n⟩
  note ⟨some dest, 0, n⟩
  silent (memcpy heap dest src n)

def copyFromUserNoted (heap : KHeap) (p offset : Nat) (buf : List UInt8) (uncopied : Nat) :
    Noted Fault Access KHeap := do
  note ⟨some p, offset, buf.length⟩
  silent (copyFromUser heap p offset buf uncopied)

/-! The code of `aesd_write` and `aesd_read` over them. -/

def copyWipEntryNoted (heap : KHeap) (bptr : Nat) (wipEntry : AesdBufferEntry) :
    Noted Fault Access KHeap :=
  if wipEntry.buffptr.isSome then memcpyNoted heap bptr wipEntry.buffptr wipEntry.size
  else pure heap

def fillBlockNoted (heap : KHeap) (bptr : Nat) (wipEntry : AesdBufferEntry) (buf : List UInt8)
    (uncopied : Nat) : Noted Fault Access KHeap := do
  let heap ← storeNoted heap bptr (toSizeT (wipEntry.size + buf.length)) [0]
  let heap ← copyWipEntryNoted heap bptr wipEntry
  copyFromUserNoted heap bptr wipEntry.size buf uncopied

def flushWipEntryNoted (heap : KHeap) (dev : AesdDev) (bptr : Nat) (size : Nat) (stray : UInt8) :
    Noted Fault Access Kernel := do
  let wipEntry : AesdBufferEntry := ⟨some bptr, size⟩
  note ⟨some bptr, toSizeT (size - 1), 1⟩
  if byteAt heap bptr (toSizeT (size - 1)) stray = newline then
    let (oldbuf, buffer) := aesdCircularBufferAddEntry dev.buffer wipEntry
    let heap ← silent (kfree heap oldbuf)
    return ⟨heap, { dev with buffer, wipEntry := .zero }⟩
  else return ⟨heap, { dev with wipEntry }⟩

def aesdWriteNoted (kernel : Kernel) (buf : UserBuf) (fPos : Int) (env : WriteEnv) :
    Noted Fault Access WriteResult :=
  let wipEntry := kernel.dev.wipEntry
  let count := buf.bytes.length
  if env.interrupted then pure ⟨-erestartsys, kernel, fPos⟩
  else
    match kmalloc kernel.heap (toSizeT (wipEntry.size + count + 1)) env.allocation with
    | none => pure ⟨-enomem, kernel, fPos⟩
    | some (bptr, heap) => do
      let heap ← fillBlockNoted heap bptr wipEntry buf.bytes env.uncopied
      if env.uncopied ≠ 0 then
        return ⟨-efault, { kernel with heap }, fPos⟩
      let heap ← silent (kfree heap wipEntry.buffptr)
      let kernel ←
        flushWipEntryNoted heap kernel.dev bptr (toSizeT (wipEntry.size + count)) env.stray
      let fPos := toLoffT (toSizeT (aesdCircularBufferSize kernel.dev.buffer - 1))
      return ⟨count, kernel, fPos⟩

def aesdReadNoted (kernel : Kernel) (count : Nat) (fPos : Int) (env : ReadEnv) :
    Noted Fault Access ReadResult :=
  if env.interrupted then pure ⟨-erestartsys, [], fPos⟩
  else
    match aesdCircularBufferFindEntryOffsetForFpos kernel.dev.buffer (toSizeT fPos) 0 with
    | (none, _) => pure ⟨0, [], fPos⟩
    | (some pos, entryPos) => do
      let entry := kernel.dev.buffer.entry pos
      let rest := toSizeT (entry.size - entryPos)
      let count := if rest < count then rest else count
      let bytes ← loadNoted kernel.heap entry.buffptr entryPos count
      if env.uncopied ≠ 0 then
        return ⟨-efault, bytes.take (count - env.uncopied), fPos⟩
      return ⟨toLoffT count, bytes, toLoffT (fPos + count)⟩

/-! What they note. -/

/-- The accesses of `fill_block`, in order. -/
def fillAccesses (bptr : Nat) (wipEntry : AesdBufferEntry) (buf : List UInt8) : List Access :=
  ⟨some bptr, toSizeT (wipEntry.size + buf.length), 1⟩ ::
    ((if wipEntry.buffptr.isSome then
      [⟨wipEntry.buffptr, 0, wipEntry.size⟩, ⟨some bptr, 0, wipEntry.size⟩] else []) ++
    [⟨some bptr, wipEntry.size, buf.length⟩])

theorem fillBlock_notes (heap : KHeap) (bptr : Nat) (wipEntry : AesdBufferEntry)
    (buf : List UInt8) (uncopied : Nat) :
    Notes (fillBlockNoted heap bptr wipEntry buf uncopied)
      (fillBlock heap bptr wipEntry buf uncopied) (fillAccesses bptr wipEntry buf) := by
  have copied (heap : KHeap) : Notes (copyWipEntryNoted heap bptr wipEntry)
      (copyWipEntry heap bptr wipEntry) (if wipEntry.buffptr.isSome then
        [⟨wipEntry.buffptr, 0, wipEntry.size⟩, ⟨some bptr, 0, wipEntry.size⟩] else []) := by
    unfold copyWipEntryNoted copyWipEntry
    split
    · exact .note_bind _ (.note_bind _ (.silent _))
    · exact .pure _
  have terminated : Notes (storeNoted heap bptr (toSizeT (wipEntry.size + buf.length)) [0])
      (store heap bptr (toSizeT (wipEntry.size + buf.length)) [0]) [_] :=
    .note_bind _ (.silent _)
  exact terminated.bind fun heap _ => (copied heap).bind fun heap _ => .note_bind _ (.silent _)

theorem flushWipEntry_notes (heap : KHeap) (dev : AesdDev) (bptr size : Nat) (stray : UInt8) :
    Notes (flushWipEntryNoted heap dev bptr size stray) (flushWipEntry heap dev bptr size stray)
      [⟨some bptr, toSizeT (size - 1), 1⟩] := by
  refine .note_bind _ ?_
  unfold flushWipEntry
  dsimp only
  split
  · exact (Notes.silent _).bind fun heap _ => .pure _
  · exact .pure _

/-- The accesses of a write, in order. -/
def writeAccesses (kernel : Kernel) (buf : UserBuf) (env : WriteEnv) : List Access :=
  let wipEntry := kernel.dev.wipEntry
  let count := buf.bytes.length
  if env.interrupted then []
  else
    match kmalloc kernel.heap (toSizeT (wipEntry.size + count + 1)) env.allocation with
    | none => []
    | some (bptr, _) => fillAccesses bptr wipEntry buf.bytes ++
      if env.uncopied ≠ 0 then []
      else [⟨some bptr, toSizeT ((toSizeT (wipEntry.size + count) : Nat) - 1), 1⟩]

theorem aesdWrite_notes (kernel : Kernel) (buf : UserBuf) (fPos : Int) (env : WriteEnv) :
    Notes (aesdWriteNoted kernel buf fPos env) (aesdWrite kernel buf fPos env)
      (writeAccesses kernel buf env) := by
  unfold aesdWriteNoted aesdWrite writeAccesses
  dsimp only
  split
  · exact .pure _
  rcases kmalloc kernel.heap (toSizeT (kernel.dev.wipEntry.size + buf.bytes.length + 1))
    env.allocation with _ | ⟨bptr, heap⟩
  · exact .pure _
  refine (fillBlock_notes _ _ _ _ _).bind fun heap _ => ?_
  split
  · exact .pure _
  · exact (Notes.silent _).bind fun heap _ =>
      (flushWipEntry_notes _ _ _ _ _).bind fun kernel _ => .pure _

/-- The accesses of a read. -/
def readAccesses (kernel : Kernel) (count : Nat) (fPos : Int) (env : ReadEnv) : List Access :=
  if env.interrupted then []
  else
    match aesdCircularBufferFindEntryOffsetForFpos kernel.dev.buffer (toSizeT fPos) 0 with
    | (none, _) => []
    | (some pos, entryPos) =>
      let entry := kernel.dev.buffer.entry pos
      let rest := toSizeT (entry.size - entryPos)
      [⟨entry.buffptr, entryPos, if rest < count then rest else count⟩]

theorem aesdRead_notes (kernel : Kernel) (count : Nat) (fPos : Int) (env : ReadEnv) :
    Notes (aesdReadNoted kernel count fPos env) (aesdRead kernel count fPos env)
      (readAccesses kernel count fPos env) := by
  unfold aesdReadNoted aesdRead readAccesses
  split
  · exact .pure _
  rcases aesdCircularBufferFindEntryOffsetForFpos kernel.dev.buffer (toSizeT fPos) 0 with
    ⟨_ | pos, entryPos⟩
  · exact .pure _
  have loaded (p : Option Nat) (offset n : Nat) :
      Notes (loadNoted kernel.heap p offset n) (load kernel.heap p offset n) [⟨p, offset, n⟩] :=
    .note_bind _ (.silent _)
  refine (loaded _ _ _).bind fun bytes _ => ?_
  split
  · exact .pure _
  · exact .pure _

/-- The size of the new block does not wrap around, and each access is inside the new block, or
inside the bytes of the working entry that are copied from. -/
def WriteInside (kernel : Kernel) (buf : UserBuf) (env : WriteEnv) (accesses : List Access) :
    Prop :=
  let wipEntry := kernel.dev.wipEntry
  wipEntry.size + buf.bytes.length + 1 < 2 ^ 64 ∧ ∀ access ∈ accesses,
    access.Inside (env.allocation.map Allocation.addr) (wipEntry.size + buf.bytes.length + 1) ∨
    access.Inside wipEntry.buffptr wipEntry.size

/-- A write that gets to the test of the last byte while there is no byte. -/
def TestsNothing (kernel : Kernel) (buf : UserBuf) (env : WriteEnv) : Prop :=
  WriteSucceeds kernel buf env ∧ kernel.dev.wipEntry.size = 0 ∧ buf.bytes = []

theorem fillAccesses_inside {kernel : Kernel} {buf : UserBuf} {env : WriteEnv} {found : Allocation}
    (allocation : env.allocation = some found)
    (fits : kernel.dev.wipEntry.size + buf.bytes.length + 1 < 2 ^ 64) :
    WriteInside kernel buf env (fillAccesses found.addr kernel.dev.wipEntry buf.bytes) := by
  refine ⟨fits, fun access mem => ?_⟩
  have stop : toSizeT (kernel.dev.wipEntry.size + buf.bytes.length) =
      kernel.dev.wipEntry.size + buf.bytes.length := by
    rw [← Int.natCast_add]
    exact toSizeT_of_lt (by omega)
  simp only [fillAccesses, stop, List.mem_cons, List.mem_append, List.not_mem_nil, or_false] at mem
  simp only [allocation, Option.map_some, Access.Inside]
  rcases mem with rfl | mem | rfl
  · exact .inl ⟨rfl, Nat.le_refl _⟩
  · split at mem
    · simp only [List.mem_cons, List.not_mem_nil, or_false] at mem
      rcases mem with rfl | rfl
      · exact .inr ⟨rfl, by simp⟩
      · exact .inl ⟨rfl, by simp only; omega⟩
    · contradiction
  · exact .inl ⟨rfl, Nat.le_succ _⟩

section Inside

variable {kernel : Kernel} {base : Nat × List UInt8} {ring : List Held} {wip : Option Held}
  {frame : KHeap} (h : Holds kernel base ring wip frame)

include h

theorem Holds.wip_fits (buf : UserBuf) :
    kernel.dev.wipEntry.size + buf.bytes.length + 1 < 2 ^ 64 := by
  have wip := h.wip_short
  have new := buf.short
  rw [h.wip_size]
  omega

theorem Holds.writeAccesses_inside (buf : UserBuf) (env : WriteEnv) :
    WriteInside kernel buf env (writeAccesses kernel buf env) ↔ ¬TestsNothing kernel buf env := by
  have fits := h.wip_fits buf
  have request : toSizeT (kernel.dev.wipEntry.size + buf.bytes.length + 1) =
      kernel.pending.length + buf.bytes.length + 1 := h.request_eq buf
  have size : toSizeT (kernel.dev.wipEntry.size + buf.bytes.length) =
      kernel.dev.wipEntry.size + buf.bytes.length := by
    rw [← Int.natCast_add]
    exact toSizeT_of_lt (by omega)
  have nothing : WriteInside kernel buf env [] := ⟨fits, by simp⟩
  simp only [writeAccesses, TestsNothing, WriteSucceeds, request, size]
  cases interrupted : env.interrupted with
  | true => exact iff_of_true nothing (by simp)
  | false =>
    cases granted : kmalloc kernel.heap (kernel.pending.length + buf.bytes.length + 1)
      env.allocation with
    | none => exact iff_of_true nothing (by simp)
    | some new =>
      obtain ⟨bptr, heap⟩ := new
      obtain ⟨found, allocation, rfl, -, -⟩ := kmalloc_eq_some granted
      have filled := fillAccesses_inside allocation fits
      by_cases copied : env.uncopied = 0
      swap
      · simpa [copied] using filled
      -- the test of the last byte is made
      have split (access : Access) : WriteInside kernel buf env
          (fillAccesses found.addr kernel.dev.wipEntry buf.bytes ++ [access]) ↔
            WriteInside kernel buf env [access] := by
        simp only [WriteInside] at filled ⊢
        simp only [List.mem_append, or_imp, forall_and]
        tauto
      simp only [copied, ne_eq, not_true_eq_false, ite_false, Bool.false_eq_true, split,
        Option.isSome_some, and_true, true_and]
      by_cases some_ : kernel.dev.wipEntry.size + buf.bytes.length = 0
      · have none : kernel.dev.wipEntry.size = 0 ∧ buf.bytes = [] :=
          ⟨by omega, List.length_eq_zero_iff.mp (by omega)⟩
        refine iff_of_false (fun inside => ?_) (not_not.mpr none)
        have reach : toSizeT (((kernel.dev.wipEntry.size + buf.bytes.length : Nat) : Int) - 1) =
            2 ^ 64 - 1 := by
          rw [some_]
          decide
        have outside := inside.2 _ (List.mem_singleton.mpr rfl)
        simp only [Access.Inside, reach] at outside
        omega
      · have last : toSizeT (((kernel.dev.wipEntry.size + buf.bytes.length : Nat) : Int) - 1) =
            kernel.dev.wipEntry.size + buf.bytes.length - 1 := by
          rw [← Int.natCast_pred_of_pos (Nat.pos_of_ne_zero some_)]
          exact toSizeT_of_lt (by omega)
        refine iff_of_true ⟨fits, fun access mem => .inl ?_⟩ fun none => some_ ?_
        · rw [List.mem_singleton.mp mem, last, allocation]
          exact ⟨rfl, by simp only; omega⟩
        · rw [none.1, none.2, List.length_nil]

theorem Holds.readAccesses_inside (count : Nat) (fPos : Int) (env : ReadEnv) :
    ∀ access ∈ readAccesses kernel count fPos env, ∃ pos,
      access.Inside (kernel.dev.buffer.entry pos).buffptr (kernel.dev.buffer.entry pos).size := by
  have bytes := h.length_contents
  have total := h.total_eq
  intro access mem
  unfold readAccesses at mem
  split at mem
  · exact absurd mem List.not_mem_nil
  rcases found : aesdCircularBufferFindEntryOffsetForFpos kernel.dev.buffer (toSizeT fPos) 0 with
    ⟨_ | pos, entryPos⟩
  · rw [found] at mem
    exact absurd mem List.not_mem_nil
  rw [found] at mem
  obtain ⟨i, reaches, rfl⟩ := (find_eq_some (by omega)).mp found
  have inside := reaches.2.2
  have stored := h.lt_of_reaches reaches
  have short := Loaded.Owned.stored_short (d := .start kernel) ⟨base, ring, wip, frame, h⟩ _
    (List.getElem_mem stored)
  rw [← h.size_stored (List.getElem?_eq_getElem stored)] at short
  simp only at mem
  generalize currentPos kernel.dev.buffer.outOffs i = pos at *
  have rest : toSizeT ((kernel.dev.buffer.entry pos).size - entryPos) =
      (kernel.dev.buffer.entry pos).size - entryPos := by
    rw [← Int.natCast_sub (Nat.le_of_lt inside)]
    exact toSizeT_of_lt (by omega)
  rw [List.mem_singleton.mp mem, rest]
  refine ⟨pos, rfl, ?_⟩
  simp only
  split <;> omega

end Inside

variable {d : Loaded}

/-- In every state that a loaded module can get into, whatever the count and the position: every
access of `aesd_write` is inside the new block or the copied bytes of the working entry, and the
size of the new block does not wrap around, except when the write has no byte, the working entry
has none either, and the test of the last byte is reached. Every access of `aesd_read` is inside
the bytes of an entry. -/
theorem Loaded.Reachable.accesses_inside (reach : d.Reachable) :
    (∀ buf fPos env, ∃ result accesses,
      aesdWriteNoted d.kernel buf fPos env [] = .ok (result, accesses) ∧
      aesdWrite d.kernel buf fPos env = .ok result ∧
      (WriteInside d.kernel buf env accesses ↔ ¬TestsNothing d.kernel buf env)) ∧
    ∀ count fPos env, ∃ result accesses,
      aesdReadNoted d.kernel count fPos env [] = .ok (result, accesses) ∧
      aesdRead d.kernel count fPos env = .ok result ∧
      ∀ access ∈ accesses, ∃ pos, access.Inside (d.kernel.dev.buffer.entry pos).buffptr
        (d.kernel.dev.buffer.entry pos).size := by
  obtain ⟨base, ring, wip, frame, h⟩ := reach.holds
  refine ⟨fun buf fPos env => ?_, fun count fPos env => ?_⟩
  · obtain ⟨result, ok⟩ : ∃ result, aesdWrite d.kernel buf fPos env = .ok result := by
      by_cases succeeds : WriteSucceeds d.kernel buf env
      · obtain ⟨found, kernel', -, ok, -⟩ := aesdWrite_success h buf fPos env succeeds
        exact ⟨_, ok⟩
      · obtain ⟨result, frame', ok, -⟩ := aesdWrite_failure h buf fPos env succeeds
        exact ⟨_, ok⟩
    refine ⟨result, writeAccesses d.kernel buf env, ?_, ok, h.writeAccesses_inside buf env⟩
    rw [(aesdWrite_notes d.kernel buf fPos env).run, ok]
    rfl
  · obtain ⟨result, ok⟩ := aesdRead_total h count fPos env
    refine ⟨result, readAccesses d.kernel count fPos env, ?_, ok,
      h.readAccesses_inside count fPos env⟩
    rw [(aesdRead_notes d.kernel count fPos env).run, ok]
    rfl

/-- A device with a stored line and a byte that waits, and a write that ends the second line. -/
theorem accesses_inside_pending : ∃ d : Loaded, d.Reachable ∧
    d.kernel.stored = [[97, newline]] ∧ d.kernel.pending = [98] ∧
    ∃ result accesses, aesdWriteNoted d.kernel ⟨[99, newline], by decide⟩ 1
        { allocation := some ⟨4, fun _ => 0⟩ } [] = .ok (result, accesses) ∧
      accesses.length = 5 ∧ WriteInside d.kernel ⟨[99, newline], by decide⟩
        { allocation := some ⟨4, fun _ => 0⟩ } accesses := by
  have reach : Loaded.Reachable _ := ⟨∅, ⟨0, some ⟨1, fun _ => 0⟩, 0⟩, _,
    [(.write 0 ⟨[97, newline], by decide⟩ { allocation := some ⟨2, fun _ => 0⟩ }, ⟨2, []⟩),
      (.write 0 ⟨[98], by decide⟩ { allocation := some ⟨3, fun _ => 0⟩ }, ⟨1, []⟩)],
    rfl, .cons rfl (.cons rfl (.nil _))⟩
  obtain ⟨result, accesses, noted, -, inside⟩ := reach.accesses_inside.1 ⟨[99, newline], by decide⟩
    1 { allocation := some ⟨4, fun _ => 0⟩ }
  refine ⟨_, reach, rfl, rfl, result, accesses, noted, ?_, inside.mpr fun nothing => ?_⟩
  · obtain ⟨-, rfl⟩ := Prod.mk.inj (Except.ok.inj noted)
    rfl
  · exact absurd nothing.2.2 (by simp)

/-- A write of no byte to a freshly loaded module tests the byte at the largest index there is. -/
theorem empty_write_outside : ¬∀ d : Loaded, d.Reachable → ∀ buf fPos env result accesses,
    aesdWriteNoted d.kernel buf fPos env [] = .ok (result, accesses) →
      WriteInside d.kernel buf env accesses := by
  intro inside
  have write := inside _ ⟨∅, ⟨0, some ⟨1, fun _ => 0⟩, 0⟩, _, [], rfl, .nil _⟩ ⟨[], by decide⟩ 0
    { allocation := some ⟨2, fun _ => 0⟩ } _ _ rfl
  have test := write.2 ⟨some 2, 2 ^ 64 - 1, 1⟩ (by decide +kernel)
  revert test
  simp only [Access.Inside]
  decide +kernel

end Aesd.Driver
