import Aesd.Driver.Runs
import Aesd.ProofKit.CriticalSection

/-! The file operations statement by statement, as they run between `mutex_lock_interruptible` and
`mutex_unlock`: every statement that reads or writes kernel memory, the device or the file position
is a step of its own, and each loop makes its steps in each turn. Run alone, they do what
`Loaded.step` says. -/

namespace Aesd.Driver

open Aesd.CInt ProofKit

/-- Code on kernel memory with the device, and on the position of the file. -/
abbrev Code (α : Type) := Steps Fault (Kernel × Int) α

namespace Code

/-- An assignment to the device. -/
def setDev (f : AesdDev → AesdDev) : Code Unit :=
  .change fun s => ({ s.1 with dev := f s.1.dev }, s.2)

/-- An assignment to the circular buffer. -/
def setBuffer (f : AesdCircularBuffer → AesdCircularBuffer) : Code Unit :=
  setDev fun dev => { dev with buffer := f dev.buffer }

/-- A call of a kernel service on memory. -/
def onHeap (f : KHeap → Except Fault KHeap) : Code Unit :=
  .access fun s => (f s.1.heap).map fun heap => ((), { s.1 with heap }, s.2)

/-- An assignment to the file position. -/
def setFPos (f : Int → Int) : Code Unit := .change fun s => (s.1, f s.2)

end Code

open Code

/-- The loop of `aesd_circular_buffer_find_entry_offset_for_fpos`. -/
def findLoopCode (offset charOffset entryOffsetByteRtn : Nat) :
    List Nat → Nat → Code (Option (Fin aesdcharMaxWriteOperationsSupported) × Nat)
  | [], _ => pure (none, entryOffsetByteRtn)
  | i :: is, accLength => do
    let pos := currentPos offset i
    let size ← .look fun s => (s.1.dev.buffer.entry pos).size
    let reach := toSizeT (accLength + size)
    if charOffset < reach then pure (some pos, toSizeT (charOffset - accLength))
    else findLoopCode offset charOffset entryOffsetByteRtn is reach

def findCode (charOffset entryOffsetByteRtn : Nat) :
    Code (Option (Fin aesdcharMaxWriteOperationsSupported) × Nat) := do
  let offset ← .look fun s => s.1.dev.buffer.outOffs
  findLoopCode offset charOffset entryOffsetByteRtn
    (List.range aesdcharMaxWriteOperationsSupported) 0

/-- The loop of `aesd_circular_buffer_size`. -/
def sizeLoopCode (offset : Nat) : List Nat → Nat → Code Nat
  | [], bufferSize => pure bufferSize
  | i :: is, bufferSize => do
    let size ← .look fun s => (s.1.dev.buffer.entry (currentPos offset i)).size
    sizeLoopCode offset is (toSizeT (bufferSize + size))

def sizeCode : Code Nat := do
  let offset ← .look fun s => s.1.dev.buffer.outOffs
  sizeLoopCode offset (List.range aesdcharMaxWriteOperationsSupported) 0

/-- `aesd_circular_buffer_add_entry` of the working entry. -/
def addEntryCode : Code (Option Nat) := do
  let removedBuffptr ← .look fun s => (s.1.dev.buffer.entry s.1.dev.buffer.inOffs).buffptr
  setDev fun dev => { dev with buffer := { dev.buffer with
    entry := Function.update dev.buffer.entry dev.buffer.inOffs dev.wipEntry } }
  let last ← .look fun s =>
    (s.1.dev.buffer.inOffs : Nat) + 1 == aesdcharMaxWriteOperationsSupported
  setBuffer fun buffer => { buffer with inOffs := nextOffs buffer.inOffs }
  .when last (setBuffer fun buffer => { buffer with full := true })
  let full ← .look fun s => s.1.dev.buffer.full
  .when full (setBuffer fun buffer => { buffer with outOffs := buffer.inOffs })
  return removedBuffptr

/-- `aesd_read`, with the lock. -/
def aesdReadCode (count uncopied : Nat) : Code Reply := do
  let fPos ← .look Prod.snd
  match ← findCode (toSizeT fPos) 0 with
  | (none, _) => return ⟨0, []⟩
  | (some pos, entryPos) =>
    let size ← .look fun s => (s.1.dev.buffer.entry pos).size
    -- read only up to the end of the entry
    let rest := toSizeT (size - entryPos)
    let count := if rest < count then rest else count
    let buffptr ← .look fun s => (s.1.dev.buffer.entry pos).buffptr
    let bytes ← .access fun s => (load s.1.heap buffptr entryPos count).map (·, s)
    if uncopied ≠ 0 then
      return ⟨-efault, bytes.take (count - uncopied)⟩
    setFPos fun fPos => toLoffT (fPos + count)
    return ⟨toLoffT count, bytes⟩

/-- The middle of `aesd_write`, up to `copy_from_user`. -/
def fillCode (bptr : Nat) (buf : List UInt8) (uncopied : Nat) : Code Unit := do
  let size ← .look fun s => s.1.dev.wipEntry.size
  onHeap fun heap => store heap bptr (toSizeT (size + buf.length)) [0]
  let wipEntry ← .look fun s => s.1.dev.wipEntry
  onHeap fun heap => copyWipEntry heap bptr wipEntry
  let size ← .look fun s => s.1.dev.wipEntry.size
  onHeap fun heap => copyFromUser heap bptr size buf uncopied

/-- The end of `aesd_write`, from the test of the last byte on. -/
def flushCode : Code Unit := do
  let lastByte ← .access fun s => (load s.1.heap s.1.dev.wipEntry.buffptr
    (toSizeT (s.1.dev.wipEntry.size - 1)) 1).map (·, s)
  .when (lastByte = [newline]) do
    let oldbuf ← addEntryCode
    onHeap fun heap => kfree heap oldbuf
    setDev fun dev => { dev with wipEntry := { dev.wipEntry with buffptr := none } }
    setDev fun dev => { dev with wipEntry := { dev.wipEntry with size := 0 } }

/-- `aesd_write`, with the lock. -/
def aesdWriteCode (buf : UserBuf) (env : WriteEnv) : Code Reply := do
  let count := buf.bytes.length
  let size ← .look fun s => s.1.dev.wipEntry.size
  let bptr ← .access fun s =>
    match kmalloc s.1.heap (toSizeT (size + count + 1)) env.allocation with
    | none => .ok (none, s)
    | some (bptr, heap) => .ok (some bptr, { s.1 with heap }, s.2)
  match bptr with
  | none => return ⟨-enomem, []⟩
  | some bptr =>
    fillCode bptr buf.bytes env.uncopied
    if env.uncopied ≠ 0 then
      return ⟨-efault, []⟩
    let buffptr ← .look fun s => s.1.dev.wipEntry.buffptr
    onHeap fun heap => kfree heap buffptr
    setDev fun dev => { dev with wipEntry := { dev.wipEntry with buffptr := some bptr } }
    setDev fun dev =>
      { dev with wipEntry := { dev.wipEntry with size := toSizeT (dev.wipEntry.size + count) } }
    flushCode
    -- set `f_pos` to the end of the buffer
    let bufferSize ← sizeCode
    setFPos fun _ => toLoffT (toSizeT (bufferSize - 1))
    return ⟨count, []⟩

/-- `aesd_llseek`, with the lock. -/
def aesdLlseekCode (off : Int) (whence : Nat) : Code Reply := do
  let bufferSize ← sizeCode
  let newPos ← .look fun s => (fixedSizeLlseek s.2 off whence (toLoffT bufferSize)).1
  setFPos fun fPos => (fixedSizeLlseek fPos off whence (toLoffT bufferSize)).2
  return ⟨newPos, []⟩

/-- The loop of `aesd_adjust_file_offset`. -/
def adjustLoopCode (writeCmd writeCmdOffset : Nat) : List Nat → Nat → Code (Option Nat)
  | [], offset => pure (some offset)
  | index :: indices, offset => do
    let pos ← .look fun s => currentPos s.1.dev.buffer.outOffs index
    let buffptr ← .look fun s => (s.1.dev.buffer.entry pos).buffptr
    let size ← .look fun s => (s.1.dev.buffer.entry pos).size
    if buffptr.isNone then pure none
    else if index ≠ writeCmd then
      adjustLoopCode writeCmd writeCmdOffset indices (toSizeT (offset + size))
    else if size ≤ writeCmdOffset then pure none
    else adjustLoopCode writeCmd writeCmdOffset indices (toSizeT (offset + writeCmdOffset))

/-- `aesd_adjust_file_offset`, with the lock. -/
def aesdAdjustFileOffsetCode (writeCmd writeCmdOffset : UInt32) : Code Reply := do
  match ←
      adjustLoopCode writeCmd.toNat writeCmdOffset.toNat (List.range (writeCmd.toNat + 1)) 0 with
  | none => return ⟨-einval, []⟩
  | some offset =>
    setFPos fun _ => toLoffT offset
    return ⟨0, []⟩

/-! Each piece of code run alone. -/

section Run

variable {kernel : Kernel} {fPos : Int}

@[simp] theorem Code.run_setDev (f : AesdDev → AesdDev) :
    (setDev f).run (kernel, fPos) = .ok ((), { kernel with dev := f kernel.dev }, fPos) := rfl

@[simp] theorem Code.run_setBuffer (f : AesdCircularBuffer → AesdCircularBuffer) :
    (setBuffer f).run (kernel, fPos) =
      .ok ((), { kernel with dev := { kernel.dev with buffer := f kernel.dev.buffer } }, fPos) :=
  rfl

@[simp] theorem Code.run_onHeap (f : KHeap → Except Fault KHeap) :
    (onHeap f).run (kernel, fPos) =
      (f kernel.heap).map fun heap => ((), { kernel with heap }, fPos) := by
  rw [onHeap, Steps.run_access]

@[simp] theorem Code.run_setFPos (f : Int → Int) :
    (setFPos f).run (kernel, fPos) = .ok ((), kernel, f fPos) := rfl

theorem findLoopCode_run (charOffset rtn : Nat) (is : List Nat) (accLength : Nat) :
    (findLoopCode kernel.dev.buffer.outOffs charOffset rtn is accLength).run (kernel, fPos) =
      .ok (findLoop kernel.dev.buffer charOffset rtn is accLength, kernel, fPos) := by
  induction is generalizing accLength with
  | nil => rfl
  | cons i is ih =>
    simp only [findLoopCode, findLoop, Steps.run_bind, Steps.run_look]
    split
    · rfl
    · exact ih _

theorem findCode_run (charOffset rtn : Nat) : (findCode charOffset rtn).run (kernel, fPos) =
    .ok (aesdCircularBufferFindEntryOffsetForFpos kernel.dev.buffer charOffset rtn,
      kernel, fPos) := by
  simp only [findCode, Steps.run_bind, Steps.run_look, findLoopCode_run]
  rfl

theorem sizeLoopCode_run (is : List Nat) (bufferSize : Nat) :
    (sizeLoopCode kernel.dev.buffer.outOffs is bufferSize).run (kernel, fPos) =
      .ok (is.foldl (fun bufferSize i => toSizeT (bufferSize +
        (kernel.dev.buffer.entry (currentPos kernel.dev.buffer.outOffs i)).size)) bufferSize,
        kernel, fPos) := by
  induction is generalizing bufferSize with
  | nil => rfl
  | cons i is ih =>
    simp only [sizeLoopCode, Steps.run_bind, Steps.run_look, List.foldl_cons]
    exact ih _

theorem sizeCode_run : sizeCode.run (kernel, fPos) =
    .ok (aesdCircularBufferSize kernel.dev.buffer, kernel, fPos) := by
  simp only [sizeCode, Steps.run_bind, Steps.run_look, sizeLoopCode_run]
  rfl

theorem addEntryCode_run : addEntryCode.run (kernel, fPos) =
    .ok ((aesdCircularBufferAddEntry kernel.dev.buffer kernel.dev.wipEntry).1,
      { kernel with dev := { kernel.dev with
        buffer := (aesdCircularBufferAddEntry kernel.dev.buffer kernel.dev.wipEntry).2 } },
      fPos) := by
  by_cases last : (kernel.dev.buffer.inOffs : Nat) + 1 = aesdcharMaxWriteOperationsSupported
  · simp only [addEntryCode, aesdCircularBufferAddEntry, Steps.run_bind, Steps.run_look,
      Steps.when, run_setDev, run_setBuffer, last, beq_self_eq_true, if_true, Bool.or_true]
    rfl
  · cases full : kernel.dev.buffer.full with
    | true =>
      simp only [addEntryCode, aesdCircularBufferAddEntry, Steps.run_bind, Steps.run_look,
        Steps.when, run_setDev, run_setBuffer, beq_eq_false_iff_ne.mpr last, full,
        Bool.false_eq_true, if_false, if_true, Bool.or_false]
      rfl
    | false =>
      simp only [addEntryCode, aesdCircularBufferAddEntry, Steps.run_bind, Steps.run_look,
        Steps.when, run_setDev, run_setBuffer, beq_eq_false_iff_ne.mpr last, full,
        Bool.false_eq_true, if_false, Bool.or_false]
      rfl

theorem adjustLoopCode_run (writeCmd writeCmdOffset : Nat) (indices : List Nat) (offset : Nat) :
    (adjustLoopCode writeCmd writeCmdOffset indices offset).run (kernel, fPos) =
      .ok (adjustLoop kernel.dev.buffer writeCmd writeCmdOffset indices offset, kernel, fPos) := by
  induction indices generalizing offset with
  | nil => rfl
  | cons index indices ih =>
    simp only [adjustLoopCode, adjustLoop, Steps.run_bind, Steps.run_look]
    split
    · rfl
    · split
      · exact ih _
      · split
        · rfl
        · exact ih _

theorem aesdReadCode_run (count uncopied : Nat) :
    (aesdReadCode count uncopied).run (kernel, fPos) =
      (aesdRead kernel count fPos { uncopied }).map fun result =>
        (⟨result.retval, result.copied⟩, kernel, result.fPos) := by
  simp only [aesdReadCode, aesdRead, Steps.run_bind, Steps.run_look, findCode_run,
    Bool.false_eq_true, if_false]
  rcases aesdCircularBufferFindEntryOffsetForFpos kernel.dev.buffer (toSizeT fPos) 0 with
    ⟨none | pos, entryPos⟩
  · rfl
  · simp only [Steps.run_bind, Steps.run_look, Steps.run_access]
    generalize (kernel.dev.buffer.entry pos).buffptr = buffptr
    generalize toSizeT (((kernel.dev.buffer.entry pos).size : Int) - entryPos) = rest
    generalize (if rest < count then rest else count) = n
    cases load kernel.heap buffptr entryPos n with
    | error fault => rfl
    | ok bytes =>
      by_cases copied : uncopied = 0
      · simp only [copied]
        rfl
      · simp only [Except.map, ok_bind, if_pos copied]
        rfl

theorem load_byte {heap : KHeap} {p index : Nat} {bytes : List UInt8}
    (loaded : load heap (some p) index 1 = .ok bytes) (stray : UInt8) :
    bytes = [byteAt heap p index stray] := by
  simp only [load, Option.bind_some] at loaded
  split at loaded
  · rename_i block live
    split at loaded
    · rename_i inside
      obtain rfl := Except.ok.inj loaded
      rw [List.take_one, List.head?_drop, byteAt, live, Option.getD_some,
        List.getD_eq_getElem?_getD, List.getElem?_eq_getElem (by omega)]
      rfl
    · contradiction
  · contradiction

theorem flushCode_run (bptr : Nat) (stray : UInt8)
    (working : kernel.dev.wipEntry.buffptr = some bptr) {bytes : List UInt8}
    (loaded : load kernel.heap (some bptr) (toSizeT (kernel.dev.wipEntry.size - 1)) 1 =
      .ok bytes) :
    flushCode.run (kernel, fPos) =
      (flushWipEntry kernel.heap kernel.dev bptr kernel.dev.wipEntry.size stray).map
        ((), ·, fPos) := by
  obtain rfl := load_byte loaded stray
  simp only [flushCode, flushWipEntry, Steps.run_bind, Steps.run_access, Steps.when, working,
    loaded, Except.map, List.cons.injEq, and_true]
  by_cases ends : byteAt kernel.heap bptr (toSizeT (kernel.dev.wipEntry.size - 1)) stray = newline
  · have entry : kernel.dev.wipEntry = ⟨some bptr, kernel.dev.wipEntry.size⟩ := by rw [← working]
    simp only [if_pos ends, Steps.run_bind, addEntryCode_run, run_onHeap, ← entry]
    cases kfree kernel.heap
        (aesdCircularBufferAddEntry kernel.dev.buffer kernel.dev.wipEntry).1 with
    | error fault => rfl
    | ok heap => rfl
  · have entry : (⟨some bptr, kernel.dev.wipEntry.size⟩ : AesdBufferEntry) =
        kernel.dev.wipEntry := by rw [← working]
    simp only [if_neg ends, entry]
    rfl

theorem flushCode_fault {fault : Fault}
    (outside : load kernel.heap kernel.dev.wipEntry.buffptr
      (toSizeT (kernel.dev.wipEntry.size - 1)) 1 = .error fault) :
    flushCode.run (kernel, fPos) = .error fault := by
  simp only [flushCode, Steps.run_bind, Steps.run_access, outside]
  rfl

theorem fillCode_run (bptr : Nat) (buf : List UInt8) (uncopied : Nat) :
    (fillCode bptr buf uncopied).run (kernel, fPos) =
      (fillBlock kernel.heap bptr kernel.dev.wipEntry buf uncopied).map
        fun heap => ((), { kernel with heap }, fPos) := by
  simp only [fillCode, fillBlock, Steps.run_bind, Steps.run_look, run_onHeap]
  cases store kernel.heap bptr (toSizeT (kernel.dev.wipEntry.size + buf.length)) [0] with
  | error fault => rfl
  | ok heap =>
    simp only [Except.map, ok_bind, run_onHeap]
    cases copyWipEntry heap bptr kernel.dev.wipEntry with
    | error fault => rfl
    | ok heap => simp only [Except.map, ok_bind, run_onHeap]

/-- If the write gets to the test of the last byte, that byte is inside its block. -/
def TestsInside (kernel : Kernel) (buf : UserBuf) (env : WriteEnv) : Prop :=
  let wipEntry := kernel.dev.wipEntry
  let count := buf.bytes.length
  ∀ bptr heap filled freed,
    kmalloc kernel.heap (toSizeT (wipEntry.size + count + 1)) env.allocation =
      some (bptr, heap) → fillBlock heap bptr wipEntry buf.bytes env.uncopied = .ok filled →
    env.uncopied = 0 → kfree filled wipEntry.buffptr = .ok freed →
    ∃ bytes, load freed (some bptr) (toSizeT ((toSizeT (wipEntry.size + count) : Nat) - 1)) 1 =
      .ok bytes

theorem testsInside_iff {buf : UserBuf} {env : WriteEnv} {bptr : Nat} {heap filled freed : KHeap}
    (granted : kmalloc kernel.heap (toSizeT (kernel.dev.wipEntry.size + buf.bytes.length + 1))
      env.allocation = some (bptr, heap))
    (fills : fillBlock heap bptr kernel.dev.wipEntry buf.bytes env.uncopied = .ok filled)
    (copied : env.uncopied = 0) (frees : kfree filled kernel.dev.wipEntry.buffptr = .ok freed) :
    TestsInside kernel buf env ↔ ∃ bytes, load freed (some bptr)
      (toSizeT ((toSizeT (kernel.dev.wipEntry.size + buf.bytes.length) : Nat) - 1)) 1 =
        .ok bytes := by
  refine ⟨fun inside => inside _ _ _ _ granted fills copied frees, fun loaded => ?_⟩
  intro bptr' heap' filled' freed' granted' fills' _ frees'
  obtain ⟨rfl, rfl⟩ : bptr = bptr' ∧ heap = heap' := by simpa using granted.symm.trans granted'
  obtain rfl := Except.ok.inj (fills.symm.trans fills')
  obtain rfl := Except.ok.inj (frees.symm.trans frees')
  exact loaded

/-- Run alone, a write whose test of the last byte stays inside its block does what `aesd_write`
says, and otherwise the test fails. -/
theorem aesdWriteCode_run (buf : UserBuf) (env : WriteEnv) (free : env.interrupted = false) :
    (TestsInside kernel buf env → (aesdWriteCode buf env).run (kernel, fPos) =
      (aesdWrite kernel buf fPos env).map fun result =>
        (⟨result.retval, []⟩, result.kernel, result.fPos)) ∧
    (¬TestsInside kernel buf env →
      ∃ fault, (aesdWriteCode buf env).run (kernel, fPos) = .error fault) := by
  simp only [aesdWriteCode, aesdWrite, Steps.run_bind, Steps.run_look, Steps.run_access, free,
    Bool.false_eq_true, if_false]
  have tested {x y : Except Fault (Reply × Kernel × Int)} (same : x = y)
      (inside : TestsInside kernel buf env) :
      (TestsInside kernel buf env → x = y) ∧
        (¬TestsInside kernel buf env → ∃ fault, x = .error fault) :=
    ⟨fun _ => same, absurd inside⟩
  cases granted : kmalloc kernel.heap (toSizeT (kernel.dev.wipEntry.size + buf.bytes.length + 1))
    env.allocation with
  | none =>
    refine tested rfl fun _ _ _ _ new => ?_
    rw [granted] at new
    contradiction
  | some new =>
    obtain ⟨bptr, heap⟩ := new
    simp only [Steps.run_bind, fillCode_run]
    cases filled : fillBlock heap bptr kernel.dev.wipEntry buf.bytes env.uncopied with
    | error fault => exact ⟨fun _ => rfl, fun _ => ⟨fault, rfl⟩⟩
    | ok heap' =>
      by_cases copied : env.uncopied = 0
      swap
      · refine tested ?_ fun _ _ _ _ _ _ whole => absurd whole copied
        simp only [Except.map, ne_eq, copied, not_false_eq_true, if_true, ok_bind]
        rfl
      simp only [Except.map, copied, ne_eq, not_true_eq_false, if_false, ok_bind,
        Steps.run_bind, Steps.run_look, run_onHeap]
      cases freed : kfree heap' kernel.dev.wipEntry.buffptr with
      | error fault => exact ⟨fun _ => rfl, fun _ => ⟨fault, rfl⟩⟩
      | ok heap'' =>
        simp only [ok_bind, run_setDev]
        cases loaded : load heap'' (some bptr)
          (toSizeT ((toSizeT (kernel.dev.wipEntry.size + buf.bytes.length) : Nat) - 1)) 1 with
        | error fault =>
          have outside : ¬TestsInside kernel buf env := by
            simp [testsInside_iff granted filled copied freed, loaded]
          exact ⟨fun inside => absurd inside outside,
            fun _ => ⟨fault, by rw [flushCode_fault loaded]⟩⟩
        | ok bytes =>
          refine tested ?_ ((testsInside_iff granted filled copied freed).mpr ⟨bytes, loaded⟩)
          rw [flushCode_run bptr env.stray rfl loaded]
          have same (dev : AesdDev) (size : Nat) (wip : AesdBufferEntry) :
              flushWipEntry heap'' { dev with wipEntry := wip } bptr size env.stray =
                flushWipEntry heap'' dev bptr size env.stray := rfl
          rw [same]
          cases flushWipEntry heap'' kernel.dev bptr
            (toSizeT (kernel.dev.wipEntry.size + buf.bytes.length)) env.stray with
          | error fault => rfl
          | ok kernel =>
            simp only [Except.map, sizeCode_run, run_setFPos]
            rfl

theorem aesdLlseekCode_run (off : Int) (whence : Nat) :
    (aesdLlseekCode off whence).run (kernel, fPos) =
      .ok (⟨(aesdLlseek kernel fPos off whence false).1, []⟩, kernel,
        (aesdLlseek kernel fPos off whence false).2) := by
  simp only [aesdLlseekCode, Steps.run_bind, sizeCode_run, Steps.run_look, run_setFPos]
  rfl

theorem aesdAdjustFileOffsetCode_run (writeCmd writeCmdOffset : UInt32)
    (known : ¬aesdcharMaxWriteOperationsSupported ≤ writeCmd.toNat) :
    (aesdAdjustFileOffsetCode writeCmd writeCmdOffset).run (kernel, fPos) =
      .ok (⟨(aesdAdjustFileOffset kernel fPos writeCmd writeCmdOffset false).1, []⟩, kernel,
        (aesdAdjustFileOffset kernel fPos writeCmd writeCmdOffset false).2) := by
  simp only [aesdAdjustFileOffsetCode, aesdAdjustFileOffset, Steps.run_bind, adjustLoopCode_run,
    known, if_false, Bool.false_eq_true]
  cases adjustLoop kernel.dev.buffer writeCmd.toNat writeCmdOffset.toNat
    (List.range (writeCmd.toNat + 1)) 0 with
  | none => rfl
  | some offset => rfl

end Run

/-! How many statements each piece of code runs at most. -/

section AtMost

open Steps

theorem Code.onHeap_atMost (f : KHeap → Except Fault KHeap) : (onHeap f).AtMost 1 :=
  atMost_access _

theorem Code.setDev_atMost (f : AesdDev → AesdDev) : (setDev f).AtMost 1 := atMost_change _

theorem Code.setBuffer_atMost (f : AesdCircularBuffer → AesdCircularBuffer) :
    (setBuffer f).AtMost 1 := atMost_change _

theorem Code.setFPos_atMost (f : Int → Int) : (setFPos f).AtMost 1 := atMost_change _

theorem findLoopCode_atMost (offset charOffset rtn : Nat) (is : List Nat) (accLength : Nat) :
    (findLoopCode offset charOffset rtn is accLength).AtMost is.length := by
  induction is generalizing accLength with
  | nil => exact atMost_pure _
  | cons i is ih =>
    exact ((atMost_look _).bind fun size =>
      .ite _ ((atMost_pure _).mono (Nat.zero_le _)) (ih _)).mono (Nat.add_comm 1 _).le

theorem findCode_atMost (charOffset rtn : Nat) : (findCode charOffset rtn).AtMost 11 :=
  (atMost_look _).bind fun _ => findLoopCode_atMost _ _ _ _ _

theorem sizeLoopCode_atMost (offset : Nat) (is : List Nat) (bufferSize : Nat) :
    (sizeLoopCode offset is bufferSize).AtMost is.length := by
  induction is generalizing bufferSize with
  | nil => exact atMost_pure _
  | cons i is ih =>
    exact ((atMost_look _).bind fun size => ih _).mono (Nat.add_comm 1 _).le

theorem sizeCode_atMost : sizeCode.AtMost 11 :=
  (atMost_look _).bind fun _ => sizeLoopCode_atMost _ _ _

theorem adjustLoopCode_atMost (writeCmd writeCmdOffset : Nat) (indices : List Nat)
    (offset : Nat) :
    (adjustLoopCode writeCmd writeCmdOffset indices offset).AtMost (3 * indices.length) := by
  induction indices generalizing offset with
  | nil => exact atMost_pure _
  | cons index indices ih =>
    have stop := (atMost_pure (ε := Fault) (σ := Kernel × Int) (none : Option Nat)).mono
      (Nat.zero_le (3 * indices.length))
    refine ((atMost_look _).bind fun pos => (atMost_look _).bind fun buffptr =>
      (atMost_look _).bind fun size =>
        .ite _ stop (.ite _ (ih _) (.ite _ stop (ih _)))).mono ?_
    rw [List.length_cons]
    omega

theorem addEntryCode_atMost : addEntryCode.AtMost 7 :=
  (atMost_look _).bind fun _ => (setDev_atMost _).bind fun _ => (atMost_look _).bind fun _ =>
    (setBuffer_atMost _).bind fun _ => (AtMost.when _ (setBuffer_atMost _)).bind fun _ =>
      (atMost_look _).bind fun _ => (AtMost.when _ (setBuffer_atMost _)).bind fun _ =>
        atMost_pure _

theorem fillCode_atMost (bptr : Nat) (buf : List UInt8) (uncopied : Nat) :
    (fillCode bptr buf uncopied).AtMost 6 :=
  (atMost_look _).bind fun _ => (onHeap_atMost _).bind fun _ => (atMost_look _).bind fun _ =>
    (onHeap_atMost _).bind fun _ => (atMost_look _).bind fun _ => onHeap_atMost _

theorem flushCode_atMost : flushCode.AtMost 11 :=
  (atMost_access _).bind fun _ => AtMost.when _ (addEntryCode_atMost.bind fun _ =>
    (onHeap_atMost _).bind fun _ => (setDev_atMost _).bind fun _ => setDev_atMost _)

theorem aesdReadCode_atMost (count uncopied : Nat) : (aesdReadCode count uncopied).AtMost 16 := by
  refine (atMost_look _).bind fun fPos => (findCode_atMost _ _).bind (n := 4) fun found => ?_
  rcases found with ⟨none | pos, entryPos⟩
  · exact (atMost_pure _).mono (Nat.zero_le _)
  · exact (atMost_look _).bind fun _ => (atMost_look _).bind fun _ => (atMost_access _).bind
      fun _ => .ite _ ((atMost_pure _).mono (Nat.zero_le _))
        ((setFPos_atMost _).bind fun _ => atMost_pure _)

theorem aesdWriteCode_atMost (buf : UserBuf) (env : WriteEnv) :
    (aesdWriteCode buf env).AtMost 35 := by
  refine (atMost_look _).bind fun size => (atMost_access _).bind (n := 33) fun bptr => ?_
  cases bptr with
  | none => exact (atMost_pure _).mono (Nat.zero_le _)
  | some bptr =>
    refine (fillCode_atMost _ _ _).bind (n := 27) fun _ =>
      .ite _ ((atMost_pure _).mono (Nat.zero_le _)) ?_
    exact (atMost_look _).bind fun _ => (onHeap_atMost _).bind fun _ => (setDev_atMost _).bind
      fun _ => (setDev_atMost _).bind fun _ => flushCode_atMost.bind fun _ =>
        sizeCode_atMost.bind fun _ => (setFPos_atMost _).bind fun _ => atMost_pure _

theorem aesdLlseekCode_atMost (off : Int) (whence : Nat) : (aesdLlseekCode off whence).AtMost 13 :=
  sizeCode_atMost.bind fun _ => (atMost_look _).bind fun _ => (setFPos_atMost _).bind fun _ =>
    atMost_pure _

theorem aesdAdjustFileOffsetCode_atMost (writeCmd writeCmdOffset : UInt32)
    (known : ¬aesdcharMaxWriteOperationsSupported ≤ writeCmd.toNat) :
    (aesdAdjustFileOffsetCode writeCmd writeCmdOffset).AtMost 31 := by
  have loop := adjustLoopCode_atMost writeCmd.toNat writeCmdOffset.toNat
    (List.range (writeCmd.toNat + 1)) 0
  have inside : writeCmd.toNat < 10 := Nat.lt_of_not_le known
  refine (loop.mono (n := 30) (by rw [List.length_range]; omega)).bind (n := 1) fun offset => ?_
  cases offset with
  | none => exact (atMost_pure _).mono (Nat.zero_le _)
  | some offset => exact (setFPos_atMost _).bind fun _ => atMost_pure _

end AtMost

end Aesd.Driver
