import Aesd.Driver.CircularBuffer
import Aesd.Driver.Kernel

/-! The character driver of `aesdchar.h`, `aesd_ioctl.h` and `main.c`. Each operation takes the
state of kernel memory and of the device, and what the kernel services it calls decide; a call
that the C code must never make is an error. -/

namespace Aesd.Driver

open Aesd.CInt ProofKit

/-- `struct aesd_dev`. `bufferptr` is the address of the circular buffer, `none` for `NULL`, and
`buffer` is the structure kept there. -/
structure AesdDev where
  bufferptr : Option Nat
  buffer : AesdCircularBuffer
  wipEntry : AesdBufferEntry

/-- The device as `memset` leaves it. -/
def AesdDev.zero : AesdDev := ⟨none, aesdCircularBufferInit, .zero⟩

/-- Kernel memory and the device. -/
structure Kernel where
  heap : KHeap
  dev : AesdDev

def sizeofAesdCircularBuffer : Nat := 168

/-- What the kernel decides while the module is loaded: the results of `alloc_chrdev_region` and
`aesd_setup_cdev`, and of `kmalloc`. -/
structure InitEnv where
  region : Int
  allocation : Option Allocation
  cdev : Int

/-- `aesd_init_module`, in kernel memory `heap`. -/
def aesdInitModule (heap : KHeap) (env : InitEnv) : Int × Kernel :=
  if env.region < 0 then (env.region, ⟨heap, .zero⟩)
  else
    match kmalloc heap sizeofAesdCircularBuffer env.allocation with
    | none => (-enomem, ⟨heap, .zero⟩)
    | some (p, heap) => (env.cdev, ⟨heap, some p, aesdCircularBufferInit, .zero⟩)

/-- What the kernel decides during a read: whether the lock is interrupted, and how many bytes
`copy_to_user` fails to copy. -/
structure ReadEnv where
  interrupted : Bool := false
  uncopied : Nat := 0

/-- The result of a read: the value returned, the bytes copied to the user, and the file position
left. -/
structure ReadResult where
  retval : Int
  copied : List UInt8
  fPos : Int
  deriving DecidableEq, Repr

/-- `aesd_read`. It leaves memory and the device as they are. -/
def aesdRead (kernel : Kernel) (count : Nat) (fPos : Int) (env : ReadEnv) :
    Except Fault ReadResult :=
  if env.interrupted then .ok ⟨-erestartsys, [], fPos⟩
  else
    match aesdCircularBufferFindEntryOffsetForFpos kernel.dev.buffer (toSizeT fPos) 0 with
    | (none, _) => .ok ⟨0, [], fPos⟩
    | (some pos, entryPos) => do
      let entry := kernel.dev.buffer.entry pos
      -- read only up to the end of the entry
      let rest := toSizeT (entry.size - entryPos)
      let count := if rest < count then rest else count
      let bytes ← load kernel.heap entry.buffptr entryPos count
      if env.uncopied ≠ 0 then
        return ⟨-efault, bytes.take (count - env.uncopied), fPos⟩
      return ⟨toLoffT count, bytes, toLoffT (fPos + count)⟩

/-- A buffer handed to `write`. The kernel passes no longer one on: it caps every count below
`INT_MAX`. -/
structure UserBuf where
  bytes : List UInt8
  short : bytes.length < 2 ^ 31

/-- What the kernel decides during a write: whether the lock is interrupted, what `kmalloc` finds,
how many bytes `copy_from_user` fails to copy, and the byte in front of the new block. -/
structure WriteEnv where
  interrupted : Bool := false
  allocation : Option Allocation
  uncopied : Nat := 0
  stray : UInt8 := 0

/-- The result of a write: the value returned, memory and the device, and the file position. -/
structure WriteResult where
  retval : Int
  kernel : Kernel
  fPos : Int

/-- The copy of the bytes of the working entry, when it has a buffer. -/
def copyWipEntry (heap : KHeap) (bptr : Nat) (wipEntry : AesdBufferEntry) : Except Fault KHeap :=
  if wipEntry.buffptr.isSome then memcpy heap bptr wipEntry.buffptr wipEntry.size else .ok heap

/-- The middle of `aesd_write`: the terminator, the bytes of the working entry, and the new bytes
go to the new block at `bptr`. -/
def fillBlock (heap : KHeap) (bptr : Nat) (wipEntry : AesdBufferEntry) (buf : List UInt8)
    (uncopied : Nat) : Except Fault KHeap := do
  let heap ← store heap bptr (toSizeT (wipEntry.size + buf.length)) [0]
  let heap ← copyWipEntry heap bptr wipEntry
  copyFromUser heap bptr wipEntry.size buf uncopied

/-- The end of `aesd_write`, once `wip_entry` is the working entry with the new bytes at `bptr`:
the entry goes to the circular buffer when its last byte is a newline. -/
def flushWipEntry (heap : KHeap) (dev : AesdDev) (bptr : Nat) (size : Nat) (stray : UInt8) :
    Except Fault Kernel :=
  let wipEntry : AesdBufferEntry := ⟨some bptr, size⟩
  if byteAt heap bptr (toSizeT (size - 1)) stray = newline then do
    let (oldbuf, buffer) := aesdCircularBufferAddEntry dev.buffer wipEntry
    let heap ← kfree heap oldbuf
    return ⟨heap, { dev with buffer, wipEntry := .zero }⟩
  else .ok ⟨heap, { dev with wipEntry }⟩

def aesdWrite (kernel : Kernel) (buf : UserBuf) (fPos : Int) (env : WriteEnv) :
    Except Fault WriteResult :=
  let wipEntry := kernel.dev.wipEntry
  let count := buf.bytes.length
  if env.interrupted then .ok ⟨-erestartsys, kernel, fPos⟩
  else
    match kmalloc kernel.heap (toSizeT (wipEntry.size + count + 1)) env.allocation with
    | none => .ok ⟨-enomem, kernel, fPos⟩
    | some (bptr, heap) => do
      let heap ← fillBlock heap bptr wipEntry buf.bytes env.uncopied
      if env.uncopied ≠ 0 then
        return ⟨-efault, { kernel with heap }, fPos⟩
      let heap ← kfree heap wipEntry.buffptr
      let kernel ←
        flushWipEntry heap kernel.dev bptr (toSizeT (wipEntry.size + count)) env.stray
      -- set `f_pos` to the end of the buffer
      let fPos := toLoffT (toSizeT (aesdCircularBufferSize kernel.dev.buffer - 1))
      return ⟨count, kernel, fPos⟩

/-- `aesd_llseek`: the value returned and the file position left. -/
def aesdLlseek (kernel : Kernel) (fPos off : Int) (whence : Nat) (interrupted : Bool) :
    Int × Int :=
  if interrupted then (-erestartsys, fPos)
  else
    let bufferSize := toLoffT (aesdCircularBufferSize kernel.dev.buffer)
    fixedSizeLlseek fPos off whence bufferSize

/-- The loop of `aesd_adjust_file_offset` over the indices left: the global offset of the byte
asked for, or `none` for `-EINVAL`. -/
def adjustLoop (buffer : AesdCircularBuffer) (writeCmd writeCmdOffset : Nat) :
    List Nat → Nat → Option Nat
  | [], offset => some offset
  | index :: indices, offset =>
    let entry := buffer.entry (currentPos buffer.outOffs index)
    if entry.buffptr.isNone then none
    else if index ≠ writeCmd then
      adjustLoop buffer writeCmd writeCmdOffset indices (toSizeT (offset + entry.size))
    else if entry.size ≤ writeCmdOffset then none
    else adjustLoop buffer writeCmd writeCmdOffset indices (toSizeT (offset + writeCmdOffset))

/-- `aesd_adjust_file_offset`: the value returned and the file position left. -/
def aesdAdjustFileOffset (kernel : Kernel) (fPos : Int) (writeCmd writeCmdOffset : UInt32)
    (interrupted : Bool) : Int × Int :=
  if aesdcharMaxWriteOperationsSupported ≤ writeCmd.toNat then (-einval, fPos)
  else if interrupted then (-erestartsys, fPos)
  else
    match adjustLoop kernel.dev.buffer writeCmd.toNat writeCmdOffset.toNat
      (List.range (writeCmd.toNat + 1)) 0 with
    | none => (-einval, fPos)
    | some offset => (0, toLoffT offset)

structure AesdSeekto where
  writeCmd : UInt32
  writeCmdOffset : UInt32
  deriving DecidableEq, Repr

/-- `AESDCHAR_IOCSEEKTO`: direction read and write, size 8, magic `0x16`, number 1. -/
def aesdcharIocseekto : UInt32 := 0xC0081601

/-- What the kernel decides during an ioctl. -/
structure IoctlEnv where
  interrupted : Bool := false
  uncopied : Nat := 0

/-- `aesd_ioctl`: the value returned and the file position left. -/
def aesdIoctl (kernel : Kernel) (fPos : Int) (cmd : UInt32) (arg : AesdSeekto) (env : IoctlEnv) :
    Int × Int :=
  if cmd = aesdcharIocseekto then
    if env.uncopied ≠ 0 then (-efault, fPos)
    else aesdAdjustFileOffset kernel fPos arg.writeCmd arg.writeCmdOffset env.interrupted
  else (-enotty, fPos)

/-- The loop of `aesd_cleanup_module` over the entries left: memory, and the blocks passed to
`kfree` in order. -/
def freeEntries (heap : KHeap) : List AesdBufferEntry → Except Fault (KHeap × List Nat)
  | [] => .ok (heap, [])
  | entry :: entries =>
    match entry.buffptr with
    | none => freeEntries heap entries
    | some p => do
      let heap ← kfree heap (some p)
      let (heap, freed) ← freeEntries heap entries
      return (heap, p :: freed)

/-- `kfree` of a pointer that may be `NULL`, after the test that it is not. -/
def freeHeld (heap : KHeap) : Option Nat → Except Fault (KHeap × List Nat)
  | none => .ok (heap, [])
  | some p => do
    let heap ← kfree heap (some p)
    return (heap, [p])

/-- `aesd_cleanup_module`: memory, and the blocks passed to `kfree` in order. The entries are
visited by index (`AESD_CIRCULAR_BUFFER_FOREACH`). -/
def aesdCleanupModule (kernel : Kernel) : Except Fault (KHeap × List Nat) := do
  let (heap, entries) ←
    if kernel.dev.bufferptr.isSome then
      freeEntries kernel.heap
        ((List.finRange aesdcharMaxWriteOperationsSupported).map kernel.dev.buffer.entry)
    else pure (kernel.heap, [])
  let (heap, buffer) ← freeHeld heap kernel.dev.bufferptr
  let (heap, wip) ← freeHeld heap kernel.dev.wipEntry.buffptr
  return (heap, entries ++ buffer ++ wip)

end Aesd.Driver
