import Aesd.CInt
import Aesd.ProofKit.Heap

/-! The kernel services that the driver calls: memory blocks with `kmalloc` and `kfree`, copies
inside the kernel and to and from user space, and `fixed_size_llseek`. What a service decides by
itself (whether it fails, where a block is put) is an argument. -/

namespace Aesd.Driver

open Aesd.CInt ProofKit

/-- What the C code must never do: free a block that is not live, or read or write outside the
live blocks. -/
inductive Fault
  | badFree (p : Nat)
  | badAccess (p : Option Nat) (offset n : Nat)
  deriving DecidableEq, Repr

@[simp] theorem ok_bind {α β : Type} (a : α) (f : α → Except Fault β) :
    (Except.ok a >>= f) = f a := rfl

/-! The error numbers that the driver returns, negated. -/

def enomem : Int := 12
def efault : Int := 14
def einval : Int := 22
def enotty : Int := 25
def erestartsys : Int := 512

def newline : UInt8 := 10

/-- The live blocks of kernel memory. -/
abbrev KHeap := Heap Nat (List UInt8)

/-- Where `kmalloc` puts a block, and the bytes that it finds there. -/
structure Allocation where
  addr : Nat
  junk : Nat → UInt8

/-- `kmalloc` never serves more than this many bytes. -/
def kmallocMaxSize : Nat := 2 ^ 31

/-- `kmalloc`: a new block, or `none` for `NULL`. A live block is never handed out again. -/
def kmalloc (heap : KHeap) (size : Nat) (allocation : Option Allocation) : Option (Nat × KHeap) :=
  allocation.bind fun found =>
    if size ≤ kmallocMaxSize then
      (heap.alloc found.addr ((List.range size).map found.junk)).map (found.addr, ·)
    else none

def kfree (heap : KHeap) : Option Nat → Except Fault KHeap
  | none => .ok heap
  | some p => match heap.free p with
    | some heap => .ok heap
    | none => .error (.badFree p)

/-- The `n` bytes from `p + offset` on. -/
def load (heap : KHeap) (p : Option Nat) (offset n : Nat) : Except Fault (List UInt8) :=
  match p.bind fun p => heap.lookup p with
  | some block =>
    if offset + n ≤ block.length then .ok ((block.drop offset).take n)
    else .error (.badAccess p offset n)
  | none => .error (.badAccess p offset n)

/-- `block` with `bytes` written from `offset` on, when they fit. -/
def splice (block : List UInt8) (offset : Nat) (bytes : List UInt8) : Option (List UInt8) :=
  if offset + bytes.length ≤ block.length then
    some (block.take offset ++ bytes ++ block.drop (offset + bytes.length))
  else none

/-- Writes `bytes` to `p + offset`. -/
def store (heap : KHeap) (p offset : Nat) (bytes : List UInt8) : Except Fault KHeap :=
  match heap.modify p fun block => splice block offset bytes with
  | some heap => .ok heap
  | none => .error (.badAccess (some p) offset bytes.length)

/-- `memcpy(dest, src, n)` between two blocks. -/
def memcpy (heap : KHeap) (dest : Nat) (src : Option Nat) (n : Nat) : Except Fault KHeap := do
  let bytes ← load heap src 0 n
  store heap dest 0 bytes

/-- `copy_from_user(p + offset, buf, count)` that fails to copy the last `uncopied` bytes. -/
def copyFromUser (heap : KHeap) (p offset : Nat) (buf : List UInt8) (uncopied : Nat) :
    Except Fault KHeap :=
  store heap p offset (buf.take (buf.length - uncopied))

/-- The byte at index `index` of the block at `p`, and `stray` when it lies outside: reading there
is not a copy, and gives whatever the memory holds. -/
def byteAt (heap : KHeap) (p index : Nat) (stray : UInt8) : UInt8 :=
  ((heap.lookup p).getD []).getD index stray

/-! `whence` of a seek. -/

def seekSet : Nat := 0
def seekCur : Nat := 1
def seekEnd : Nat := 2

/-- `vfs_setpos`: the value returned and the new file position. -/
def vfsSetpos (fPos offset maxsize : Int) : Int × Int :=
  if offset < 0 then (-einval, fPos)
  else if maxsize < offset then (-einval, fPos)
  else (offset, offset)

/-- `fixed_size_llseek`: the value returned and the new file position. -/
def fixedSizeLlseek (fPos offset : Int) (whence : Nat) (size : Int) : Int × Int :=
  if whence = seekSet then vfsSetpos fPos offset size
  else if whence = seekCur then
    if offset = 0 then (fPos, fPos) else vfsSetpos fPos (toLoffT (fPos + offset)) size
  else if whence = seekEnd then vfsSetpos fPos (toLoffT (offset + size)) size
  else (-einval, fPos)

/-! The rules of the services for blocks that are owned. -/

section Rules

variable {heap heap' frame : KHeap} {owned : List (Nat × List UInt8)} {p : Nat}
  {block bytes left mid right : List UInt8}

theorem kmalloc_eq_some {size : Nat} {allocation : Option Allocation}
    (h : kmalloc heap size allocation = some (p, heap')) :
    ∃ found, allocation = some found ∧ found.addr = p ∧ size ≤ kmallocMaxSize ∧
      heap.alloc p ((List.range size).map found.junk) = some heap' := by
  simp only [kmalloc, Option.bind_eq_some_iff] at h
  obtain ⟨found, rfl, h⟩ := h
  split at h
  · rename_i fits
    simp only [Option.map_eq_some_iff, Prod.mk.injEq] at h
    obtain ⟨new, alloc, rfl, rfl⟩ := h
    exact ⟨found, rfl, rfl, fits, alloc⟩
  · contradiction

theorem kfree_owned (own : heap.Owns ((p, block) :: owned) frame) :
    ∃ heap', kfree heap (some p) = .ok heap' ∧ heap'.Owns owned frame := by
  obtain ⟨heap', free, own'⟩ := own.free
  exact ⟨heap', by simp [kfree, free], own'⟩

theorem load_owned (own : heap.Owns owned frame) (mem : (p, block) ∈ owned) {offset n : Nat}
    (fits : offset + n ≤ block.length) :
    load heap (some p) offset n = .ok ((block.drop offset).take n) := by
  simp [load, own.held _ mem, fits]

theorem splice_append (same : bytes.length = mid.length) :
    splice (left ++ mid ++ right) left.length bytes = some (left ++ bytes ++ right) := by
  have fits : left.length + bytes.length ≤ (left ++ mid ++ right).length := by
    simp only [List.length_append]
    omega
  rw [splice, if_pos fits, same, List.append_assoc left mid right, List.take_left,
    ← List.append_assoc, ← List.length_append, List.drop_left]

theorem store_owned (left mid right bytes : List UInt8)
    (own : heap.Owns ((p, left ++ mid ++ right) :: owned) frame)
    (same : bytes.length = mid.length) :
    ∃ heap', store heap p left.length bytes = .ok heap' ∧
      heap'.Owns ((p, left ++ bytes ++ right) :: owned) frame := by
  obtain ⟨heap', modify, own'⟩ :=
    own.modify (f := fun block => splice block left.length bytes) (splice_append same)
  exact ⟨heap', by simp [store, modify], own'⟩

theorem byteAt_owned (own : heap.Owns ((p, block) :: owned) frame) (index : Nat) (stray : UInt8) :
    byteAt heap p index stray = block.getD index stray := by
  simp [byteAt, own.lookup]

end Rules

end Aesd.Driver
