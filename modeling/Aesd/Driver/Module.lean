import Aesd.Driver.Ownership

/-! Loading and unloading the module: what it holds at first, and that unloading frees every block
that it holds, each once. -/

namespace Aesd.Driver

open Aesd.CInt ProofKit

variable {kernel : Kernel} {base : Nat × List UInt8} {ring : List Held} {wip : Option Held}
  {frame : KHeap}

/-- A module that loads holds the block of the circular buffer and nothing else. -/
theorem aesdInitModule_holds {heap : KHeap} {env : InitEnv}
    (loaded : aesdInitModule heap env = (0, kernel)) :
    ∃ base, Holds kernel base [] none heap := by
  unfold aesdInitModule at loaded
  split at loaded
  · rename_i failed
    have : env.region = 0 := congrArg Prod.fst loaded
    omega
  · cases request : kmalloc heap sizeofAesdCircularBuffer env.allocation with
    | none =>
      rw [request] at loaded
      exact absurd (congrArg Prod.fst loaded) (by decide : -enomem ≠ 0)
    | some new =>
      obtain ⟨p, heap'⟩ := new
      rw [request] at loaded
      obtain rfl := (congrArg Prod.snd loaded).symm
      obtain ⟨found, -, -, -, alloc⟩ := kmalloc_eq_some request
      exact ⟨(p, _), rfl, (Heap.owns_nil heap).alloc alloc, init_represents, rfl, by simp⟩

theorem positions_perm (buffer : AesdCircularBuffer) :
    buffer.positions.Perm (List.finRange aesdcharMaxWriteOperationsSupported) := by
  have distinct : buffer.positions.Nodup := by
    refine List.Nodup.map_on (fun i hi j hj eq => ?_) List.nodup_range
    exact currentPos_inj (List.mem_range.mp hi) (List.mem_range.mp hj) eq
  refine (List.perm_ext_iff_of_nodup distinct (List.nodup_finRange _)).mpr fun pos => ?_
  have bound : (pos : Nat) < 10 := pos.isLt
  simp only [List.mem_finRange, iff_true, AesdCircularBuffer.positions, List.mem_map,
    List.mem_range]
  refine ⟨(pos + 10 - buffer.outOffs % 10) % 10, Nat.mod_lt _ (by decide), Fin.ext ?_⟩
  rw [val_currentPos]
  omega

/-- The buffers that the ten entries of the ring name, in the order of their indices. -/
def ringPointers (buffer : AesdCircularBuffer) : List Nat :=
  ((List.finRange aesdcharMaxWriteOperationsSupported).map buffer.entry).filterMap (·.buffptr)

/-- The buffers that the ten entries of the ring and the working entry name. -/
def Kernel.pointers (kernel : Kernel) : List Nat :=
  ringPointers kernel.dev.buffer ++ kernel.dev.wipEntry.buffptr.toList

theorem Holds.ringPointers_perm (h : Holds kernel base ring wip frame) :
    (ringPointers kernel.dev.buffer).Perm (ring.map Held.addr) := by
  have walked : kernel.dev.buffer.walk.filterMap (·.buffptr) = ring.map Held.addr := by
    rw [h.represents.walk_eq, List.filterMap_append, List.filterMap_map]
    have zeros (n : Nat) :
        (List.replicate n AesdBufferEntry.zero).filterMap (·.buffptr) = [] := by
      simp [AesdBufferEntry.zero]
    rw [zeros, List.append_nil, ← List.filterMap_eq_map]
    rfl
  rw [← walked]
  exact (((positions_perm kernel.dev.buffer).map kernel.dev.buffer.entry).filterMap _).symm

theorem Holds.wip_pointer (h : Holds kernel base ring wip frame) :
    kernel.dev.wipEntry.buffptr = wip.map Held.addr := by
  rw [h.wipEntry]
  cases wip <;> rfl

theorem Holds.pointers_perm (h : Holds kernel base ring wip frame) :
    kernel.pointers.Perm ((ring ++ wip.toList).map Held.addr) := by
  rw [Kernel.pointers, h.wip_pointer, List.map_append]
  have tail : (wip.map Held.addr).toList = wip.toList.map Held.addr := by cases wip <;> rfl
  rw [tail]
  exact h.ringPointers_perm.append_right _

theorem freeEntries_owned {owned : List (Nat × List UInt8)} (entries : List AesdBufferEntry)
    {blocks : List (Nat × List UInt8)} {heap : KHeap}
    (own : heap.Owns (blocks ++ owned) frame)
    (named : (entries.filterMap (·.buffptr)).Perm (blocks.map Prod.fst)) :
    ∃ heap', freeEntries heap entries = .ok (heap', entries.filterMap (·.buffptr)) ∧
      heap'.Owns owned frame := by
  induction entries generalizing blocks heap with
  | nil =>
    obtain rfl : blocks = [] := by simpa using named.symm.eq_nil
    exact ⟨heap, rfl, own⟩
  | cons entry entries ih =>
    cases buffptr : entry.buffptr with
    | none =>
      rw [List.filterMap_cons_none buffptr] at named ⊢
      simp only [freeEntries, buffptr]
      exact ih own named
    | some p =>
      rw [List.filterMap_cons_some buffptr] at named ⊢
      obtain ⟨x, hx, rfl⟩ := List.mem_map.mp (named.mem_iff.mp (List.mem_cons_self ..))
      obtain ⟨before, after, rfl⟩ := List.append_of_mem hx
      have front : (before ++ x :: after).Perm (x :: (before ++ after)) := List.perm_middle
      obtain ⟨heap1, free, own1⟩ := kfree_owned (own.perm (front.append_right owned))
      obtain ⟨heap', freed, own'⟩ := ih own1 (named.trans (front.map Prod.fst)).cons_inv
      refine ⟨heap', ?_, own'⟩
      simp only [freeEntries, buffptr, free, freed, ok_bind]
      rfl

/-- Unloading frees each block that the driver holds once, and leaves the rest of memory. -/
theorem aesdCleanupModule_frees (h : Holds kernel base ring wip frame) :
    ∃ heap' freed, aesdCleanupModule kernel = .ok (heap', freed) ∧
      freed = ringPointers kernel.dev.buffer ++ [base.1] ++ kernel.dev.wipEntry.buffptr.toList ∧
      freed.Nodup ∧ heap'.Owns [] frame := by
  have order : (base :: (ring ++ wip.toList).map Held.block).Perm
      (ring.map Held.block ++ (base :: wip.toList.map Held.block)) := by
    rw [List.map_append]
    exact List.perm_middle.symm
  have own := h.owns.perm order
  have named : (ringPointers kernel.dev.buffer).Perm ((ring.map Held.block).map Prod.fst) := by
    rw [List.map_map]
    exact h.ringPointers_perm
  obtain ⟨heap1, entries, own1⟩ := freeEntries_owned _ own named
  obtain ⟨heap2, buffer, own2⟩ := kfree_owned own1
  obtain ⟨heap3, rest, own3⟩ : ∃ heap3,
      freeHeld heap2 kernel.dev.wipEntry.buffptr =
        .ok (heap3, kernel.dev.wipEntry.buffptr.toList) ∧ heap3.Owns [] frame := by
    rw [h.wip_pointer]
    cases wip with
    | none => exact ⟨heap2, rfl, own2⟩
    | some w =>
      obtain ⟨heap3, free, own3⟩ := kfree_owned own2
      refine ⟨heap3, ?_, own3⟩
      simp only [Option.map_some, freeHeld, Option.toList_some]
      rw [show kfree heap2 (some w.addr) = .ok heap3 from free]
      rfl
  have ringBlock : freeHeld heap1 (some base.1) = .ok (heap2, [base.1]) := by
    rw [freeHeld, buffer]
    rfl
  refine ⟨heap3, _, ?_, rfl, ?_, own3⟩
  · simp only [aesdCleanupModule, h.bufferptr, Option.isSome_some, ite_true, entries, ringBlock,
      rest, ok_bind]
    rfl
  · have freed : (ringPointers kernel.dev.buffer ++ [base.1] ++
        kernel.dev.wipEntry.buffptr.toList).Perm
        ((base :: (ring ++ wip.toList).map Held.block).map Prod.fst) := by
      rw [List.map_cons, List.map_map]
      refine List.Perm.trans ?_ (h.pointers_perm.cons base.1)
      rw [Kernel.pointers, List.append_assoc]
      exact List.perm_middle
    exact freed.nodup_iff.mpr h.owns.nodup

end Aesd.Driver
