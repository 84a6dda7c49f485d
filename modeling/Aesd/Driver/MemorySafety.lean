import Aesd.Driver.Runs

/-! Memory safety of the driver: the entries never share a block and never refer to a freed one,
no operation frees or copies what is not live, and unloading frees every block that is held, each
once. -/

namespace Aesd.Driver

open ProofKit

variable {d : Loaded}

/-- In every state that a loaded module can get into, the buffers of the ten entries and of the
working entry are distinct and live, the next operation, whatever it is, neither frees nor copies
anything but live memory, and unloading the module frees exactly these buffers and the circular
buffer, each once. -/
theorem Loaded.Reachable.memory_safe (reach : d.Reachable) :
    d.kernel.pointers.Nodup ∧ (∀ p ∈ d.kernel.pointers, p ∈ d.kernel.heap) ∧
    (∀ op, ∃ d' reply, d.step op = .ok (d', reply)) ∧
    ∃ heap freed, aesdCleanupModule d.kernel = .ok (heap, freed) ∧ freed.Nodup ∧
      (∀ p, p ∈ freed ↔ p ∈ d.kernel.pointers ∨ d.kernel.dev.bufferptr = some p) ∧
      ∀ p ∈ freed, p ∈ d.kernel.heap ∧ p ∉ heap := by
  obtain ⟨base, ring, wip, frame, h⟩ := reach.holds
  have same := h.pointers_perm
  have owned : (base.1 :: (ring ++ wip.toList).map Held.addr) =
      (base :: (ring ++ wip.toList).map Held.block).map Prod.fst := by
    rw [List.map_cons, List.map_map]
    rfl
  obtain ⟨distinct, apart, live⟩ : ((ring ++ wip.toList).map Held.addr).Nodup ∧
      (∀ p ∈ base.1 :: (ring ++ wip.toList).map Held.addr, p ∉ frame) ∧
      ∀ p ∈ base.1 :: (ring ++ wip.toList).map Held.addr, p ∈ d.kernel.heap := by
    rw [owned]
    refine ⟨?_, fun p hp => ?_, fun p hp => h.owns.mem_iff.mpr (.inl hp)⟩
    · exact (List.nodup_cons.mp (owned ▸ h.owns.nodup)).2
    · obtain ⟨x, hx, rfl⟩ := List.mem_map.mp hp
      exact h.owns.apart x hx
  refine ⟨same.nodup_iff.mpr distinct,
    fun p hp => live p (List.mem_cons_of_mem _ (same.mem_iff.mp hp)), fun op => ?_, ?_⟩
  · obtain ⟨d', reply, ok, -⟩ := Loaded.step_total h op
    exact ⟨d', reply, ok⟩
  · obtain ⟨heap, freed, ok, listed, once, rest⟩ := aesdCleanupModule_frees h
    have members : ∀ p, p ∈ freed ↔ p ∈ base.1 :: (ring ++ wip.toList).map Held.addr := by
      intro p
      rw [List.mem_cons, ← same.mem_iff, listed, Kernel.pointers]
      simp only [List.mem_append, List.mem_singleton]
      tauto
    refine ⟨heap, freed, ok, once, fun p => ?_, fun p hp => ⟨live p ((members p).mp hp), ?_⟩⟩
    · rw [members, List.mem_cons, ← same.mem_iff, h.bufferptr, Option.some_inj, or_comm,
        eq_comm]
    · rw [rest.mem_iff]
      simpa using apart p ((members p).mp hp)

/-- A module loaded into empty memory, a stored line and an unfinished one. -/
theorem memory_safe_two_writes : ∃ d : Loaded, d.kernel.pointers = [2, 3] ∧
    d.kernel.pointers.Nodup ∧ (∀ p ∈ d.kernel.pointers, p ∈ d.kernel.heap) ∧
    (∀ op, ∃ d' reply, d.step op = .ok (d', reply)) ∧
    ∃ heap freed, aesdCleanupModule d.kernel = .ok (heap, freed) ∧ freed.Nodup ∧
      (∀ p, p ∈ freed ↔ p ∈ d.kernel.pointers ∨ d.kernel.dev.bufferptr = some p) ∧
      ∀ p ∈ freed, p ∈ d.kernel.heap ∧ p ∉ heap := by
  refine ⟨_, ?_, Loaded.Reachable.memory_safe
    ⟨∅, ⟨0, some ⟨1, fun _ => 0⟩, 0⟩, _,
      [(.openFile 0, ⟨0, []⟩),
        (.write 0 ⟨[97, newline], by decide⟩ { allocation := some ⟨2, fun _ => 0⟩ }, ⟨2, []⟩),
        (.write 0 ⟨[98], by decide⟩ { allocation := some ⟨3, fun _ => 0⟩ }, ⟨1, []⟩)],
      rfl, .cons rfl (.cons rfl (.cons rfl (.nil _)))⟩⟩
  rfl

end Aesd.Driver
