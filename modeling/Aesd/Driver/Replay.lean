import Aesd.Driver.Runs

/-! Two modules that differ only in memory that the driver does not hold. Every call that goes
through on the one goes through on the other with the same reply, as long as the other has no less
memory left: so calls that only leak memory can be left out of a run. -/

namespace Aesd.Driver

open Aesd.CInt ProofKit

/-- A write that reported an error. -/
def failedWrite : Op × Reply → Bool
  | (.write _ _ _, reply) => reply.retval < 0
  | _ => false

/-- The same device and the same file positions; what the driver does not hold takes up no more
addresses in `twin` than in `d`. -/
def Twin (d twin : Loaded) : Prop :=
  ∃ base ring wip frame frame', Holds d.kernel base ring wip frame ∧
    Holds twin.kernel base ring wip frame' ∧ twin.kernel.dev = d.kernel.dev ∧
    twin.fPos = d.fPos ∧ ∀ p, p ∈ frame' → p ∈ frame

variable {d d' twin : Loaded} {kernel kernel' : Kernel} {base : Nat × List UInt8}
  {ring : List Held} {wip : Option Held} {frame frame' : KHeap} {op : Op} {reply : Reply}

theorem Twin.refl (h : Holds d.kernel base ring wip frame) : Twin d d :=
  ⟨base, ring, wip, frame, frame, h, h, rfl, rfl, fun _ => id⟩

theorem Twin.dev_eq (same : Twin d twin) : twin.kernel.dev = d.kernel.dev := by
  obtain ⟨-, -, -, -, -, -, -, dev, -⟩ := same
  exact dev

theorem Twin.fPos_eq (same : Twin d twin) : twin.fPos = d.fPos := by
  obtain ⟨-, -, -, -, -, -, -, -, fPos, -⟩ := same
  exact fPos

theorem Twin.stored_eq (same : Twin d twin) : twin.kernel.stored = d.kernel.stored := by
  obtain ⟨base, ring, wip, frame, frame', h, h', -⟩ := same
  rw [h.stored_eq, h'.stored_eq]

theorem Twin.pending_eq (same : Twin d twin) : twin.kernel.pending = d.kernel.pending := by
  obtain ⟨base, ring, wip, frame, frame', h, h', -⟩ := same
  rw [h.pending_eq, h'.pending_eq]

theorem Holds.dev_congr (h : Holds kernel base ring wip frame)
    (h' : Holds kernel' base ring wip frame') (buffer : kernel'.dev.buffer = kernel.dev.buffer) :
    kernel'.dev = kernel.dev := by
  have pointer := h'.bufferptr.trans h.bufferptr.symm
  have working := h'.wipEntry.trans h.wipEntry.symm
  cases k : kernel.dev
  cases k' : kernel'.dev
  simp_all

theorem Holds.lookup_congr (h : Holds kernel base ring wip frame)
    (h' : Holds kernel' base ring wip frame') (pos : Fin aesdcharMaxWriteOperationsSupported) :
    (kernel.dev.buffer.entry pos).buffptr.bind (kernel'.heap.lookup ·) =
      (kernel.dev.buffer.entry pos).buffptr.bind (kernel.heap.lookup ·) := by
  have met : pos ∈ kernel.dev.buffer.positions :=
    (positions_perm kernel.dev.buffer).mem_iff.mpr (List.mem_finRange pos)
  rcases h.entry_cases met with ⟨x, hx, eq⟩ | eq
  · have owned : x.block ∈ base :: (ring ++ wip.toList).map Held.block :=
      List.mem_cons_of_mem _ (List.mem_map_of_mem (List.mem_append_left _ hx))
    rw [eq]
    exact (h'.owns.held _ owned).trans (h.owns.held _ owned).symm
  · rw [eq]
    rfl

/-- A read looks at the device and at the blocks of the stored entries only. -/
theorem aesdRead_congr (h : Holds kernel base ring wip frame)
    (h' : Holds kernel' base ring wip frame') (dev : kernel'.dev = kernel.dev) (count : Nat)
    (fPos : Int) (env : ReadEnv) :
    aesdRead kernel' count fPos env = aesdRead kernel count fPos env := by
  simp only [aesdRead, load, dev, h.lookup_congr h']

theorem WriteSucceeds.of_fewer (h : Holds kernel base ring wip frame)
    (h' : Holds kernel' base ring wip frame') (fewer : ∀ p, p ∈ frame' → p ∈ frame) {buf : UserBuf}
    {env : WriteEnv} (ok : WriteSucceeds kernel buf env) : WriteSucceeds kernel' buf env := by
  obtain ⟨free, copied, granted⟩ := ok
  refine ⟨free, copied, ?_⟩
  obtain ⟨⟨bptr, heap⟩, request⟩ := Option.isSome_iff_exists.mp granted
  obtain ⟨found, allocation, rfl, fits, alloc⟩ := kmalloc_eq_some request
  have fresh : found.addr ∉ kernel.heap := by
    intro live
    simp [Heap.alloc, live] at alloc
  have fresh' : found.addr ∉ kernel'.heap := fun live => fresh <|
    h.owns.mem_iff.mpr ((h'.owns.mem_iff.mp live).imp_right (fewer _))
  rw [h.pending_eq] at fits
  simp [kmalloc, allocation, h'.pending_eq, fits, Heap.alloc, fresh']

theorem Twin.step (same : Twin d twin) (step : Loaded.Step d (op, reply) d')
    (keeps : failedWrite (op, reply) = false) :
    ∃ twin', Loaded.Step twin (op, reply) twin' ∧ Twin d' twin' := by
  obtain ⟨base, ring, wip, frame, frame', h, h', dev, fPos, fewer⟩ := same
  cases Loaded.step_cases h step with
  | @written file buf env found d' ok allocation moved buffer holds =>
    obtain ⟨twin', reply, step', outcome⟩ := Loaded.step_total h' (.write file buf env)
    have ok' := WriteSucceeds.of_fewer h h' fewer ok
    cases outcome with
    | failed bad => exact absurd ok' bad
    | other notWrite => exact absurd rfl (notWrite _ _ _)
    | @written _ _ _ found' _ _ allocation' moved' buffer' holds' =>
      obtain rfl : found' = found := Option.some_inj.mp (allocation'.symm.trans allocation)
      have pending : twin.kernel.pending = d.kernel.pending := by rw [h.pending_eq, h'.pending_eq]
      rw [pending] at holds' buffer'
      rw [dev] at buffer'
      refine ⟨twin', step', base, _, _, frame, frame', holds, holds',
        holds.dev_congr holds' (buffer'.trans buffer.symm), ?_, fewer⟩
      have contents : twin'.kernel.contents = d'.kernel.contents := by
        rw [Kernel.contents, Kernel.contents, holds.stored_eq, holds'.stored_eq]
      rw [moved, moved', fPos, endOfWrite, endOfWrite, contents]
  | failed bad negative =>
    simp only [failedWrite, decide_eq_false_iff_not] at keeps
    exact absurd negative keeps
  | other notWrite kernel =>
    have reached (d'' : Loaded) (positions : d''.fPos = d'.fPos)
        (memory : d''.kernel = twin.kernel) : Twin d' d'' :=
      ⟨base, ring, wip, frame, frame', kernel ▸ h, memory ▸ h', by rw [memory, kernel, dev],
        positions, fewer⟩
    cases op with
    | write file buf env => exact absurd rfl (notWrite file buf env)
    | read file count env =>
      obtain ⟨result, ok⟩ := aesdRead_total h count (d.fPos file) env
      simp only [Loaded.Step, Loaded.step, ok, ok_bind] at step
      obtain ⟨rfl, rfl⟩ := Prod.mk.inj (Except.ok.inj step)
      refine ⟨{ twin with fPos := Function.update d.fPos file result.fPos }, ?_,
        reached _ rfl rfl⟩
      simp only [Loaded.Step, Loaded.step, fPos, aesdRead_congr h h' dev, ok, ok_bind]
      rfl
    | release file =>
      obtain ⟨rfl, rfl⟩ := Prod.mk.inj (Except.ok.inj step)
      exact ⟨twin, rfl, reached _ fPos rfl⟩
    | _ =>
      refine ⟨{ twin with fPos := d'.fPos }, ?_, reached _ rfl rfl⟩
      simp only [Loaded.Step, Loaded.step, aesdLlseek, aesdIoctl, aesdAdjustFileOffset, dev,
        fPos] at step ⊢
      obtain ⟨rfl, rfl⟩ := Prod.mk.inj (Except.ok.inj step)
      rfl

theorem Twin.failed (same : Twin d twin) (step : Loaded.Step d (op, reply) d')
    (fails : failedWrite (op, reply) = true) :
    d'.kernel.dev = d.kernel.dev ∧ Twin d' twin := by
  obtain ⟨base, ring, wip, frame, frame', h, h', dev, fPos, fewer⟩ := same
  cases Loaded.step_cases h step with
  | written ok =>
    simp only [failedWrite, decide_eq_true_eq] at fails
    omega
  | @failed _ _ _ more _ _ bad negative dev' fPos' holds grows =>
    exact ⟨dev', base, ring, wip, more, frame', holds, h', dev.trans dev'.symm,
      fPos.trans fPos'.symm, fun p hp => grows p (fewer p hp)⟩
  | other notWrite =>
    cases op with
    | write file buf env => exact absurd rfl (notWrite _ _ _)
    | _ => simp [failedWrite] at fails

end Aesd.Driver
