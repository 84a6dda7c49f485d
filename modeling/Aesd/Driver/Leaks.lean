import Aesd.Driver.Runs

/-! Which writes leak memory. Every live block of the driver is named by an entry, the working entry
or the device, as long as no write fails at `copy_from_user` with its new block in hand; such a
write forgets that block. -/

namespace Aesd.Driver

open Aesd.CInt ProofKit

/-- A write that gets its block and then fails to copy from the user. -/
def Loaded.CopyFails (d : Loaded) : Op → Prop
  | .write _ buf env => env.interrupted = false ∧ env.uncopied ≠ 0 ∧
    (kmalloc d.kernel.heap (d.kernel.pending.length + buf.bytes.length + 1) env.allocation).isSome
  | _ => False

/-- One call that is not such a write. -/
def Loaded.CopyStep (d : Loaded) (call : Op × Reply) (d' : Loaded) : Prop :=
  Loaded.Step d call d' ∧ ¬d.CopyFails call.1

/-- No block is leaked: besides `outside`, the live blocks are that of the ring structure and those
that the ten entries and the working entry name, which are different blocks. -/
structure NoLeak (kernel : Kernel) (outside : KHeap) : Prop where
  nodup : kernel.pointers.Nodup
  count : kernel.pointers.length ≤ 11
  apart : ∀ p, p ∈ kernel.pointers ∨ kernel.dev.bufferptr = some p → p ∉ outside
  data : ∀ p ∈ kernel.pointers, kernel.dev.bufferptr ≠ some p
  live : ∀ p, p ∈ kernel.heap ↔
    p ∈ outside ∨ kernel.dev.bufferptr = some p ∨ p ∈ kernel.pointers

variable {d d' : Loaded} {kernel : Kernel} {base : Nat × List UInt8} {ring : List Held}
  {wip : Option Held} {frame : KHeap} {op : Op} {reply : Reply}

theorem Holds.noLeak (h : Holds kernel base ring wip frame) : NoLeak kernel frame := by
  have named := h.pointers_perm
  have blocks : (base :: (ring ++ wip.toList).map Held.block).map Prod.fst =
      base.1 :: (ring ++ wip.toList).map Held.addr := by
    rw [List.map_cons, List.map_map]
    rfl
  obtain ⟨baseApart, nodup⟩ := List.nodup_cons.mp (blocks ▸ h.owns.nodup)
  have owned : ∀ p, p ∈ (base :: (ring ++ wip.toList).map Held.block).map Prod.fst ↔
      kernel.dev.bufferptr = some p ∨ p ∈ kernel.pointers := by
    intro p
    rw [blocks, List.mem_cons, ← named.mem_iff, h.bufferptr, Option.some_inj, eq_comm]
  refine ⟨named.nodup_iff.mpr nodup, ?_, fun p hp => ?_, fun p hp eq => ?_, fun p => ?_⟩
  · have room := h.length_ring
    have one : wip.toList.length ≤ 1 := by cases wip <;> simp
    rw [named.length_eq, List.length_map, List.length_append]
    omega
  · obtain ⟨x, hx, rfl⟩ := List.mem_map.mp ((owned p).mpr hp.symm)
    exact h.owns.apart x hx
  · obtain rfl : base.1 = p := Option.some.inj (h.bufferptr.symm.trans eq)
    exact baseApart (named.mem_iff.mp hp)
  · rw [h.owns.mem_iff, owned, or_comm]

/-- A write that fails leaves memory as it was, or fails at `copy_from_user` and leaves a block
more. -/
theorem Loaded.failing_write (h : Holds d.kernel base ring wip frame) {file : Nat} {buf : UserBuf}
    {env : WriteEnv} (step : Loaded.Step d (.write file buf env, reply) d')
    (bad : ¬WriteSucceeds d.kernel buf env) :
    ¬d.CopyFails (.write file buf env) ∧ d'.kernel = d.kernel ∨
      d.CopyFails (.write file buf env) ∧ ∃ p ∉ d.kernel.heap, p ∈ d'.kernel.heap := by
  by_cases fails : d.CopyFails (.write file buf env)
  · obtain ⟨free, faulted, granted⟩ := fails
    obtain ⟨found, heap', block, -, fresh, ok, holds⟩ :=
      aesdWrite_faulted h buf (d.fPos file) env free faulted granted
    simp only [Loaded.Step, Loaded.step, ok, ok_bind] at step
    cases step
    refine .inr ⟨⟨free, faulted, granted⟩, found.addr, fresh, ?_⟩
    exact holds.owns.mem_iff.mpr (.inr ((AList.mem_insert _).mpr (.inl rfl)))
  · have refused : env.interrupted = true ∨ kmalloc d.kernel.heap
        (d.kernel.pending.length + buf.bytes.length + 1) env.allocation = none := by
      by_contra granted
      obtain ⟨free, granted⟩ := not_or.mp granted
      rw [Bool.not_eq_true] at free
      replace granted := Option.isSome_iff_ne_none.mpr granted
      by_cases copied : env.uncopied = 0
      · exact bad ⟨free, copied, granted⟩
      · exact fails ⟨free, copied, granted⟩
    obtain ⟨retval, -, ok⟩ := aesdWrite_refused h buf (d.fPos file) env refused
    simp only [Loaded.Step, Loaded.step, ok, ok_bind] at step
    cases step
    exact .inl ⟨fails, rfl⟩

theorem Loaded.CopyStep.holds (h : Holds d.kernel base ring wip frame)
    (step : Loaded.CopyStep d (op, reply) d') :
    ∃ ring' wip', Holds d'.kernel base ring' wip' frame := by
  obtain ⟨step, copies⟩ := step
  cases Loaded.step_cases h step with
  | written _ _ _ _ holds => exact ⟨_, _, holds⟩
  | failed bad =>
    rcases Loaded.failing_write h step bad with ⟨-, kernel⟩ | ⟨fails, -⟩
    · exact ⟨ring, wip, kernel ▸ h⟩
    · exact absurd fails copies
  | other _ kernel => exact ⟨ring, wip, kernel ▸ h⟩

/-- In every run of a loaded module without a write that fails at `copy_from_user` no block is
leaked: in each state reached the live blocks are those of the rest of memory, that of the ring
structure, and at most eleven blocks of data, each named by one entry or the working entry;
unloading leaves the rest of memory only. A write that fails leaves the live blocks as they were
exactly when it does not fail at `copy_from_user`. -/
theorem no_leak {heap : KHeap} {env : InitEnv} {calls : List (Op × Reply)}
    (init : aesdInitModule heap env = (0, kernel))
    (run : Run Loaded.CopyStep (.start kernel) calls d) :
    NoLeak d.kernel heap ∧
    (∀ file buf env reply d', Loaded.Step d (.write file buf env, reply) d' → reply.retval < 0 →
      ((∀ p, p ∈ d'.kernel.heap ↔ p ∈ d.kernel.heap) ↔ ¬d.CopyFails (.write file buf env))) ∧
    ∃ heap' freed, aesdCleanupModule d.kernel = .ok (heap', freed) ∧
      ∀ p, p ∈ heap' ↔ p ∈ heap := by
  obtain ⟨base, fresh⟩ := aesdInitModule_holds init
  obtain ⟨ring, wip, h⟩ : ∃ ring wip, Holds d.kernel base ring wip heap :=
    run.invariant (P := fun d => ∃ ring wip, Holds d.kernel base ring wip heap)
      (fun s call t ⟨ring, wip, h⟩ step => Loaded.CopyStep.holds h step) ⟨[], none, fresh⟩
  refine ⟨h.noLeak, fun file buf env reply d' step negative => ?_, ?_⟩
  · have bad : ¬WriteSucceeds d.kernel buf env := by
      intro succeeds
      cases Loaded.step_cases h step with
      | written => exact absurd negative (Int.not_lt.mpr (Int.natCast_nonneg _))
      | failed bad => exact bad succeeds
      | other notWrite => exact notWrite _ _ _ rfl
    rcases Loaded.failing_write h step bad with ⟨copies, kernel⟩ | ⟨fails, p, fresh, live⟩
    · exact iff_of_true (fun p => by rw [kernel]) copies
    · exact iff_of_false (fun same => fresh ((same p).mp live)) (not_not.mpr fails)
  · obtain ⟨heap', freed, ok, -, -, own⟩ := aesdCleanupModule_frees h
    exact ⟨heap', freed, ok, fun p => by rw [own.mem_iff]; simp⟩

/-- A line, a write that fails at `kmalloc`, and half a line. -/
theorem no_leak_half_line : ∃ d : Loaded, d.kernel.pointers = [2, 3] ∧ NoLeak d.kernel ∅ := by
  let loaded := aesdInitModule ∅ ⟨0, some ⟨1, fun _ => 0⟩, 0⟩
  let calls : List (Op × Reply) :=
    [(.write 0 ⟨[97, newline], by decide⟩ { allocation := some ⟨2, fun _ => 0⟩ }, ⟨2, []⟩),
      (.write 0 ⟨[98], by decide⟩ { allocation := none }, ⟨-enomem, []⟩),
      (.write 0 ⟨[98], by decide⟩ { allocation := some ⟨3, fun _ => 0⟩ }, ⟨1, []⟩)]
  have run : Run Loaded.CopyStep (.start loaded.2) calls _ :=
    .cons ⟨rfl, fun fails => fails.2.1 rfl⟩ (.cons ⟨rfl, fun fails => fails.2.1 rfl⟩
      (.cons ⟨rfl, fun fails => fails.2.1 rfl⟩ (.nil _)))
  refine ⟨_, ?_, (no_leak (rfl : loaded = (0, _)) run).1⟩
  rfl

/-- One write to a freshly loaded module that fails at `copy_from_user`: its block is live, in no
entry, and still live after the module is unloaded. -/
theorem failing_write_leaks : ∃ kernel d,
    aesdInitModule ∅ ⟨0, some ⟨1, fun _ => 0⟩, 0⟩ = (0, kernel) ∧
    Run Loaded.Step (.start kernel)
      [(.write 0 ⟨[97], by decide⟩ { allocation := some ⟨2, fun _ => 0⟩, uncopied := 1 },
        ⟨-efault, []⟩)] d ∧
    2 ∉ kernel.heap ∧ 2 ∈ d.kernel.heap ∧ d.kernel.pointers = [] ∧
    ¬NoLeak d.kernel ∅ ∧
    ∃ heap', aesdCleanupModule d.kernel = .ok (heap', [1]) ∧ 2 ∈ heap' := by
  refine ⟨_, _, rfl, .cons rfl (.nil _), by decide +kernel, by decide +kernel, by decide +kernel,
    fun noLeak => ?_, _, rfl, by decide +kernel⟩
  have named := (noLeak.live 2).mp (by decide +kernel)
  revert named
  decide +kernel

end Aesd.Driver
