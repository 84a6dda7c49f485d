import Aesd.Driver.Drain
import Aesd.Driver.Seek

/-! The operations of the loaded module as its callers see them, in terms of the stored entries and
the bytes that wait in the working entry. -/

namespace Aesd.Driver

open Aesd.CInt ProofKit

/-- The file of an operation. -/
def Op.file : Op → Nat
  | .openFile file | .release file | .read file _ _ | .write file _ _ | .llseek file _ _ _
  | .ioctl file _ _ _ => file

/-- The driver holds its blocks in some way. -/
def Loaded.Owned (d : Loaded) : Prop :=
  ∃ base ring wip frame, Holds d.kernel base ring wip frame

/-- The entries stored, and the bytes that wait, once `bytes` are written. -/
def appended (stored : List (List UInt8)) (pending bytes : List UInt8) (stray : UInt8) :
    List (List UInt8) × List UInt8 :=
  if lastByte (pending ++ bytes) stray = newline then
    (window 10 (stored ++ [pending ++ bytes]), [])
  else (stored, pending ++ bytes)

/-- The file position of a seek command: the byte of the stored entry that it names. -/
def seekTarget (stored : List (List UInt8)) (seekto : AesdSeekto) : Option Nat :=
  match stored[seekto.writeCmd.toNat]? with
  | some line =>
    if seekto.writeCmdOffset.toNat < line.length then
      some ((stored.take seekto.writeCmd.toNat).flatten.length + seekto.writeCmdOffset.toNat)
    else none
  | none => none

theorem seekTarget_le {stored : List (List UInt8)} {seekto : AesdSeekto} {q : Nat}
    (target : seekTarget stored seekto = some q) : q < stored.flatten.length := by
  unfold seekTarget at target
  split at target
  · rename_i line found
    split at target
    · rename_i inside
      have place := length_take_flatten found
      cases target
      omega
    · contradiction
  · contradiction

theorem aesdAdjustFileOffset_target {kernel : Kernel} {base : Nat × List UInt8} {ring : List Held}
    {wip : Option Held} {frame : KHeap} (h : Holds kernel base ring wip frame) (fPos : Int)
    (seekto : AesdSeekto) :
    aesdAdjustFileOffset kernel fPos seekto.writeCmd seekto.writeCmdOffset false =
      match seekTarget kernel.stored seekto with
      | some q => (0, q)
      | none => (-einval, fPos) := by
  rw [aesdAdjustFileOffset_eq h, seekTarget]
  cases kernel.stored[seekto.writeCmd.toNat]? with
  | none => rfl
  | some line =>
    by_cases inside : seekto.writeCmdOffset.toNat < line.length
    · simp only [if_pos inside, Int.natCast_add]
    · simp only [if_neg inside]

variable {d d' : Loaded} {op : Op} {reply : Reply} {i count p : Nat}

theorem Loaded.step_llseek {off fPos retval : Int} {whence : Nat} {interrupted : Bool}
    (seek : aesdLlseek d.kernel (d.fPos i) off whence interrupted = (retval, fPos)) :
    d.step (.llseek i off whence interrupted) =
      .ok ({ d with fPos := Function.update d.fPos i fPos }, ⟨retval, []⟩) := by
  simp only [Loaded.step, seek]

theorem Loaded.step_ioctl {fPos retval : Int} {cmd : UInt32} {arg : AesdSeekto} {env : IoctlEnv}
    (seek : aesdIoctl d.kernel (d.fPos i) cmd arg env = (retval, fPos)) :
    d.step (.ioctl i cmd arg env) =
      .ok ({ d with fPos := Function.update d.fPos i fPos }, ⟨retval, []⟩) := by
  simp only [Loaded.step, seek]

/-- Only the position of its own file is moved by an operation. -/
theorem Loaded.step_fPos (step : d.step op = .ok (d', reply)) {j : Nat} (ne : j ≠ op.file) :
    d'.fPos j = d.fPos j := by
  cases op with
  | openFile file | release file | llseek file off whence interrupted | ioctl file cmd arg env =>
    cases step
    first | rfl | exact Function.update_of_ne ne _ _
  | read file count env =>
    simp only [Loaded.step] at step
    cases read : aesdRead d.kernel count (d.fPos file) env with
    | error fault => simp [read, bind, Except.bind] at step
    | ok result =>
      rw [read, ok_bind] at step
      cases step
      exact Function.update_of_ne ne _ _
  | write file buf env =>
    simp only [Loaded.step] at step
    cases write : aesdWrite d.kernel buf (d.fPos file) env with
    | error fault => simp [write, bind, Except.bind] at step
    | ok result =>
      rw [write, ok_bind] at step
      cases step
      exact Function.update_of_ne ne _ _

namespace Loaded.Owned

theorem step_kernel (own : d.Owned) (step : d.step op = .ok (d', reply))
    (notWrite : ∀ file buf env, op ≠ .write file buf env) : d'.kernel = d.kernel := by
  obtain ⟨base, ring, wip, frame, h⟩ := own
  cases Loaded.step_cases h step with
  | written => exact absurd rfl (notWrite _ _ _)
  | failed => exact absurd rfl (notWrite _ _ _)
  | other _ kernel => exact kernel

theorem step (own : d.Owned) (step : d.step op = .ok (d', reply)) : d'.Owned := by
  obtain ⟨base, ring, wip, frame, h⟩ := own
  cases Loaded.step_cases h step with
  | written _ _ _ _ holds => exact ⟨_, _, _, _, holds⟩
  | failed _ _ _ _ holds => exact ⟨_, _, _, _, holds⟩
  | other _ kernel => exact ⟨base, ring, wip, frame, kernel ▸ h⟩

/-- Nothing that the contents or a position can reach overflows. -/
theorem length_contents (own : d.Owned) : d.kernel.stored.flatten.length ≤ 10 * 2 ^ 31 := by
  obtain ⟨base, ring, wip, frame, h⟩ := own
  exact h.length_contents

theorem length_stored (own : d.Owned) : d.kernel.stored.length ≤ 10 := by
  obtain ⟨base, ring, wip, frame, h⟩ := own
  exact h.length_stored

theorem stored_short (own : d.Owned) : ∀ line ∈ d.kernel.stored, line.length < 2 ^ 31 := by
  obtain ⟨base, ring, wip, frame, h⟩ := own
  intro line hline
  rw [h.stored_eq] at hline
  obtain ⟨x, hx, rfl⟩ := List.mem_map.mp hline
  exact h.small x (List.mem_append_left _ hx)

/-- A write that reports no error takes all bytes. -/
theorem write (own : d.Owned) {buf : UserBuf} {env : WriteEnv}
    (step : d.step (.write i buf env) = .ok (d', reply)) (ok : 0 ≤ reply.retval) :
    reply.retval = buf.bytes.length ∧ (d'.kernel.stored, d'.kernel.pending) =
      appended d.kernel.stored d.kernel.pending buf.bytes env.stray := by
  obtain ⟨base, ring, wip, frame, h⟩ := own
  cases Loaded.step_cases h step with
  | written _ _ _ _ holds =>
    refine ⟨rfl, ?_⟩
    rw [holds.stored_eq, holds.pending_eq, h.stored_eq, appended, flush]
    split
    · simp [map_window]
    · rfl
  | failed _ negative => exact absurd ok (Int.not_le.mpr negative)
  | other notWrite => exact absurd rfl (notWrite _ _ _)

/-- A write that is given its block and its bytes goes through. -/
theorem write_total (own : d.Owned) (i : Nat) (buf : UserBuf) (found : Allocation) (stray : UInt8)
    (fresh : found.addr ∉ d.kernel.heap)
    (fits : d.kernel.pending.length + buf.bytes.length + 1 ≤ kmallocMaxSize) :
    ∃ d' reply, d.step (.write i buf ⟨false, some found, 0, stray⟩) = .ok (d', reply) ∧
      0 ≤ reply.retval := by
  obtain ⟨base, ring, wip, frame, h⟩ := own
  obtain ⟨d', reply, step, outcome⟩ :=
    Loaded.step_total h (.write i buf ⟨false, some found, 0, stray⟩)
  refine ⟨d', reply, step, ?_⟩
  cases outcome with
  | written => exact Int.natCast_nonneg _
  | failed bad => exact absurd ⟨rfl, rfl, by simp [kmalloc, fits, Heap.alloc, fresh]⟩ bad
  | other notWrite => exact absurd rfl (notWrite _ _ _)

/-- A read that reports no error gives the next bytes, and none only at the end. -/
theorem read (own : d.Owned) {env : ReadEnv} (step : d.step (.read i count env) = .ok (d', reply))
    (ok : 0 ≤ reply.retval) (here : d.fPos i = p) (small : p < 2 ^ 63) (asked : 0 < count) :
    ∃ n ≤ count, (n = 0 ↔ d.kernel.stored.flatten.length ≤ p) ∧
      (0 < n → p + n ≤ d.kernel.stored.flatten.length) ∧
      reply.copied.take reply.retval.toNat = (d.kernel.stored.flatten.drop p).take n ∧
      d'.fPos i = (p + n : Nat) := by
  obtain ⟨base, ring, wip, frame, h⟩ := own
  obtain ⟨result, read, outcome⟩ := aesdRead_outcome h small asked env
  simp only [Loaded.step, here, read, ok_bind] at step
  cases step
  cases outcome with
  | interrupted lock => exact absurd ok (by simp [erestartsys])
  | atEnd lock past =>
    exact ⟨0, Nat.zero_le _, iff_of_true rfl past, by simp, by simp, by simp⟩
  | faulted lock before uncopied copied => exact absurd ok (by simp [efault])
  | some lock before uncopied n pos le fits =>
    refine ⟨n, le, ?_, fun _ => fits, ?_, by simp⟩
    · constructor
      · intro zero
        omega
      · intro past
        exact absurd before (Nat.not_lt.mpr past)
    · simp only [Int.toNat_natCast, List.take_take, Nat.min_self]
      rfl

theorem read_total (own : d.Owned) (i count : Nat) (here : d.fPos i = p) (small : p < 2 ^ 63)
    (asked : 0 < count) :
    ∃ d' reply, d.step (.read i count {}) = .ok (d', reply) ∧ 0 ≤ reply.retval := by
  obtain ⟨base, ring, wip, frame, h⟩ := own
  obtain ⟨result, read, outcome⟩ := aesdRead_outcome h small asked {}
  refine ⟨_, _, by simp only [Loaded.step, here, read, ok_bind]; rfl, ?_⟩
  cases outcome with
  | interrupted lock => contradiction
  | atEnd => exact Int.le_refl 0
  | faulted _ _ uncopied => exact absurd rfl uncopied
  | some => exact Int.natCast_nonneg _

theorem llseek_start (own : d.Owned) {interrupted : Bool}
    (step : d.step (.llseek i 0 seekSet interrupted) = .ok (d', reply)) :
    interrupted = true ∧ reply.retval < 0 ∨
      interrupted = false ∧ 0 ≤ reply.retval ∧ d'.fPos i = (0 : Nat) := by
  obtain ⟨base, ring, wip, frame, h⟩ := own
  cases interrupted with
  | true =>
    have refused : aesdLlseek d.kernel (d.fPos i) 0 seekSet true = (-erestartsys, d.fPos i) := by
      rw [aesdLlseek, if_pos rfl]
    rw [Loaded.step_llseek refused] at step
    cases step
    exact .inl ⟨rfl, (by decide : -erestartsys < 0)⟩
  | false =>
    rw [Loaded.step_llseek (aesdLlseek_start h _)] at step
    cases step
    exact .inr ⟨rfl, Int.le_refl 0, by simp⟩

/-- A seek command that nothing interrupts moves the position to its target, or has none and
fails. -/
theorem ioctl (own : d.Owned) {seekto : AesdSeekto} {env : IoctlEnv}
    (step : d.step (.ioctl i aesdcharIocseekto seekto env) = .ok (d', reply)) :
    (env.interrupted = true ∨ env.uncopied ≠ 0) ∧ reply.retval < 0 ∨
      match seekTarget d.kernel.stored seekto with
      | some q => 0 ≤ reply.retval ∧ d'.fPos i = q
      | none => reply.retval < 0 := by
  obtain ⟨base, ring, wip, frame, h⟩ := own
  by_cases copied : env.uncopied = 0
  swap
  · have refused : aesdIoctl d.kernel (d.fPos i) aesdcharIocseekto seekto env =
        (-efault, d.fPos i) := by
      rw [aesdIoctl, if_pos rfl, if_pos copied]
    rw [Loaded.step_ioctl refused] at step
    cases step
    exact .inl ⟨.inr copied, (by decide : -efault < 0)⟩
  have asked : aesdIoctl d.kernel (d.fPos i) aesdcharIocseekto seekto env =
      aesdAdjustFileOffset d.kernel (d.fPos i) seekto.writeCmd seekto.writeCmdOffset
        env.interrupted := by
    rw [aesdIoctl, if_pos rfl, if_neg (not_not.mpr copied)]
  cases interrupted : env.interrupted with
  | true =>
    have negative : (aesdAdjustFileOffset d.kernel (d.fPos i) seekto.writeCmd
        seekto.writeCmdOffset true).1 < 0 := by
      unfold aesdAdjustFileOffset
      split
      · exact (by decide : -einval < 0)
      · exact (by decide : -erestartsys < 0)
    rw [interrupted] at asked
    rw [Loaded.step_ioctl (asked.trans (Prod.mk.eta).symm)] at step
    cases step
    exact .inl ⟨.inl rfl, negative⟩
  | false =>
    right
    rw [interrupted, aesdAdjustFileOffset_target h] at asked
    cases target : seekTarget d.kernel.stored seekto with
    | none =>
      rw [target] at asked
      rw [Loaded.step_ioctl asked] at step
      cases step
      exact (by decide : -einval < 0)
    | some q =>
      rw [target] at asked
      rw [Loaded.step_ioctl asked] at step
      cases step
      exact ⟨Int.le_refl 0, Function.update_self _ _ _⟩

end Loaded.Owned

end Aesd.Driver
