import Aesd.Driver.Module
import Aesd.Driver.Read
import Aesd.Driver.Write
import Aesd.ProofKit.Run

/-! Runs of the loaded module: any sequence of operations on any open files. What one operation
can do to the blocks that the driver holds is said once, in `Loaded.step_cases`. -/

namespace Aesd.Driver

open Aesd.CInt ProofKit

/-- The loaded module: kernel memory with the device, and the position of each open file. -/
structure Loaded where
  kernel : Kernel
  fPos : Nat → Int

/-- An operation on an open file, with what the kernel decides while it runs. -/
inductive Op
  | openFile (file : Nat)
  | release (file : Nat)
  | read (file count : Nat) (env : ReadEnv)
  | write (file : Nat) (buf : UserBuf) (env : WriteEnv)
  | llseek (file : Nat) (off : Int) (whence : Nat) (interrupted : Bool)
  | ioctl (file : Nat) (cmd : UInt32) (arg : AesdSeekto) (env : IoctlEnv)

/-- What the caller gets: the value returned and the bytes copied to it. -/
structure Reply where
  retval : Int
  copied : List UInt8
  deriving DecidableEq, Repr

/-- `aesd_open`. The device is the only one, so there is nothing to look up. -/
def aesdOpen : Int := 0

def aesdRelease : Int := 0

/-- The file operations of `aesd_fops`. A new file starts at position 0. -/
def Loaded.step (d : Loaded) : Op → Except Fault (Loaded × Reply)
  | .openFile file => .ok ({ d with fPos := Function.update d.fPos file 0 }, ⟨aesdOpen, []⟩)
  | .release _ => .ok (d, ⟨aesdRelease, []⟩)
  | .read file count env => do
    let result ← aesdRead d.kernel count (d.fPos file) env
    return ({ d with fPos := Function.update d.fPos file result.fPos },
      ⟨result.retval, result.copied⟩)
  | .write file buf env => do
    let result ← aesdWrite d.kernel buf (d.fPos file) env
    return (⟨result.kernel, Function.update d.fPos file result.fPos⟩, ⟨result.retval, []⟩)
  | .llseek file off whence interrupted =>
    let (retval, fPos) := aesdLlseek d.kernel (d.fPos file) off whence interrupted
    .ok ({ d with fPos := Function.update d.fPos file fPos }, ⟨retval, []⟩)
  | .ioctl file cmd arg env =>
    let (retval, fPos) := aesdIoctl d.kernel (d.fPos file) cmd arg env
    .ok ({ d with fPos := Function.update d.fPos file fPos }, ⟨retval, []⟩)

def Loaded.Step (d : Loaded) (call : Op × Reply) (d' : Loaded) : Prop :=
  d.step call.1 = .ok (d', call.2)

/-- The module right after it was loaded. -/
def Loaded.start (kernel : Kernel) : Loaded := ⟨kernel, fun _ => 0⟩

/-- The states that a module loaded with success can get into. -/
def Loaded.Reachable (d : Loaded) : Prop :=
  ∃ heap env kernel calls, aesdInitModule heap env = (0, kernel) ∧
    Run Loaded.Step (.start kernel) calls d

/-- What the driver holds after one operation that went through as `d'` and `reply`: a write that
succeeds flushes or extends the working entry, a write that fails reports an error and changes
nothing but memory that nobody holds, and the other operations only move file positions. -/
inductive Outcome (d : Loaded) (base : Nat × List UInt8) (ring : List Held) (wip : Option Held)
    (frame : KHeap) : Op → Loaded → Reply → Prop
  | written {file : Nat} {buf : UserBuf} {env : WriteEnv} {found : Allocation} {d' : Loaded}
      (ok : WriteSucceeds d.kernel buf env)
      (allocation : env.allocation = some found)
      (fPos : d'.fPos = Function.update d.fPos file (endOfWrite d'.kernel))
      (buffer : d'.kernel.dev.buffer = flushBuffer d.kernel.dev.buffer
        ⟨found.addr, d.kernel.pending ++ buf.bytes⟩ env.stray)
      (holds : Holds d'.kernel base
        (flush ring ⟨found.addr, d.kernel.pending ++ buf.bytes⟩ env.stray).1
        (flush ring ⟨found.addr, d.kernel.pending ++ buf.bytes⟩ env.stray).2 frame) :
      Outcome d base ring wip frame (.write file buf env) d' ⟨buf.bytes.length, []⟩
  | failed {file : Nat} {buf : UserBuf} {env : WriteEnv} {frame' : KHeap} {d' : Loaded}
      {retval : Int} (bad : ¬WriteSucceeds d.kernel buf env)
      (negative : retval < 0) (dev : d'.kernel.dev = d.kernel.dev) (fPos : d'.fPos = d.fPos)
      (holds : Holds d'.kernel base ring wip frame') (grows : ∀ p, p ∈ frame → p ∈ frame')
      (clean : env.uncopied = 0 → d'.kernel = d.kernel) :
      Outcome d base ring wip frame (.write file buf env) d' ⟨retval, []⟩
  | other {op : Op} {d' : Loaded} {reply : Reply}
      (notWrite : ∀ file buf env, op ≠ .write file buf env)
      (kernel : d'.kernel = d.kernel) : Outcome d base ring wip frame op d' reply

variable {d d' : Loaded} {base : Nat × List UInt8} {ring : List Held} {wip : Option Held}
  {frame : KHeap} {op : Op} {reply : Reply}

theorem aesdRead_total (h : Holds d.kernel base ring wip frame) (count : Nat) (fPos : Int)
    (env : ReadEnv) : ∃ result, aesdRead d.kernel count fPos env = .ok result := by
  obtain ⟨interrupted, uncopied⟩ := env
  cases interrupted with
  | true => exact ⟨_, rfl⟩
  | false =>
    obtain ⟨n, -, -, -, result⟩ := aesdRead_spec h count fPos uncopied
    exact ⟨_, result⟩

theorem Loaded.step_total (h : Holds d.kernel base ring wip frame) (op : Op) :
    ∃ d' reply, d.step op = .ok (d', reply) ∧ Outcome d base ring wip frame op d' reply := by
  cases op with
  | openFile file => exact ⟨_, _, rfl, .other (by simp) rfl⟩
  | release file => exact ⟨_, _, rfl, .other (by simp) rfl⟩
  | read file count env =>
    obtain ⟨result, ok⟩ := aesdRead_total h count (d.fPos file) env
    refine ⟨{ d with fPos := Function.update d.fPos file result.fPos },
      ⟨result.retval, result.copied⟩, ?_, .other (by simp) rfl⟩
    simp only [Loaded.step, ok, ok_bind]
    rfl
  | write file buf env =>
    by_cases succeeds : WriteSucceeds d.kernel buf env
    · obtain ⟨found, kernel', allocation, ok, buffer, holds⟩ :=
        aesdWrite_success h buf (d.fPos file) env succeeds
      refine ⟨⟨kernel', Function.update d.fPos file (endOfWrite kernel')⟩, _, ?_,
        .written succeeds allocation rfl buffer holds⟩
      simp only [Loaded.step, ok, ok_bind]
      rfl
    · obtain ⟨result, frame', ok, negative, fPos, dev, holds, grows, clean⟩ :=
        aesdWrite_failure h buf (d.fPos file) env succeeds
      refine ⟨⟨result.kernel, d.fPos⟩, ⟨result.retval, []⟩, ?_,
        .failed succeeds negative dev rfl holds grows clean⟩
      simp only [Loaded.step, ok, ok_bind, fPos, Function.update_eq_self]
      rfl
  | llseek file off whence interrupted => exact ⟨_, _, rfl, .other (by simp) rfl⟩
  | ioctl file cmd arg env => exact ⟨_, _, rfl, .other (by simp) rfl⟩

theorem Loaded.step_cases (h : Holds d.kernel base ring wip frame)
    (step : Loaded.Step d (op, reply) d') : Outcome d base ring wip frame op d' reply := by
  obtain ⟨d'', reply', ok, outcome⟩ := Loaded.step_total h op
  obtain ⟨rfl, rfl⟩ : d' = d'' ∧ reply = reply' := by
    simpa using (show d.step op = .ok (d', reply) from step).symm.trans ok
  exact outcome

theorem Loaded.Reachable.holds (reach : d.Reachable) :
    ∃ base ring wip frame, Holds d.kernel base ring wip frame := by
  obtain ⟨heap, env, kernel, calls, init, run⟩ := reach
  obtain ⟨base, start⟩ := aesdInitModule_holds init
  refine run.invariant
    (P := fun d => ∃ base ring wip frame, Holds d.kernel base ring wip frame)
    (fun s (op, reply) t ⟨base, ring, wip, frame, h⟩ step => ?_) ⟨base, [], none, heap, start⟩
  cases Loaded.step_cases h step with
  | written _ _ _ _ holds => exact ⟨_, _, _, _, holds⟩
  | failed _ _ _ _ holds => exact ⟨_, _, _, _, holds⟩
  | other _ kernel => exact ⟨base, ring, wip, frame, kernel ▸ h⟩

end Aesd.Driver
