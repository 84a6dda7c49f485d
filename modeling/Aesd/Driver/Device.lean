import Aesd.Driver.Calls
import Aesd.Driver.Position
import Mathlib.Data.List.Forall2
import Mathlib.Data.Fintype.EquivFin

/-! What the device is for, without kernel memory, entries or machine integers: it keeps the last
ten lines written and the line that is not finished, and each open file has a position in the
lines. The loaded module does what this device does, reply for reply, and the other way round. -/

namespace Aesd.Driver

open Aesd.CInt ProofKit

/-- The device as its users see it. -/
structure Device where
  lines : List (List UInt8)
  unfinished : List UInt8
  fPos : Nat → Int

namespace Device

/-- The device of a freshly loaded module. -/
def empty : Device := ⟨[], [], fun _ => 0⟩

/-- The number of bytes that can be read. -/
def size (d : Device) : Nat := d.lines.flatten.length

def move (d : Device) (file : Nat) (fPos : Int) : Device :=
  { d with fPos := Function.update d.fPos file fPos }

/-- What is left of the line that byte `p` of the lines is in. -/
def restOfLine (lines : List (List UInt8)) (p : Nat) : List UInt8 :=
  match locate List.length lines p with
  | some (line, o) => line.drop o
  | none => []

/-- What is in front of a file. At position -1 there is nothing. -/
def ahead (d : Device) (file : Nat) : List UInt8 :=
  if d.fPos file < 0 then [] else restOfLine d.lines (d.fPos file).toNat

/-- A read gives at most the rest of one line. -/
def read (d : Device) (file count : Nat) (env : ReadEnv) : Device × Reply :=
  let bytes := (d.ahead file).take count
  if env.interrupted then (d, ⟨-erestartsys, []⟩)
  else if d.ahead file = [] then (d, ⟨0, []⟩)
  else if env.uncopied ≠ 0 then (d, ⟨-efault, bytes.take (bytes.length - env.uncopied)⟩)
  else (d.move file (d.fPos file + bytes.length), ⟨bytes.length, bytes⟩)

/-- A write goes to the end of the unfinished line, whatever the position of the file, and leaves
the position one byte in front of the end of the lines. `memory` says whether there is memory for
the longer line. -/
def write (d : Device) (file : Nat) (bytes : List UInt8) (env : WriteEnv) (memory : Bool) :
    Device × Reply :=
  if env.interrupted then (d, ⟨-erestartsys, []⟩)
  else if memory = false ∨ kmallocMaxSize < d.unfinished.length + bytes.length + 1 then
    (d, ⟨-enomem, []⟩)
  else if env.uncopied ≠ 0 then (d, ⟨-efault, []⟩)
  else
    let (lines, unfinished) := appended d.lines d.unfinished bytes env.stray
    (⟨lines, unfinished, Function.update d.fPos file (lines.flatten.length - 1)⟩,
      ⟨bytes.length, []⟩)

/-- The position that a seek asks for. -/
def asked (fPos off : Int) (whence size : Nat) : Option Int :=
  if whence = seekSet then some off
  else if whence = seekCur then some (fPos + off)
  else if whence = seekEnd then some (size + off)
  else none

/-- A seek goes anywhere inside the lines and right behind them. To stay is always allowed. -/
def llseek (d : Device) (file : Nat) (off : Int) (whence : Nat) (interrupted : Bool) :
    Device × Reply :=
  if interrupted then (d, ⟨-erestartsys, []⟩)
  else if whence = seekCur ∧ off = 0 then (d, ⟨d.fPos file, []⟩)
  else match asked (d.fPos file) off whence d.size with
    | some q => if 0 ≤ q ∧ q ≤ d.size then (d.move file q, ⟨q, []⟩) else (d, ⟨-einval, []⟩)
    | none => (d, ⟨-einval, []⟩)

/-- The seek command goes to a byte of a line, by the numbers of the line and of the byte. -/
def ioctl (d : Device) (file : Nat) (cmd : UInt32) (arg : AesdSeekto) (env : IoctlEnv) :
    Device × Reply :=
  if cmd ≠ aesdcharIocseekto then (d, ⟨-enotty, []⟩)
  else if env.uncopied ≠ 0 then (d, ⟨-efault, []⟩)
  else if 10 ≤ arg.writeCmd.toNat then (d, ⟨-einval, []⟩)
  else if env.interrupted then (d, ⟨-erestartsys, []⟩)
  else match seekTarget d.lines arg with
    | some q => (d.move file q, ⟨0, []⟩)
    | none => (d, ⟨-einval, []⟩)

/-- An operation on the device, with the answer of the memory if it needs any. -/
def step (d : Device) (memory : Bool) : Op → Device × Reply
  | .openFile file => (d.move file 0, ⟨0, []⟩)
  | .release _ => (d, ⟨0, []⟩)
  | .read file count env => d.read file count env
  | .write file buf env => d.write file buf.bytes env memory
  | .llseek file off whence interrupted => d.llseek file off whence interrupted
  | .ioctl file cmd arg env => d.ioctl file cmd arg env

def Step (d : Device) (call : Op × Reply) (d' : Device) : Prop :=
  ∃ memory, d.step memory call.1 = (d', call.2)

/-- A position is at most one byte in front of the lines, and not far behind them. -/
def InReach (d : Device) : Prop := ∀ file, -1 ≤ d.fPos file ∧ d.fPos file ≤ 10 * 2 ^ 31

end Device

/-- The device that a loaded module is. -/
def Loaded.device (d : Loaded) : Device := ⟨d.kernel.stored, d.kernel.pending, d.fPos⟩

/-- The arguments of the operation fit their types. -/
def Op.Typed : Op → Prop
  | .llseek _ off _ _ => -2 ^ 63 ≤ off ∧ off < 2 ^ 63
  | _ => True

variable {kernel : Kernel} {base : Nat × List UInt8} {ring : List Held} {wip : Option Held}
  {frame : KHeap} {d d' : Loaded} {op : Op} {reply : Reply}

theorem Device.restOfLine_le {lines : List (List UInt8)} {p : Nat}
    (some_ : Device.restOfLine lines p ≠ []) :
    p + (Device.restOfLine lines p).length ≤ lines.flatten.length := by
  unfold Device.restOfLine at some_ ⊢
  cases place : locate List.length lines p with
  | none => simp [place] at some_
  | some found =>
    obtain ⟨line, o⟩ := found
    obtain ⟨before, after, rfl, inside, sum⟩ := locate_eq_some.mp place
    simp only [List.length_drop, List.flatten_append, List.flatten_cons, List.length_append]
    rw [← List.length_flatten] at sum
    omega

theorem Device.ahead_le {d : Device} {file : Nat} (some_ : d.ahead file ≠ []) :
    d.fPos file + (d.ahead file).length ≤ d.size := by
  unfold Device.ahead at some_ ⊢
  split
  · rename_i negative
    simp [negative] at some_
  · rename_i there
    rw [if_neg there] at some_
    have room := Device.restOfLine_le some_
    rw [Device.size]
    omega

/-- The byte that the entries find is the byte that the lines find. -/
theorem Holds.locate_stored (h : Holds kernel base ring wip frame) (p : Nat) :
    locate List.length kernel.stored p =
      (locate (fun pos => (kernel.dev.buffer.entry pos).size) kernel.dev.buffer.positions p).map
        (Prod.map (fun pos => entryBytes kernel.heap (kernel.dev.buffer.entry pos)) id) := by
  have zeros (n : Nat) : (List.replicate n AesdBufferEntry.zero).map (entryBytes kernel.heap) =
      List.replicate n [] := by
    simp [entryBytes, AesdBufferEntry.zero]
  have bytes : (ring.map Held.entry).map (entryBytes kernel.heap) = ring.map Held.bytes := by
    rw [List.map_map]
    exact List.map_congr_left fun x hx => h.entryBytes_eq (List.mem_append_left _ hx)
  have walked : kernel.dev.buffer.positions.map
      (fun pos => entryBytes kernel.heap (kernel.dev.buffer.entry pos)) =
      kernel.stored ++ List.replicate (10 - ring.length) [] := by
    have walk := congrArg (List.map (entryBytes kernel.heap)) h.represents.walk_eq
    rw [List.map_append, zeros, bytes, ← h.stored_eq, AesdCircularBuffer.walk, List.map_map] at walk
    simpa [Function.comp_def] using walk
  have empty : ∀ line ∈ List.replicate (10 - ring.length) ([] : List UInt8), line.length = 0 := by
    intro line hline
    rw [List.eq_of_mem_replicate hline]
    rfl
  rw [← locate_append_empty empty, ← walked, locate_map]
  congr 1
  exact locate_congr fun pos met => h.length_entryBytes met

/-- What a read that gets the lock does, to the byte. -/
theorem aesdRead_line (h : Holds kernel base ring wip frame) (count : Nat) (fPos : Int)
    (uncopied : Nat) :
    aesdRead kernel count fPos { uncopied } =
      .ok (if Device.restOfLine kernel.stored (toSizeT fPos) = [] then ⟨0, [], fPos⟩
        else
          let bytes := (Device.restOfLine kernel.stored (toSizeT fPos)).take count
          if uncopied ≠ 0 then ⟨-efault, bytes.take (bytes.length - uncopied), fPos⟩
          else ⟨bytes.length, bytes, toLoffT (fPos + bytes.length)⟩) := by
  have bound := h.length_contents
  have found : aesdCircularBufferFindEntryOffsetForFpos kernel.dev.buffer (toSizeT fPos) 0 = _ :=
    find_eq (toSizeT fPos) 0 (by rw [h.total_eq]; omega)
  unfold aesdRead
  rw [found, Device.restOfLine, h.locate_stored]
  cases place : locate (fun pos => (kernel.dev.buffer.entry pos).size)
    kernel.dev.buffer.positions (toSizeT fPos) with
  | none => rfl
  | some at_ =>
    obtain ⟨pos, o⟩ := at_
    obtain ⟨before, after, split, inside, -⟩ := locate_eq_some.mp place
    have met : pos ∈ kernel.dev.buffer.positions := by simp [split]
    -- only a stored entry has a byte to point at
    obtain ⟨x, hx, eq⟩ := (h.entry_cases met).resolve_right fun zero => by
      simp [zero, AesdBufferEntry.zero] at inside
    have mem := List.mem_append_left wip.toList hx
    have small : x.bytes.length < 2 ^ 31 := h.small x mem
    simp only [eq, Held.entry_size] at inside
    have rest : (x.bytes.drop o).length = x.bytes.length - o := List.length_drop
    have more : x.bytes.drop o ≠ [] := by
      intro nil
      rw [nil, List.length_nil] at rest
      omega
    have left : toSizeT ((x.bytes.length : Int) - o) = x.bytes.length - o := by
      rw [← Int.natCast_sub (by omega)]
      exact toSizeT_of_lt (by omega)
    have clamp : (if x.bytes.length - o < count then x.bytes.length - o else count) =
        ((x.bytes.drop o).take count).length := by
      rw [List.length_take, rest]
      split <;> omega
    have loaded : load kernel.heap (some x.addr) o ((x.bytes.drop o).take count).length =
        .ok ((x.bytes.drop o).take count) := by
      have owned : (x.addr, x.bytes ++ [0]) ∈ base :: (ring ++ wip.toList).map Held.block :=
        List.mem_cons_of_mem _ (List.mem_map_of_mem mem)
      rw [load_owned h.owns owned (by simp; omega), List.drop_append_of_le_length (by omega),
        List.take_append_of_le_length (by simp)]
      simp
    have short : ((x.bytes.drop o).take count).length < 2 ^ 31 := by
      rw [List.length_take]
      omega
    have ret : toLoffT (((x.bytes.drop o).take count).length : Nat) =
        ((x.bytes.drop o).take count).length := toLoffT_of_range (by omega) (by omega)
    simp only [Option.map_some, Prod.map_apply, id_eq, eq, Held.entry_size, Held.entry_buffptr,
      h.entryBytes_eq mem, left, clamp, loaded, ok_bind, Bool.false_eq_true, ite_false, if_neg more]
    by_cases copied : uncopied = 0
    · simp only [copied, ne_eq, not_true_eq_false, ite_false, ret]
      rfl
    · simp only [copied, ne_eq, not_false_eq_true, ite_true]
      rfl

theorem vfsSetpos_eq (fPos q maxsize : Int) :
    vfsSetpos fPos q maxsize = if 0 ≤ q ∧ q ≤ maxsize then (q, q) else (-einval, fPos) := by
  unfold vfsSetpos
  split
  · rw [if_neg (by omega)]
  · split
    · rw [if_neg (by omega)]
    · rw [if_pos (by omega)]

/-- A position that wraps around is not one of the contents. -/
theorem vfsSetpos_toLoffT {fPos q maxsize : Int} (low : -2 ^ 63 - 1 ≤ q)
    (high : q < 2 ^ 63 + 2 ^ 62) (small : maxsize < 2 ^ 62) :
    vfsSetpos fPos (toLoffT q) maxsize = vfsSetpos fPos q maxsize := by
  by_cases inside : -2 ^ 63 ≤ q ∧ q < 2 ^ 63
  · rw [toLoffT_of_range inside.1 inside.2]
  · rw [vfsSetpos_eq, vfsSetpos_eq, if_neg (by unfold toLoffT; omega), if_neg (by omega)]

/-- The memory has a block for the longer line, if the operation needs one. -/
def Loaded.memory (d : Loaded) : Op → Bool
  | .write _ buf env =>
    (kmalloc d.kernel.heap (d.kernel.pending.length + buf.bytes.length + 1) env.allocation).isSome
  | _ => true

section Refines

variable (h : Holds d.kernel base ring wip frame)

include h

theorem Loaded.device_read {file count : Nat} {env : ReadEnv} (reach : d.device.InReach)
    (step : d.step (.read file count env) = .ok (d', reply)) :
    d.device.read file count env = (d'.device, reply) := by
  obtain ⟨low, high⟩ := reach file
  obtain ⟨interrupted, uncopied⟩ := env
  cases interrupted with
  | true =>
    obtain ⟨rfl, rfl⟩ : d = d' ∧ _ = reply := by
      simpa [Loaded.step, aesdRead, pure, Except.pure] using step
    simp [Device.read]
  | false =>
    have bytes := h.length_contents
    simp only [Loaded.device] at low high
    have place : d.device.ahead file =
        Device.restOfLine d.kernel.stored (toSizeT (d.fPos file)) := by
      rw [Device.ahead]
      split
      · rename_i negative
        replace negative : d.fPos file < 0 := negative
        have past : d.kernel.contents.length ≤ toSizeT (d.fPos file) := by
          unfold toSizeT
          omega
        have nowhere : locate List.length d.kernel.stored (toSizeT (d.fPos file)) = none :=
          locate_eq_none.mpr (by rwa [← List.length_flatten])
        rw [Device.restOfLine, nowhere]
      · rename_i there
        replace there : ¬d.fPos file < 0 := there
        have same : toSizeT (d.fPos file) = (d.fPos file).toNat := by
          unfold toSizeT
          omega
        rw [same]
        rfl
    have fits : Device.restOfLine d.kernel.stored (toSizeT (d.fPos file)) ≠ [] → _ :=
      Device.restOfLine_le
    simp only [Device.read, place, Bool.false_eq_true, if_false]
    simp only [Loaded.step, aesdRead_line h, ok_bind, pure, Except.pure] at step
    cases step
    generalize Device.restOfLine d.kernel.stored (toSizeT (d.fPos file)) = rest at fits ⊢
    by_cases nothing : rest = []
    · simp only [nothing, if_true, Function.update_eq_self]
    · have taken : (rest.take count).length ≤ rest.length := by simp
      have room := fits nothing
      by_cases copied : uncopied = 0
      · have sum : toLoffT (d.fPos file + (rest.take count).length) =
            d.fPos file + (rest.take count).length := by
          rw [Kernel.contents] at bytes
          exact toLoffT_of_range (by omega) (by omega)
        simp only [nothing, copied, ne_eq, not_true_eq_false, if_false, sum]
        rfl
      · simp only [nothing, copied, ne_eq, not_false_eq_true, if_true, if_false,
          Function.update_eq_self]

theorem Loaded.device_write {file : Nat} {buf : UserBuf} {env : WriteEnv}
    (step : d.step (.write file buf env) = .ok (d', reply)) :
    d.device.write file buf.bytes env (d.memory (.write file buf env)) = (d'.device, reply) := by
  have own : d.Owned := ⟨base, ring, wip, frame, h⟩
  by_cases lock : env.interrupted = true
  · simp only [Loaded.step, aesdWrite_interrupted buf _ env lock, ok_bind, pure, Except.pure,
      Function.update_eq_self] at step
    cases step
    rw [Device.write, if_pos lock]
  cases request : kmalloc d.kernel.heap (d.kernel.pending.length + buf.bytes.length + 1)
    env.allocation with
  | none =>
    simp only [Loaded.step, aesdWrite_noMemory h buf _ env lock request, ok_bind, pure,
      Except.pure, Function.update_eq_self] at step
    cases step
    rw [Device.write, if_neg lock, if_pos (.inl (by rw [Loaded.memory, request]; rfl))]
  | some new =>
    have granted : (kmalloc d.kernel.heap (d.kernel.pending.length + buf.bytes.length + 1)
        env.allocation).isSome := by rw [request]; rfl
    have room : ¬(d.memory (.write file buf env) = false ∨
        kmallocMaxSize < d.device.unfinished.length + buf.bytes.length + 1) := by
      obtain ⟨found, -, -, fits, -⟩ := kmalloc_eq_some request
      rw [Loaded.memory, granted, not_or]
      exact ⟨Bool.noConfusion, Nat.not_lt.mpr fits⟩
    rw [Device.write, if_neg lock, if_neg room]
    by_cases copied : env.uncopied ≠ 0
    · obtain ⟨found, heap', block, -, -, ok, holds⟩ := aesdWrite_faulted h buf (d.fPos file) env
        (Bool.eq_false_iff.mpr lock) copied granted
      simp only [Loaded.step, ok, ok_bind, pure, Except.pure, Function.update_eq_self] at step
      cases step
      rw [if_pos copied, Loaded.device, Loaded.device, h.stored_eq, h.pending_eq, holds.stored_eq,
        holds.pending_eq]
    · rw [if_neg copied]
      have succeeds : WriteSucceeds d.kernel buf env :=
        ⟨Bool.eq_false_iff.mpr lock, not_not.mp copied, granted⟩
      cases Loaded.step_cases h step with
      | failed bad => exact absurd succeeds bad
      | other notWrite => exact absurd rfl (notWrite _ _ _)
      | written _ _ fPos _ holds =>
        obtain ⟨-, kept⟩ := own.write step (Int.natCast_nonneg _)
        have place : endOfWrite d'.kernel = (d'.kernel.stored.flatten.length : Int) - 1 :=
          holds.endOfWrite_eq
        rw [Loaded.device, Loaded.device, fPos, place]
        simp only [← kept]

theorem Loaded.device_llseek {file : Nat} {off : Int} {whence : Nat} {interrupted : Bool}
    (reach : d.device.InReach) (typed : Op.Typed (.llseek file off whence interrupted))
    (step : d.step (.llseek file off whence interrupted) = .ok (d', reply)) :
    d.device.llseek file off whence interrupted = (d'.device, reply) := by
  obtain ⟨low, high⟩ := reach file
  obtain ⟨least, most⟩ := typed
  have bytes := h.length_contents
  simp only [Loaded.device] at low high
  cases interrupted with
  | true =>
    simp only [Loaded.step, aesdLlseek, if_true, Function.update_eq_self] at step
    cases step
    rfl
  | false =>
    have set (q : Int) (seek : aesdLlseek d.kernel (d.fPos file) off whence false =
        vfsSetpos (d.fPos file) q d.kernel.contents.length) :
        (if 0 ≤ q ∧ q ≤ d.device.size then (d.device.move file q, (⟨q, []⟩ : Reply))
          else (d.device, ⟨-einval, []⟩)) = (d'.device, reply) := by
      rw [vfsSetpos_eq] at seek
      split at seek
      · rename_i inside
        rw [Loaded.step_llseek seek] at step
        cases step
        exact if_pos inside
      · rename_i outside
        rw [Loaded.step_llseek seek, Function.update_eq_self] at step
        cases step
        exact if_neg outside
    have free : aesdLlseek d.kernel (d.fPos file) off whence false =
        fixedSizeLlseek (d.fPos file) off whence d.kernel.contents.length := by
      rw [aesdLlseek, if_neg Bool.false_ne_true, h.toLoffT_size]
    rw [Device.llseek, if_neg Bool.false_ne_true]
    by_cases start : whence = seekSet
    · subst start
      rw [if_neg (fun both => absurd both.1 (by decide))]
      exact set off free
    by_cases here : whence = seekCur
    · subst here
      by_cases stays : off = 0
      · subst stays
        rw [if_pos ⟨rfl, rfl⟩]
        rw [Loaded.step_llseek free, Function.update_eq_self] at step
        cases step
        rfl
      · rw [if_neg (fun both => stays both.2)]
        refine set (d.fPos file + off) (free.trans ?_)
        rw [fixedSizeLlseek, if_neg (by decide), if_pos rfl, if_neg stays]
        exact vfsSetpos_toLoffT (by omega) (by omega) (by omega)
    rw [if_neg (fun both => here both.1)]
    by_cases stop : whence = seekEnd
    · subst stop
      refine set (d.device.size + off) (free.trans ?_)
      rw [fixedSizeLlseek, if_neg (by decide), if_neg (by decide), if_pos rfl, Int.add_comm]
      exact vfsSetpos_toLoffT (by omega) (by omega) (by omega)
    · have refused : fixedSizeLlseek (d.fPos file) off whence d.kernel.contents.length =
          (-einval, d.fPos file) := by
        rw [fixedSizeLlseek, if_neg start, if_neg here, if_neg stop]
      rw [Loaded.step_llseek (free.trans refused), Function.update_eq_self] at step
      cases step
      simp only [Device.asked, if_neg start, if_neg here, if_neg stop]

theorem Loaded.device_ioctl {file : Nat} {cmd : UInt32} {arg : AesdSeekto} {env : IoctlEnv}
    (step : d.step (.ioctl file cmd arg env) = .ok (d', reply)) :
    d.device.ioctl file cmd arg env = (d'.device, reply) := by
  have stays {retval : Int} (seek : aesdIoctl d.kernel (d.fPos file) cmd arg env =
      (retval, d.fPos file)) : (d.device, (⟨retval, []⟩ : Reply)) = (d'.device, reply) := by
    rw [Loaded.step_ioctl seek, Function.update_eq_self] at step
    cases step
    rfl
  unfold Device.ioctl
  by_cases seeks : cmd = aesdcharIocseekto
  swap
  · rw [if_pos seeks]
    exact stays (by rw [aesdIoctl, if_neg seeks])
  rw [if_neg (not_not.mpr seeks)]
  by_cases copied : env.uncopied ≠ 0
  · rw [if_pos copied]
    exact stays (by rw [aesdIoctl, if_pos seeks, if_pos copied])
  rw [if_neg copied]
  have asked : aesdIoctl d.kernel (d.fPos file) cmd arg env = aesdAdjustFileOffset d.kernel
      (d.fPos file) arg.writeCmd arg.writeCmdOffset env.interrupted := by
    rw [aesdIoctl, if_pos seeks, if_neg copied]
  by_cases unknown : 10 ≤ arg.writeCmd.toNat
  · rw [if_pos unknown]
    exact stays (by rw [asked, aesdAdjustFileOffset, if_pos unknown])
  rw [if_neg unknown]
  cases lock : env.interrupted with
  | true =>
    rw [if_pos rfl]
    exact stays (by rw [asked, aesdAdjustFileOffset, if_neg unknown, lock, if_pos rfl])
  | false =>
    rw [if_neg Bool.false_ne_true]
    rw [lock, aesdAdjustFileOffset_target h] at asked
    show (match seekTarget d.kernel.stored arg with
      | some q => (d.device.move file q, (⟨0, []⟩ : Reply))
      | none => (d.device, ⟨-einval, []⟩)) = _
    cases target : seekTarget d.kernel.stored arg with
    | none =>
      rw [target] at asked
      exact stays asked
    | some q =>
      rw [target] at asked
      rw [Loaded.step_ioctl asked] at step
      cases step
      rfl

/-- An operation that goes through does what the device does. -/
theorem Loaded.step_device (reach : d.device.InReach) (typed : op.Typed)
    (step : d.step op = .ok (d', reply)) : d.device.step (d.memory op) op = (d'.device, reply) := by
  cases op with
  | openFile file =>
    cases step
    rfl
  | release file =>
    cases step
    rfl
  | read file count env => exact Loaded.device_read h reach step
  | write file buf env => exact Loaded.device_write h step
  | llseek file off whence interrupted => exact Loaded.device_llseek h reach typed step
  | ioctl file cmd arg env => exact Loaded.device_ioctl h step

end Refines

theorem Device.InReach.move {d : Device} (reach : d.InReach) (file : Nat) {fPos : Int}
    (low : -1 ≤ fPos) (high : fPos ≤ 10 * 2 ^ 31) : (d.move file fPos).InReach := by
  intro other
  show -1 ≤ Function.update d.fPos file fPos other ∧
    Function.update d.fPos file fPos other ≤ 10 * 2 ^ 31
  rw [Function.update_apply]
  split
  · exact ⟨low, high⟩
  · exact reach other

theorem Device.InReach.step {d d' : Device} {memory : Bool} (reach : d.InReach)
    (step : d.step memory op = (d', reply)) (before : d.size ≤ 10 * 2 ^ 31)
    (after : d'.size ≤ 10 * 2 ^ 31) : d'.InReach := by
  cases op with
  | openFile file =>
    cases step
    exact reach.move file (by omega) (by omega)
  | release file =>
    cases step
    exact reach
  | read file count env =>
    simp only [Device.step, Device.read] at step
    obtain ⟨low, high⟩ := reach file
    repeat' split at step
    all_goals obtain ⟨rfl, -⟩ := Prod.mk.inj step
    · exact reach
    · exact reach
    · exact reach
    · rename_i more _
      have taken : ((d.ahead file).take count).length ≤ (d.ahead file).length := by simp
      have room := Device.ahead_le more
      exact reach.move file (by omega) (by omega)
  | write file buf env =>
    simp only [Device.step, Device.write] at step
    repeat' split at step
    all_goals obtain ⟨rfl, -⟩ := Prod.mk.inj step
    · exact reach
    · exact reach
    · exact reach
    · replace after : (appended d.lines d.unfinished buf.bytes env.stray).1.flatten.length ≤
          10 * 2 ^ 31 := after
      exact reach.move file (by omega) (by omega)
  | llseek file off whence interrupted =>
    simp only [Device.step, Device.llseek] at step
    repeat' split at step
    all_goals obtain ⟨rfl, -⟩ := Prod.mk.inj step
    all_goals first
      | exact reach
      | exact reach.move file (by omega) (by omega)
  | ioctl file cmd arg env =>
    simp only [Device.step, Device.ioctl] at step
    repeat' split at step
    all_goals obtain ⟨rfl, -⟩ := Prod.mk.inj step
    all_goals first
      | exact reach
      | skip
    rename_i target
    have inside := seekTarget_le target
    rw [Device.size] at before
    exact reach.move file (by omega) (by omega)

/-- The same operation, with another answer of `kmalloc`. -/
def Op.withAllocation (allocation : Option Allocation) : Op → Op
  | .write file buf env => .write file buf { env with allocation }
  | op => op

theorem exists_fresh (heap : KHeap) : ∃ p, p ∉ heap := by
  obtain ⟨p, fresh⟩ := Infinite.exists_notMem_finset heap.keys.toFinset
  exact ⟨p, fun live => fresh (List.mem_toFinset.mpr live)⟩

/-- Whatever the memory answers, `kmalloc` can make the driver answer so. -/
theorem Loaded.exists_allocation (d : Loaded) (memory : Bool) (op : Op) :
    ∃ allocation, d.device.step (d.memory (op.withAllocation allocation))
      (op.withAllocation allocation) = d.device.step memory op := by
  cases op with
  | write file buf env =>
    cases memory with
    | false => exact ⟨none, rfl⟩
    | true =>
      obtain ⟨p, fresh⟩ := exists_fresh d.kernel.heap
      refine ⟨some ⟨p, fun _ => 0⟩, ?_⟩
      by_cases fits : d.kernel.pending.length + buf.bytes.length + 1 ≤ kmallocMaxSize
      · have granted : d.memory (.write file buf { env with
            allocation := some ⟨p, fun _ => 0⟩ }) = true := by
          simp [Loaded.memory, kmalloc, fits, Heap.alloc, fresh]
        rw [Op.withAllocation, granted]
        rfl
      · have long : kmallocMaxSize < d.device.unfinished.length + buf.bytes.length + 1 :=
          Nat.lt_of_not_le fits
        simp only [Op.withAllocation, Device.step, Device.write, long, or_true, if_true]
  | openFile | release | read | llseek | ioctl => exact ⟨none, rfl⟩

/-- The state of a loaded module in which the device is what its users see. -/
structure Loaded.Serves (d : Loaded) : Prop where
  own : d.Owned
  reach : d.device.InReach

theorem Loaded.Serves.step (serves : d.Serves) (typed : op.Typed)
    (step : d.step op = .ok (d', reply)) :
    d.device.step (d.memory op) op = (d'.device, reply) ∧ d'.Serves := by
  obtain ⟨base, ring, wip, frame, h⟩ := serves.own
  have refines := Loaded.step_device h serves.reach typed step
  have own := serves.own.step step
  exact ⟨refines, own, serves.reach.step refines serves.own.length_contents own.length_contents⟩

theorem Loaded.Serves.simulate (serves : d.Serves) (typed : op.Typed) {dev : Device}
    (step : Device.Step d.device (op, reply) dev) :
    ∃ allocation d', d.step (op.withAllocation allocation) = .ok (d', reply) ∧ d'.device = dev ∧
      d'.Serves := by
  obtain ⟨memory, step⟩ := step
  obtain ⟨allocation, same⟩ := d.exists_allocation memory op
  obtain ⟨base, ring, wip, frame, h⟩ := serves.own
  obtain ⟨d', reply', done, -⟩ := Loaded.step_total h (op.withAllocation allocation)
  have typed' : (op.withAllocation allocation).Typed := by cases op <;> exact typed
  obtain ⟨refines, serves'⟩ := serves.step typed' done
  rw [same, step] at refines
  obtain ⟨rfl, rfl⟩ := Prod.mk.inj refines
  exact ⟨allocation, d', done, rfl, serves'⟩

theorem Loaded.serves_start {heap : KHeap} {env : InitEnv}
    (init : aesdInitModule heap env = (0, kernel)) :
    (Loaded.start kernel).Serves ∧ (Loaded.start kernel).device = .empty := by
  obtain ⟨base, holds⟩ := aesdInitModule_holds init
  refine ⟨⟨⟨base, [], none, heap, holds⟩, fun file => by simp [Loaded.device, Loaded.start]⟩,
    ?_⟩
  rw [Loaded.device, Loaded.start, holds.stored_eq, holds.pending_eq]
  rfl

/-- The same call up to the block that `kmalloc` found, with the same reply. -/
def SameCall (call call' : Op × Reply) : Prop :=
  call'.2 = call.2 ∧ ∃ allocation, call'.1 = call.1.withAllocation allocation

/-- The loaded module and the device do the same. What the module replies to any calls, the device
replies, and is left with the module's lines and positions; and whatever the device may reply,
refusing memory where it likes, the module replies when `kmalloc` answers so. -/
theorem device_refinement {heap : KHeap} {env : InitEnv} {calls : List (Op × Reply)}
    (init : aesdInitModule heap env = (0, kernel)) (typed : ∀ call ∈ calls, call.1.Typed) :
    (∀ d, Run Loaded.Step (.start kernel) calls d → Run Device.Step .empty calls d.device) ∧
    (∀ dev, Run Device.Step .empty calls dev → ∃ calls' d, List.Forall₂ SameCall calls calls' ∧
      Run Loaded.Step (.start kernel) calls' d ∧ d.device = dev) := by
  obtain ⟨serves, empty⟩ := Loaded.serves_start init
  rw [← empty]
  generalize Loaded.start kernel = s at serves
  refine ⟨fun d run => ?_, fun dev run => ?_⟩
  · induction run with
    | nil => exact .nil _
    | @cons s m d call calls first _ ih =>
      obtain ⟨now, later⟩ := List.forall_mem_cons.mp typed
      obtain ⟨refines, serves'⟩ := serves.step now first
      exact .cons ⟨_, refines⟩ (ih later serves')
  · generalize start : s.device = a at run
    induction run generalizing s with
    | nil => exact ⟨[], s, .nil, .nil s, start⟩
    | @cons a b dev call calls first _ ih =>
      obtain ⟨now, later⟩ := List.forall_mem_cons.mp typed
      subst start
      obtain ⟨allocation, m, done, next, serves'⟩ := serves.simulate now first
      obtain ⟨calls', d, same, rest, stop⟩ := ih later m serves' next
      exact ⟨(call.1.withAllocation allocation, call.2) :: calls', d,
        .cons ⟨rfl, allocation, rfl⟩ same, .cons done rest, stop⟩

/-- A line is written, and a second file opened and given a command that is not known. -/
theorem device_refinement_line : ∃ dev, Run Device.Step .empty
    [(.write 0 ⟨[97, 98, 99, newline], by decide⟩ { allocation := some ⟨2, fun _ => 0⟩ }, ⟨4, []⟩),
      (.openFile 1, ⟨0, []⟩), (.ioctl 1 0 ⟨0, 0⟩ {}, ⟨-enotty, []⟩)] dev := by
  let loaded := aesdInitModule ∅ ⟨0, some ⟨1, fun _ => 0⟩, 0⟩
  let calls : List (Op × Reply) :=
    [(.write 0 ⟨[97, 98, 99, newline], by decide⟩ { allocation := some ⟨2, fun _ => 0⟩ }, ⟨4, []⟩),
      (.openFile 1, ⟨0, []⟩), (.ioctl 1 0 ⟨0, 0⟩ {}, ⟨-enotty, []⟩)]
  have typed : ∀ call ∈ calls, call.1.Typed := by simp [calls, Op.Typed]
  have run : Run Loaded.Step (.start loaded.2) calls _ :=
    .cons rfl (.cons rfl (.cons rfl (.nil _)))
  exact ⟨_, (device_refinement (rfl : loaded = (0, _)) typed).1 _ run⟩

end Aesd.Driver
