import Aesd.Driver.Runs
import Aesd.Driver.Seek

/-! Where a write leaves the file position: one byte in front of the end of the stored data, and at
-1 when there is none. Every other operation leaves it inside the contents. -/

namespace Aesd.Driver

open Aesd.CInt ProofKit

variable {d d' : Loaded} {base : Nat × List UInt8} {ring : List Held} {wip : Option Held}
  {frame : KHeap} {op : Op} {reply : Reply}

theorem Holds.endOfWrite_eq {kernel : Kernel} (h : Holds kernel base ring wip frame) :
    endOfWrite kernel = kernel.contents.length - 1 := by
  have bytes := h.length_contents
  unfold endOfWrite toLoffT toSizeT
  omega

/-- A write that returned its count. -/
def writesAll : Op × Reply → Prop
  | (.write _ buf _, reply) => reply.retval = buf.bytes.length
  | _ => False

/-- The positions that a file can be left at. -/
def InRange (fPos : Int) : Prop := 0 ≤ fPos ∧ fPos ≤ 10 * 2 ^ 31

theorem aesdRead_inRange (h : Holds d.kernel base ring wip frame) {fPos : Int}
    (ok : InRange fPos) {count : Nat} {env : ReadEnv} {result : ReadResult}
    (read : aesdRead d.kernel count fPos env = .ok result) : InRange result.fPos := by
  obtain ⟨interrupted, uncopied⟩ := env
  cases interrupted with
  | true =>
    cases read
    exact ok
  | false =>
    have bytes := h.length_contents
    obtain ⟨low, high⟩ := ok
    have same : (toSizeT fPos : Int) = fPos := by
      unfold toSizeT
      omega
    obtain ⟨n, le, -, fits, result'⟩ := aesdRead_spec h count fPos uncopied
    obtain rfl := Except.ok.inj (result'.symm.trans read)
    split
    · exact ⟨low, high⟩
    · split
      · simp only [InRange]
        rw [toLoffT_of_range (by omega) (by omega)]
        omega
      · exact ⟨low, high⟩

/-- As long as no write leaves the ring empty, every position stays inside the range. -/
theorem Loaded.step_inRange (h : Holds d.kernel base ring wip frame)
    (ok : ∀ file, InRange (d.fPos file)) (step : Loaded.Step d (op, reply) d')
    (some_ : writesAll (op, reply) → d'.kernel.contents ≠ []) :
    ∀ file, InRange (d'.fPos file) := by
  have moved (file : Nat) {fPos : Int} (there : InRange fPos) :
      ∀ other, InRange (Function.update d.fPos file fPos other) := by
    intro other
    rw [Function.update_apply]
    split
    · exact there
    · exact ok other
  have bytes := h.length_contents
  have inside {fPos fPos' : Int} (old : InRange fPos')
      (or : fPos = fPos' ∨ 0 ≤ fPos ∧ fPos ≤ d.kernel.contents.length) : InRange fPos := by
    rcases or with rfl | ⟨low, high⟩
    · exact old
    · exact ⟨low, by omega⟩
  cases Loaded.step_cases h step with
  | @written file _ _ _ _ _ _ fPos _ holds =>
    rw [fPos, holds.endOfWrite_eq]
    have left := List.length_pos_iff.mpr (some_ rfl)
    have bytes' := holds.length_contents
    exact moved file ⟨by omega, by omega⟩
  | failed _ _ _ fPos => rwa [fPos]
  | other notWrite =>
    cases op with
    | write file buf env => exact absurd rfl (notWrite _ _ _)
    | openFile file =>
      obtain ⟨rfl, rfl⟩ := Prod.mk.inj (Except.ok.inj step)
      exact moved file ⟨by omega, by omega⟩
    | release file =>
      obtain ⟨rfl, rfl⟩ := Prod.mk.inj (Except.ok.inj step)
      exact ok
    | read file count env =>
      obtain ⟨result, read⟩ := aesdRead_total h count (d.fPos file) env
      simp only [Loaded.Step, Loaded.step, read, ok_bind] at step
      obtain ⟨rfl, rfl⟩ := Prod.mk.inj (Except.ok.inj step)
      exact moved file (aesdRead_inRange h (ok file) read)
    | llseek file off whence interrupted =>
      obtain ⟨rfl, rfl⟩ := Prod.mk.inj (Except.ok.inj step)
      exact moved file (inside (ok file) (aesdLlseek_fPos h _ off whence interrupted))
    | ioctl file cmd arg env =>
      obtain ⟨rfl, rfl⟩ := Prod.mk.inj (Except.ok.inj step)
      exact moved file (inside (ok file) (aesdIoctl_fPos h _ cmd arg env))

/-- No write that returns its count leaves the file position at the end of the stored data: it
leaves it one byte in front of the end. That position is not negative, and a read right after the
write gives bytes that were already stored, exactly when anything is stored. In a run in which no
such write leaves the ring empty no position is negative. -/
theorem write_position {heap : KHeap} {env : InitEnv} {kernel : Kernel}
    {calls : List (Op × Reply)} (init : aesdInitModule heap env = (0, kernel))
    (run : Run Loaded.Step (.start kernel) calls d) :
    (∀ file buf env d', Loaded.Step d (.write file buf env, ⟨buf.bytes.length, []⟩) d' →
      d'.fPos file ≠ aesdCircularBufferSize d'.kernel.dev.buffer ∧
      d'.fPos file = (aesdCircularBufferSize d'.kernel.dev.buffer : Int) - 1 ∧
      (0 ≤ d'.fPos file ↔ aesdCircularBufferSize d'.kernel.dev.buffer ≠ 0) ∧
      ∀ count, 0 < count → ∃ result, aesdRead d'.kernel count (d'.fPos file) {} = .ok result ∧
        (result.retval = 0 ↔ aesdCircularBufferSize d'.kernel.dev.buffer = 0)) ∧
    ((∀ before call after m, calls = before ++ call :: after → writesAll call →
      Run Loaded.Step (.start kernel) (before ++ [call]) m → m.kernel.contents ≠ []) →
      ∀ file, 0 ≤ d.fPos file) := by
  refine ⟨fun file buf env d' step => ?_, fun some_ file => ?_⟩
  · obtain ⟨base, ring, wip, frame, h⟩ := Loaded.Reachable.holds ⟨heap, _, kernel, calls, init, run⟩
    cases Loaded.step_cases h step with
    | failed _ negative => omega
    | other notWrite => exact absurd rfl (notWrite _ _ _)
    | written _ _ fPos _ holds =>
      have here : d'.fPos file = (d'.kernel.contents.length : Int) - 1 := by
        rw [fPos, Function.update_self, holds.endOfWrite_eq]
      have bytes := holds.length_contents
      rw [holds.size_eq]
      refine ⟨by omega, here, by omega, fun count asked => ?_⟩
      obtain ⟨n, -, pos, -, result⟩ := aesdRead_spec holds count (d'.fPos file) 0
      refine ⟨_, result, ?_⟩
      have place : toSizeT (d'.fPos file) < d'.kernel.contents.length ↔
          d'.kernel.contents.length ≠ 0 := by
        rw [here]
        unfold toSizeT
        omega
      split
      · rename_i past
        simp only [true_iff]
        exact not_not.mp (mt place.mpr (by omega))
      · rename_i more
        have := pos asked (by omega)
        rw [if_pos rfl]
        simp only
        omega
  · suffices ∀ file, InRange (d.fPos file) from (this file).1
    refine run.history (P := fun calls d =>
      (∀ before call after m, calls = before ++ call :: after → writesAll call →
        Run Loaded.Step (.start kernel) (before ++ [call]) m → m.kernel.contents ≠ []) →
        ∀ file, InRange (d.fPos file)) (fun _ _ => ⟨by simp [Loaded.start], by simp [Loaded.start]⟩)
      ?_ some_
    rintro earlier ⟨op, reply⟩ t u reached ih step some_
    obtain ⟨base, ring, wip, frame, h⟩ :=
      Loaded.Reachable.holds ⟨heap, env, kernel, earlier, init, reached⟩
    refine Loaded.step_inRange h (ih ?_) step fun all =>
      some_ earlier _ [] u rfl all (reached.append (.single step))
    intro before call after m split
    exact some_ before call (after ++ [(op, reply)]) m (by simp [split])

/-- The first line written to a fresh device. -/
theorem write_position_first_line : ∃ d' : Loaded,
    d'.fPos 0 ≠ aesdCircularBufferSize d'.kernel.dev.buffer ∧
    d'.fPos 0 = (aesdCircularBufferSize d'.kernel.dev.buffer : Int) - 1 :=
  have init : aesdInitModule ∅ ⟨0, some ⟨1, fun _ => 0⟩, 0⟩ = (0, _) := rfl
  have written := (write_position init (.nil _)).1 0 ⟨[97, newline], by decide⟩
    { allocation := some ⟨2, fun _ => 0⟩ } _ rfl
  ⟨_, written.1, written.2.1⟩

/-- On a fresh device, a first byte without a newline leaves position -1 where the stored data has
size 0. A line leaves position 1 where the stored data has size 2, and the read that follows gives
its newline again. -/
theorem write_position_not_end : ∃ d d' d'' : Loaded, d.Reachable ∧
    Loaded.Step d (.write 0 ⟨[97], by decide⟩ { allocation := some ⟨2, fun _ => 0⟩ }, ⟨1, []⟩) d' ∧
    aesdCircularBufferSize d'.kernel.dev.buffer = 0 ∧ d'.fPos 0 = -1 ∧
    Loaded.Step d (.write 0 ⟨[97, newline], by decide⟩ { allocation := some ⟨2, fun _ => 0⟩ },
      ⟨2, []⟩) d'' ∧
    aesdCircularBufferSize d''.kernel.dev.buffer = 2 ∧ d''.fPos 0 = 1 ∧
    aesdRead d''.kernel 4 (d''.fPos 0) {} = .ok ⟨1, [newline], 2⟩ := by
  refine ⟨_, _, _, ⟨∅, ⟨0, some ⟨1, fun _ => 0⟩, 0⟩, _, [], rfl, .nil _⟩, rfl, rfl, ?_, rfl, rfl,
    ?_, ?_⟩
  all_goals decide +kernel

end Aesd.Driver
