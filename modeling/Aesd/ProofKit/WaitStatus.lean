import Mathlib.Logic.Basic

/-! How `wait` reports the end of a process: by a value of type `int` whose lower 16 bits hold the
exit code or the signal that killed the process. -/

namespace ProofKit

/-- The number of a signal. 0 and 127 have other meanings in a wait status. -/
structure Signal where
  number : BitVec 7
  ne_zero : number ≠ 0
  ne_stopped : number ≠ 127
  deriving DecidableEq, Repr

/-- How a process ends. -/
inductive Termination
  | exited (code : BitVec 8)
  | killed (signal : Signal) (coreDumped : Bool)
  deriving DecidableEq, Repr

namespace Termination

/-- The wait status. -/
def status : Termination → BitVec 32
  | exited code => code.setWidth 32 <<< 8
  | killed signal coreDumped => signal.number.setWidth 32 ||| (if coreDumped then 0x80 else 0)

def IsKilled : Termination → Prop
  | exited _ => False
  | killed _ _ => True

instance : DecidablePred IsKilled
  | exited _ => isFalse id
  | killed _ _ => isTrue trivial

end Termination

/-- `WEXITSTATUS`, the exit code of a process that exited. -/
def wexitstatus (status : BitVec 32) : BitVec 32 := (status &&& 0xff00) >>> 8

theorem wexitstatus_exited (code : BitVec 8) :
    wexitstatus (Termination.exited code).status = code.setWidth 32 := by
  unfold wexitstatus Termination.status
  revert code
  decide

/-- The exit code of a process that was killed is not defined, and reads as 0. -/
theorem wexitstatus_killed (signal : Signal) (coreDumped : Bool) :
    wexitstatus (Termination.killed signal coreDumped).status = 0 := by
  unfold wexitstatus Termination.status
  obtain ⟨number, -, -⟩ := signal
  revert number coreDumped
  decide

/-- A process whose exit code reads as 0 exited with 0 or was killed. -/
theorem wexitstatus_eq_zero {termination : Termination} :
    wexitstatus termination.status = 0 ↔ termination = .exited 0 ∨ termination.IsKilled := by
  cases termination with
  | exited code =>
    rw [wexitstatus_exited]
    simp only [Termination.exited.injEq, Termination.IsKilled, or_false]
    revert code
    decide
  | killed signal coreDumped =>
    exact iff_of_true (wexitstatus_killed signal coreDumped) (.inr trivial)

/-- No process ends with the status -1, which stands for a failure. -/
theorem Termination.status_ne (termination : Termination) : termination.status ≠ -1 := by
  cases termination with
  | exited code =>
    unfold status
    revert code
    decide
  | killed signal coreDumped =>
    unfold status
    obtain ⟨number, -, -⟩ := signal
    revert number coreDumped
    decide

end ProofKit
