import Aesd.Server.Releases
import Aesd.Server.TimerHandler

/-! The failures that `conn_handler` reports. It forgets that it did not get the lock, where
`timer_handler` gives up. -/

namespace Aesd.Server

open Aesd.Driver ProofKit

/-- The failure of `putchars`, which the thread looks at once it has given the lock back. -/
def Pc.pending : Pc → Bool
  | .unlock writeStatus => writeStatus < 0
  | _ => false

namespace ConnHandler

variable {useAesdCharDevice : Bool} {h h' : ConnHandler} {event : Event} {events : List Event}

/-- The packet is not taken for a seek command. -/
def Stored (useAesdCharDevice : Bool) (packet : List UInt8) : Prop :=
  (useAesdCharDevice && seektoPrefix.isPrefixOf packet) = false

/-- The thread goes from the lock into `putchars`. -/
def CallsPutchars (h h' : ConnHandler) : Prop := h.pc = .lock ∧ h'.pc = writePc (.start h.packet)

/-- `putchars` is only called when the lock was obtained. -/
def PutcharsLocked (useAesdCharDevice : Bool) (events : List Event) : Prop :=
  ∀ before event after h h', events = before ++ event :: after →
    Run (Step useAesdCharDevice) start before h → Step useAesdCharDevice h event h' →
    CallsPutchars h h' → event = .lock 0

/-- A call that reported an error, other than that of `pthread_mutex_lock`. -/
def noted (event : Event) : Bool := event.failed && !event.isLock

theorem pending_writePc (chars : Putchars) : (writePc chars).pending = false :=
  apply_writePc Pc.pending rfl (fun _ => rfl) chars

theorem pending_sendPc (chars : Putchars) : (sendPc chars).pending = false :=
  apply_sendPc Pc.pending rfl (fun _ => rfl) chars

theorem dispatch_stored (stored : Stored useAesdCharDevice h.packet) :
    dispatch useAesdCharDevice h = { h with pc := .lock } := by
  rw [Stored] at stored
  simp [dispatch, stored]

/-- A call that reports an error is noted in `abort`, at once or after the lock is given back. -/
theorem Step.abort (step : Step useAesdCharDevice h event h')
    (stored : ∀ packet, event = .getline (some packet) → Stored useAesdCharDevice packet) :
    (h'.abort || h'.pc.pending) = (h.abort || h.pc.pending || noted event) := by
  cases step_moves step with
  | getline pc packet =>
    rw [dispatch_stored (stored packet rfl), pc]
    simp [Pc.pending, noted, Event.failed]
  | lock pc error =>
    rw [pc, pending_writePc]
    simp [Pc.pending, noted, Event.isLock]
  | write chars pc =>
    rw [pc, pending_writePc]
    simp [Pc.pending, noted, Event.failed]
  | send chars pc =>
    rw [pc, pending_sendPc]
    simp [Pc.pending, noted, Event.failed]
  | unlock writeStatus pc ok => simp [Pc.pending, noted, pc, Event.failed, ok]
  | unlockFailed writeStatus pc error bad =>
    have failed : (decide (writeStatus < 0) || (error != 0)) = true := by
      simpa [or_comm] using bad
    simp only [pc, cleanup, Pc.pending, noted, Event.failed, Event.isLock, Bool.not_false,
      Bool.and_true, Bool.true_or, Bool.or_assoc, failed, Bool.or_true]
  | openFile pc | openFailed pc | getlineFailed pc | ioctl _ pc | ioctlFailed _ pc
  | writeFailed _ pc | lseek pc | lseekFailed pc | readEnd pc
  | read pc | readFailed pc | sendFailed _ pc | free pc | closeFd pc | closeConn pc =>
    simp [Pc.pending, noted, pc, cleanup, Event.failed, Event.isLock]

theorem abort_eq (run : Run (Step useAesdCharDevice) start events h)
    (stored : ∀ packet, .getline (some packet) ∈ events → Stored useAesdCharDevice packet) :
    (h.abort || h.pc.pending) = events.any noted := by
  refine run.history (P := fun events h =>
    (∀ packet, .getline (some packet) ∈ events → Stored useAesdCharDevice packet) →
      (h.abort || h.pc.pending) = events.any noted) (fun _ => rfl) ?_ stored
  intro events event h h' _ ih step stored
  rw [step.abort fun packet eq => stored packet (by simp [eq]),
    ih fun packet mem => stored packet (by simp [mem])]
  simp

theorem noted_eq_failed {event : Event} (locked : ∀ error, event = .lock error → error = 0) :
    noted event = event.failed := by
  cases event with
  | lock error => simp [noted, Event.isLock, Event.failed, locked error rfl]
  | _ => simp [noted, Event.isLock]

/-- The result is that of the calls, as long as the lock is obtained. -/
theorem retval_eq (run : Run (Step useAesdCharDevice) start events h) (exited : h.pc = .exited)
    (stored : ∀ packet, .getline (some packet) ∈ events → Stored useAesdCharDevice packet)
    (locked : ∀ error, .lock error ∈ events → error = 0) :
    h.retval = if events.any Event.failed then -1 else 0 := by
  have abort : h.abort = events.any noted := by
    have kept := abort_eq run stored
    rwa [exited, show Pc.exited.pending = false from rfl, Bool.or_false] at kept
  have same : events.any noted = events.any Event.failed := by
    rw [Bool.eq_iff_iff, List.any_eq_true, List.any_eq_true]
    exact exists_congr fun event => and_congr_right fun mem => by
      rw [noted_eq_failed fun error eq => locked error (eq ▸ mem)]
  rw [retval, abort, same]

theorem putcharsLocked_iff (run : Run (Step useAesdCharDevice) start events h) :
    PutcharsLocked useAesdCharDevice events ↔ ∀ error, .lock error ∈ events → error = 0 := by
  constructor
  · intro guarded error mem
    obtain ⟨before, after, split⟩ := List.append_of_mem mem
    obtain ⟨m, first, rest⟩ := (split ▸ run).split
    cases rest with
    | @cons _ m' _ _ _ step rest =>
      have calls : CallsPutchars m m' := by
        cases step_moves step with
        | lock pc => exact ⟨pc, rfl⟩
      exact Event.lock.inj (guarded before _ after m m' split first step calls)
  · intro locked before event after m m' split first step calls
    have pc := calls.1
    cases step_moves step with
    | lock _ error => rw [locked error (by simp [split])]
    | _ => simp_all

end ConnHandler

namespace TimerHandler

/-- The thread goes from the lock into `putchars`. -/
def CallsPutchars (h h' : TimerHandler) : Prop := h.pc = .lock ∧ h'.pc = writePc (.start h.nowStr)

theorem putchars_locked {h h' : TimerHandler} {event : TimerEvent} (step : h.step event = some h')
    (calls : CallsPutchars h h') : event = .lock 0 := by
  obtain ⟨pc, pc'⟩ := calls
  cases event with
  | lock error =>
    by_cases ok : error = 0
    · rw [ok]
    · simp only [TimerHandler.step, pc, ok, if_false, Option.some.injEq] at step
      rw [← step, cleanup, writePc] at pc'
      split at pc' <;> contradiction
  | _ => simp [TimerHandler.step, pc] at step

end TimerHandler

/-- `conn_handler` calls `putchars` under the lock only, and reports a failure exactly when one of
its calls does, if and only if `pthread_mutex_lock` does not fail. `timer_handler` calls `putchars`
under the lock only, in any case. -/
theorem writes_locked_iff {useAesdCharDevice : Bool} {events : List Event} {h : ConnHandler}
    (run : Run (ConnHandler.Step useAesdCharDevice) .start events h) (exited : h.pc = .exited)
    (stored : ∀ packet, .getline (some packet) ∈ events →
      ConnHandler.Stored useAesdCharDevice packet) :
    (ConnHandler.PutcharsLocked useAesdCharDevice events ∧
        h.retval = (if events.any Event.failed then -1 else 0) ↔
      ∀ error, .lock error ∈ events → error = 0) ∧
    ∀ t event t', TimerHandler.step t event = some t' → TimerHandler.CallsPutchars t t' →
      event = .lock 0 := by
  rw [ConnHandler.putcharsLocked_iff run]
  exact ⟨and_iff_left_of_imp (ConnHandler.retval_eq run exited stored),
    fun _ _ _ => TimerHandler.putchars_locked⟩

/-- The calls for the line "a", when nothing was stored before and `pthread_mutex_lock` returns
`error`. -/
def lineEvents (error : Nat) : List Event :=
  [.openFile true, .getline (some [97, newline]), .lock error, .write (some 2), .unlock 0,
    .lseek true, .read (some [97, newline]), .send (some 2), .read (some []), .free, .closeFd true,
    .closeConn true]

theorem lineEvents_run (error : Nat) :
    Run (ConnHandler.Step false) .start (lineEvents error) ⟨.exited, [97, newline], false⟩ := by
  have executed : execute (ConnHandler.step false) (fun _ => true) .start (lineEvents error) =
      some ⟨.exited, [97, newline], false⟩ := rfl
  exact Run.of_execute (fun _ _ _ _ step => step) executed

theorem lineEvents_stored (error : Nat) (packet : List UInt8)
    (_ : .getline (some packet) ∈ lineEvents error) : ConnHandler.Stored false packet :=
  Bool.false_and _

theorem writes_locked_line : ConnHandler.PutcharsLocked false (lineEvents 0) ∧
    ConnHandler.retval ⟨.exited, [97, newline], false⟩ =
      if (lineEvents 0).any Event.failed then -1 else 0 :=
  (writes_locked_iff (lineEvents_run 0) rfl (lineEvents_stored 0)).1.mpr (by simp [lineEvents])

/-- `pthread_mutex_lock` returns `EINVAL`: the line is written all the same, and the result is 0. -/
theorem writes_unlocked : ¬∀ (events : List Event) (h : ConnHandler),
    Run (ConnHandler.Step false) .start events h → h.pc = .exited →
    (∀ packet, .getline (some packet) ∈ events → ConnHandler.Stored false packet) →
    ConnHandler.PutcharsLocked false events ∧
      h.retval = if events.any Event.failed then -1 else 0 := by
  intro reports
  have reported := (reports _ _ (lineEvents_run 22) rfl (lineEvents_stored 22)).2
  revert reported
  decide

end Aesd.Server
