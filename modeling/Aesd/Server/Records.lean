import Aesd.ProofKit.LockedLog
import Aesd.Server.FileServer

/-! Records never intermix in the file. Seen from the file, the threads are writers of a log under a
lock: each call of `putchars`, in as many parts as it takes, appends one record. -/

namespace Aesd.Server

open ProofKit

/-- Where a thread stands with its record. -/
def ConnHandler.stage (h : ConnHandler) : Stage UInt8 :=
  match h.pc with
  | .write chars => .writing h.packet chars.done
  | .unlock _ => .written
  | _ => .outside

/-- Where the timer thread stands with its record. -/
def TimerHandler.stage (h : TimerHandler) : Stage UInt8 :=
  match h.pc with
  | .write chars => .writing h.nowStr chars.done
  | .unlock _ => .written
  | _ => .outside

/-- The value that `putchars` returned, as long as the mutex was not given back. -/
def ConnHandler.writeStatus (h : ConnHandler) : Option Int :=
  match h.pc with
  | .unlock writeStatus => some writeStatus
  | _ => none

/-- The value that `putchars` returned, as long as the mutex was not given back. -/
def TimerHandler.writeStatus (h : TimerHandler) : Option Int :=
  match h.pc with
  | .unlock writeStatus => some writeStatus
  | _ => none

namespace FileServer

def stage (s : FileServer) : Thread → Stage UInt8
  | .conn i => (s.conn i).stage
  | .timer => s.timer.stage

def writeStatus (s : FileServer) : Thread → Option Int
  | .conn i => (s.conn i).writeStatus
  | .timer => s.timer.writeStatus

/-- What a thread passes to `putchars`. -/
def record (s : FileServer) : Thread → List UInt8
  | .conn i => (s.conn i).packet
  | .timer => s.timer.nowStr

end FileServer

theorem FileServer.record_of_stage {s : FileServer} {t : Thread} {record done : List UInt8}
    (stage : s.stage t = .writing record done) : record = s.record t := by
  cases t with
  | conn i =>
    simp only [FileServer.stage, ConnHandler.stage] at stage
    split at stage
    · exact (Stage.writing.inj stage).1.symm
    · contradiction
    · contradiction
  | timer =>
    simp only [FileServer.stage, TimerHandler.stage] at stage
    split at stage
    · exact (Stage.writing.inj stage).1.symm
    · contradiction
    · contradiction

/-- A call of `putchars` that returned. -/
structure Call where
  thread : Thread
  record : List UInt8
  returned : Int

/-- A run that notes down who acquired the mutex and which calls of `putchars` returned. -/
structure Ledger where
  server : FileServer
  acquired : List Thread
  calls : List Call

def Label.acquires : Label → List Thread
  | .conn i (.lock 0) => [.conn i]
  | .timer (.lock 0) => [.timer]
  | _ => []

/-- The call of `putchars` that has just returned to thread `t`. -/
def FileServer.returns (s : FileServer) (t : Thread) : List Call :=
  match s.writeStatus t with
  | some returned => [⟨t, s.record t, returned⟩]
  | none => []

def Ledger.Step (l : Ledger) (label : Label) (l' : Ledger) : Prop :=
  l.server.Step label l'.server ∧ l'.acquired = l.acquired ++ label.acquires ∧
    l'.calls = l.calls ++ l'.server.returns label.thread

theorem Ledger.step_noted {l : Ledger} {label : Label} {s : FileServer}
    (step : l.server.Step label s) :
    Ledger.Step l label
      ⟨s, l.acquired ++ label.acquires, l.calls ++ s.returns label.thread⟩ :=
  ⟨step, rfl, rfl⟩

/-- The log under a lock that the file is. -/
def Ledger.view (l : Ledger) : LockedLog Thread UInt8 where
  log := l.server.file
  owner := l.server.mutex
  stage := l.server.stage
  entered := l.acquired
  records := l.calls.map fun call => (call.thread, call.record, decide (call.returned = 0))

/-! What holds of a thread at every moment, whatever the calls return. -/

/-- The loop of `putchars` is in the middle of the packet. -/
def ConnHandler.Writing (h : ConnHandler) : Prop :=
  ∀ chars, h.pc = .write chars → chars.buffer = h.packet ∧ chars.left ≠ []

/-- The loop of `putchars` is in the middle of the timestamp. -/
def TimerHandler.Writing (h : TimerHandler) : Prop :=
  ∀ chars, h.pc = .write chars → chars.buffer = h.nowStr ∧ chars.left ≠ []

theorem ConnHandler.writing_of_ne {h : ConnHandler} (ne : ∀ chars, h.pc ≠ .write chars) :
    h.Writing := fun chars pc => absurd pc (ne chars)

theorem ConnHandler.writing_writePc {h : ConnHandler} {chars : Putchars}
    (buffer : chars.buffer = h.packet) :
    ({ h with pc := writePc chars } : ConnHandler).Writing := by
  intro chars' pc
  simp only [writePc] at pc
  split at pc
  · contradiction
  · rename_i more
    cases pc
    exact ⟨buffer, more⟩

theorem ConnHandler.dispatch_pc_ne (useAesdCharDevice : Bool) (h : ConnHandler) (chars : Putchars) :
    (h.dispatch useAesdCharDevice).pc ≠ .write chars := by
  rcases dispatch_pc useAesdCharDevice h with pc | pc | ⟨seekto, pc⟩ <;> simp [pc]

theorem ConnHandler.Writing.step {h h' : ConnHandler} {useAesdCharDevice : Bool} {event : Event}
    (writing : h.Writing) (step : h.step useAesdCharDevice event = some h') : h'.Writing := by
  cases step_moves step with
  | getline => exact writing_of_ne (dispatch_pc_ne _ _)
  | lock => exact writing_writePc rfl
  | write chars pc => exact writing_writePc (by rw [Putchars.advance_buffer, (writing _ pc).1])
  | send chars => exact writing_of_ne fun _ => by simp only [sendPc]; split <;> simp
  | _ => exact writing_of_ne (by simp [cleanup])

/-- What a call of the timer thread is for the file. -/
inductive TimerHandler.Moves (h : TimerHandler) : TimerEvent → TimerHandler → Prop
  | lock (pc : h.pc = .lock) : Moves h (.lock 0) { h with pc := writePc (.start h.nowStr) }
  | write (chars : Putchars) (pc : h.pc = .write chars) (bytesSent : Nat) :
      Moves h (.write (some bytesSent)) { h with pc := writePc (chars.advance bytesSent) }
  | writeFailed (chars : Putchars) (pc : h.pc = .write chars) :
      Moves h (.write none) { h with pc := .unlock (-1) }
  | unlock (writeStatus : Int) (pc : h.pc = .unlock writeStatus) (error : Nat) (h' : TimerHandler)
      (outside : h'.stage = .outside) (none : h'.writeStatus = none) : Moves h (.unlock error) h'
  | other (event : TimerEvent) (h' : TimerHandler) (before : h.stage = .outside)
      (outside : h'.stage = .outside) (none : h'.writeStatus = none)
      (quiet : (Label.timer event).acquires = [] ∧ ∀ error, event ≠ .unlock error)
      : Moves h event h'

theorem TimerHandler.step_moves {h h' : TimerHandler} {event : TimerEvent}
    (step : h.step event = some h') : Moves h event h' := by
  unfold TimerHandler.step at step
  split at step
  case h_10 pc =>
    split at step
    · rename_i ok
      subst ok
      cases step
      exact .lock pc
    · rename_i error bad
      cases step
      exact .other _ _ (by simp [stage, pc]) rfl rfl (by simp [Label.acquires, bad])
  case h_11 pc =>
    split at step
    · cases step
      exact .write _ pc _
    · contradiction
  case h_12 pc =>
    cases step
    exact .writeFailed _ pc
  case h_13 pc =>
    split at step
    all_goals
      cases step
      exact .unlock _ pc _ _ rfl rfl
  case h_16 => contradiction
  all_goals
    rename_i pc
    repeat' split at step
    all_goals
      cases step
      refine .other _ _ (by simp [stage, pc]) ?_ ?_ ⟨rfl, by simp⟩
      all_goals simp only [stage, writeStatus, cleanup]

theorem TimerHandler.writing_of_outside {h : TimerHandler} (outside : h.stage = .outside) :
    h.Writing := by
  intro chars pc
  simp [stage, pc] at outside

theorem TimerHandler.writing_writePc {h : TimerHandler} {chars : Putchars}
    (buffer : chars.buffer = h.nowStr) :
    ({ h with pc := writePc chars } : TimerHandler).Writing := by
  intro chars' pc
  simp only [writePc] at pc
  split at pc
  · contradiction
  · rename_i more
    cases pc
    exact ⟨buffer, more⟩

theorem TimerHandler.Writing.step {h h' : TimerHandler} {event : TimerEvent}
    (writing : h.Writing) (step : h.step event = some h') : h'.Writing := by
  cases step_moves step with
  | lock => exact writing_writePc rfl
  | write chars pc => exact writing_writePc (by rw [Putchars.advance_buffer, (writing _ pc).1])
  | writeFailed =>
    intro chars pc
    contradiction
  | unlock _ _ _ _ outside => exact writing_of_outside outside
  | other _ _ _ outside => exact writing_of_outside outside

/-! Where the threads stand after the loop test of `putchars`. -/

theorem ConnHandler.stage_writePc (h : ConnHandler) (chars : Putchars)
    (buffer : chars.buffer = h.packet) :
    ({ h with pc := writePc chars } : ConnHandler).stage = .reached h.packet chars.done ∧
      ({ h with pc := writePc chars } : ConnHandler).writeStatus =
        if chars.done = h.packet then some 0 else none := by
  by_cases ended : chars.left = []
  · have done : chars.done = h.packet := by rw [Putchars.done_eq ended, buffer]
    simp [stage, writeStatus, writePc, Stage.reached, ended, done]
  · have more : chars.done ≠ h.packet := by
      rw [← buffer, Ne, chars.done_eq_iff]
      exact ended
    simp [stage, writeStatus, writePc, Stage.reached, ended, more]

theorem TimerHandler.stage_writePc (h : TimerHandler) (chars : Putchars)
    (buffer : chars.buffer = h.nowStr) :
    ({ h with pc := writePc chars } : TimerHandler).stage = .reached h.nowStr chars.done ∧
      ({ h with pc := writePc chars } : TimerHandler).writeStatus =
        if chars.done = h.nowStr then some 0 else none := by
  by_cases ended : chars.left = []
  · have done : chars.done = h.nowStr := by rw [Putchars.done_eq ended, buffer]
    simp [stage, writeStatus, writePc, Stage.reached, ended, done]
  · have more : chars.done ≠ h.nowStr := by
      rw [← buffer, Ne, chars.done_eq_iff]
      exact ended
    simp [stage, writeStatus, writePc, Stage.reached, ended, more]

/-- What one call of thread `t` is for the file and its writers, with the records that it adds. -/
inductive FileServer.Turn (s : FileServer) (t : Thread) : FileServer → List Thread → Prop
  | lock (s' : FileServer) (free : s.mutex = none) (mutex : s'.mutex = some t)
      (file : s'.file = s.file) (record : s'.record t = s.record t)
      (stage : s'.stage = Function.update s.stage t (.reached (s.record t) []))
      (status : s'.writeStatus t = if [] = s.record t then some 0 else none) :
      Turn s t s' [t]
  | write (s' : FileServer) (done part : List UInt8)
      (before : s.stage t = .writing (s.record t) done) (fits : done ++ part <+: s.record t)
      (mutex : s'.mutex = s.mutex) (file : s'.file = s.file ++ part)
      (record : s'.record t = s.record t)
      (stage : s'.stage = Function.update s.stage t (.reached (s.record t) (done ++ part)))
      (status : s'.writeStatus t = if done ++ part = s.record t then some 0 else none) :
      Turn s t s' []
  | writeFailed (s' : FileServer) (done : List UInt8)
      (before : s.stage t = .writing (s.record t) done) (short : done ≠ s.record t)
      (mutex : s'.mutex = s.mutex) (file : s'.file = s.file) (record : s'.record t = s.record t)
      (stage : s'.stage = Function.update s.stage t .written)
      (status : s'.writeStatus t = some (-1)) : Turn s t s' []
  | unlock (s' : FileServer) (before : s.stage t = .written) (mutex : s'.mutex = none)
      (file : s'.file = s.file) (stage : s'.stage = Function.update s.stage t .outside)
      (status : s'.writeStatus t = none) : Turn s t s' []
  | other (s' : FileServer) (before : s.stage t = .outside) (mutex : s'.mutex = s.mutex)
      (file : s'.file = s.file) (stage : s'.stage = s.stage) (status : s'.writeStatus t = none) :
      Turn s t s' []

/-- Each such turn is a few steps of the log under a lock. -/
theorem FileServer.Turn.simulates {l l' : Ledger} {t : Thread} {acquires : List Thread}
    (turn : l.server.Turn t l'.server acquires) (acquired : l'.acquired = l.acquired ++ acquires)
    (calls : l'.calls = l.calls ++ l'.server.returns t) :
    ∃ ts, Run LockedLog.Step l.view ts l'.view := by
  cases turn with
  | lock free mutex file record stage status =>
    obtain ⟨ts, run⟩ := LockedLog.run_enter (s := l.view) (t := t) (l.server.record t) free
    refine ⟨ts, ?_⟩
    convert run using 1
    by_cases whole : [] = l.server.record t <;>
      simp [Ledger.view, file, mutex, stage, acquired, calls, FileServer.returns, status, record,
        LockedLog.completes, whole]
  | write done part before fits mutex file record stage status =>
    obtain ⟨ts, run⟩ := LockedLog.run_append (s := l.view) (t := t) part before fits
    refine ⟨ts, ?_⟩
    convert run using 1
    by_cases whole : done ++ part = l.server.record t <;>
      simp [Ledger.view, file, mutex, stage, acquired, calls, FileServer.returns, status, record,
        LockedLog.completes, whole]
  | writeFailed done before short mutex file record stage status =>
    refine ⟨[t], .single ?_⟩
    convert LockedLog.Step.giveUp (s := l.view) (t := t) before short using 1
    simp [Ledger.view, file, mutex, stage, acquired, calls, FileServer.returns, status, record]
  | unlock before mutex file stage status =>
    refine ⟨[t], .single ?_⟩
    convert LockedLog.Step.leave (s := l.view) (t := t) before using 1
    simp [Ledger.view, file, mutex, stage, acquired, calls, FileServer.returns, status]
  | other before mutex file stage status =>
    refine ⟨[], ?_⟩
    convert Run.nil l.view using 1
    simp [Ledger.view, file, mutex, stage, acquired, calls, FileServer.returns, status]

/-! Every call is such a turn. -/

section Turn

variable {s s' : FileServer} {i : Nat} {event : Event} {h : ConnHandler}

theorem stage_update_conn (s' : FileServer) (same : s'.timer = s.timer) :
    ({ s' with conn := Function.update s.conn i h } : FileServer).stage =
      Function.update s.stage (.conn i) h.stage := by
  funext t
  cases t with
  | timer => simp [FileServer.stage, same]
  | conn j =>
    by_cases eq : j = i
    · subst eq
      simp [FileServer.stage]
    · have ne : Thread.conn j ≠ Thread.conn i := by simpa using eq
      simp [FileServer.stage, Function.update_of_ne eq, Function.update_of_ne ne]

theorem stage_update_timer (s' : FileServer) (h : TimerHandler) (same : s'.conn = s.conn) :
    ({ s' with timer := h } : FileServer).stage = Function.update s.stage .timer h.stage := by
  funext t
  cases t with
  | timer => simp [FileServer.stage]
  | conn j => simp [FileServer.stage, same]

theorem connEffect_quiet (effect : s.connEffect i event = some s')
    (noLock : ∀ error, event ≠ .lock error) (noUnlock : ∀ error, event ≠ .unlock error)
    (noWrite : ∀ bytesSent, event ≠ .write (some bytesSent)) :
    s'.file = s.file ∧ s'.mutex = s.mutex := by
  unfold FileServer.connEffect at effect
  repeat' split at effect
  all_goals first
    | contradiction
    | exact absurd rfl (noLock _)
    | exact absurd rfl (noWrite _)
    | exact absurd rfl (noUnlock _)
    | (cases effect; exact ⟨rfl, rfl⟩)

theorem ConnHandler.outside_sendPc (h : ConnHandler) (chars : Putchars) :
    ({ h with pc := sendPc chars } : ConnHandler).stage = .outside ∧
      ({ h with pc := sendPc chars } : ConnHandler).writeStatus = none := by
  unfold stage writeStatus sendPc
  by_cases ended : chars.left = [] <;> simp [ended]

theorem turn_other_conn (effect : s.connEffect i event = some s')
    (before : (s.conn i).stage = .outside) (after : h.stage = .outside)
    (status : h.writeStatus = none) (quiet : s'.file = s.file ∧ s'.mutex = s.mutex) :
    s.Turn (.conn i) { s' with conn := Function.update s.conn i h } [] := by
  refine .other _ before quiet.2 quiet.1 ?_ ?_
  · rw [stage_update_conn s' (FileServer.connEffect_threads effect).2, after]
    exact (Function.update_eq_self_iff).mpr before.symm
  · simpa [FileServer.writeStatus] using status

theorem turn_conn (writing : (s.conn i).Writing) (step : s.Step (.conn i event) s')
    (ok : (Label.conn i event).mutexError = 0) :
    s.Turn (.conn i) s' (Label.conn i event).acquires := by
  obtain ⟨h, e, moved, effect, rfl⟩ := FileServer.step_conn step
  have stages := stage_update_conn (h := h) (i := i) e (FileServer.connEffect_threads effect).2
  cases ConnHandler.step_moves moved with
  | lock pc error =>
    obtain rfl : error = 0 := ok
    simp only [FileServer.connEffect, FileServer.mutexLock, ne_eq, not_true_eq_false,
      if_false] at effect
    split at effect
    · rename_i free
      cases effect
      have after := (s.conn i).stage_writePc (.start (s.conn i).packet) rfl
      refine .lock _ free rfl rfl (by simp [FileServer.record]) ?_ ?_
      · rw [stages, after.1]
        rfl
      · simp only [FileServer.writeStatus, Function.update_self]
        exact after.2
    · contradiction
  | write chars pc bytesSent le =>
    simp only [FileServer.connEffect, pc, Option.some.injEq] at effect
    subst effect
    obtain ⟨buffer, more⟩ := writing chars pc
    have after := (s.conn i).stage_writePc (chars.advance bytesSent) (by simp [buffer])
    refine .write _ chars.done (chars.left.take bytesSent) ?_ ?_ rfl rfl
      (by simp [FileServer.record]) ?_ ?_
    · simp [FileServer.stage, ConnHandler.stage, pc, FileServer.record]
    · simpa [FileServer.record, buffer] using chars.advance_fits bytesSent
    · rw [stages, after.1]
      rfl
    · simp only [FileServer.writeStatus, Function.update_self]
      exact after.2
  | writeFailed chars pc =>
    simp only [FileServer.connEffect, Option.some.injEq] at effect
    subst effect
    obtain ⟨buffer, more⟩ := writing chars pc
    refine .writeFailed _ chars.done ?_ ?_ rfl rfl (by simp [FileServer.record]) ?_ ?_
    · simp [FileServer.stage, ConnHandler.stage, pc, FileServer.record]
    · simpa [FileServer.record, ← buffer, chars.done_eq_iff] using more
    · rw [stages]
      rfl
    · simp [FileServer.writeStatus, ConnHandler.writeStatus]
  | unlock writeStatus pc =>
    simp only [FileServer.connEffect, FileServer.mutexUnlock, ne_eq, not_true_eq_false,
      if_false, Option.some.injEq] at effect
    subst effect
    refine .unlock _ ?_ rfl rfl ?_ ?_
    · simp [FileServer.stage, ConnHandler.stage, pc]
    · rw [stages]
      rfl
    · simp [FileServer.writeStatus, ConnHandler.writeStatus]
  | unlockFailed writeStatus pc error =>
    obtain rfl : error = 0 := ok
    simp only [FileServer.connEffect, FileServer.mutexUnlock, ne_eq, not_true_eq_false,
      if_false, Option.some.injEq] at effect
    subst effect
    refine .unlock _ ?_ rfl rfl ?_ ?_
    · simp [FileServer.stage, ConnHandler.stage, pc]
    · rw [stages]
      rfl
    · simp [FileServer.writeStatus, ConnHandler.writeStatus, ConnHandler.cleanup]
  | getline pc packet =>
    have after : (ConnHandler.dispatch false { s.conn i with packet }).pc = .lock := rfl
    exact turn_other_conn effect (by simp [ConnHandler.stage, pc])
      (by simp [ConnHandler.stage, after]) (by simp [ConnHandler.writeStatus, after])
      (connEffect_quiet effect (by simp) (by simp) (by simp))
  | send chars pc bytesSent le =>
    have after := ConnHandler.outside_sendPc (s.conn i) (chars.advance bytesSent)
    exact turn_other_conn effect (by simp [ConnHandler.stage, pc]) after.1 after.2
      (connEffect_quiet effect (by simp) (by simp) (by simp))
  | _ =>
    exact turn_other_conn effect (by simp [ConnHandler.stage, *]) rfl rfl
      (connEffect_quiet effect (by simp) (by simp) (by simp))

theorem turn_timer {event : TimerEvent} (writing : s.timer.Writing)
    (step : s.Step (.timer event) s') (ok : (Label.timer event).mutexError = 0) :
    s.Turn .timer s' (Label.timer event).acquires := by
  obtain ⟨h, e, moved, effect, rfl⟩ := FileServer.step_timer step
  have stages := stage_update_timer (s := s) e h (FileServer.timerEffect_threads effect).1
  cases TimerHandler.step_moves moved with
  | lock pc =>
    simp only [FileServer.timerEffect, FileServer.mutexLock, ne_eq, not_true_eq_false,
      if_false] at effect
    split at effect
    · rename_i free
      cases effect
      have after := s.timer.stage_writePc (.start s.timer.nowStr) rfl
      refine .lock _ free rfl rfl rfl ?_ after.2
      rw [stages, after.1]
      rfl
    · contradiction
  | write chars pc bytesSent =>
    simp only [FileServer.timerEffect, pc, Option.some.injEq] at effect
    subst effect
    obtain ⟨buffer, more⟩ := writing chars pc
    have after := s.timer.stage_writePc (chars.advance bytesSent) (by simp [buffer])
    refine .write _ chars.done (chars.left.take bytesSent) ?_ ?_ rfl rfl rfl ?_ after.2
    · simp [FileServer.stage, TimerHandler.stage, pc, FileServer.record]
    · simpa [FileServer.record, buffer] using chars.advance_fits bytesSent
    · rw [stages, after.1]
      rfl
  | writeFailed chars pc =>
    simp only [FileServer.timerEffect, Option.some.injEq] at effect
    subst effect
    obtain ⟨buffer, more⟩ := writing chars pc
    refine .writeFailed _ chars.done ?_ ?_ rfl rfl rfl ?_ rfl
    · simp [FileServer.stage, TimerHandler.stage, pc, FileServer.record]
    · simpa [FileServer.record, ← buffer, chars.done_eq_iff] using more
    · rw [stages]
      rfl
  | unlock writeStatus pc error h' outside status =>
    obtain rfl : error = 0 := ok
    simp only [FileServer.timerEffect, FileServer.mutexUnlock, ne_eq, not_true_eq_false,
      if_false, Option.some.injEq] at effect
    subst effect
    refine .unlock _ ?_ rfl rfl ?_ status
    · simp [FileServer.stage, TimerHandler.stage, pc]
    · rw [stages, outside]
  | other event h' before outside status quiet =>
    rw [quiet.1]
    have still : e.file = s.file ∧ e.mutex = s.mutex := by
      unfold FileServer.timerEffect at effect
      split at effect
      · rename_i error
        by_cases none : error = 0
        · subst none
          exact absurd quiet.1 (by simp [Label.acquires])
        · simp only [FileServer.mutexLock, none, ne_eq, not_false_eq_true, if_true,
            Option.some.injEq] at effect
          subst effect
          exact ⟨rfl, rfl⟩
      · exact absurd rfl (quiet.2 _)
      · rename_i pc
        simp [TimerHandler.stage, pc] at before
      · cases effect
        exact ⟨rfl, rfl⟩
    refine .other _ before still.2 still.1 ?_ status
    rw [stages, outside]
    exact (Function.update_eq_self_iff).mpr before.symm

end Turn

theorem FileServer.Turn.returned {s s' : FileServer} {t : Thread} {acquires : List Thread}
    (turn : s.Turn t s' acquires) :
    ∀ call ∈ s'.returns t, call.returned = 0 ∨ call.returned = -1 := by
  intro call mem
  unfold FileServer.returns at mem
  split at mem
  · rename_i returned status
    obtain rfl := List.mem_singleton.mp mem
    cases turn with
    | lock _ _ _ _ _ result | write _ _ _ _ _ _ _ _ result =>
      rw [result] at status
      split at status
      · exact .inl (Option.some.inj status).symm
      · contradiction
    | writeFailed _ _ _ _ _ _ _ result =>
      exact .inr (Option.some.inj (status.symm.trans result))
    | unlock _ _ _ _ result | other _ _ _ _ result => simp [result] at status
  · simp at mem

/-- The loops of `putchars` are in the middle of their records. -/
def FileServer.Writing (s : FileServer) : Prop := (∀ i, (s.conn i).Writing) ∧ s.timer.Writing

theorem FileServer.Writing.step {s s' : FileServer} {label : Label} (writing : s.Writing)
    (step : s.Step label s') : s'.Writing := by
  cases label with
  | conn i event =>
    obtain ⟨h, e, moved, effect, rfl⟩ := step_conn step
    refine ⟨fun j => ?_, (connEffect_threads effect).2 ▸ writing.2⟩
    by_cases eq : j = i
    · subst eq
      simpa using (writing.1 j).step moved
    · simpa [Function.update_of_ne eq] using writing.1 j
  | timer event =>
    obtain ⟨h, e, moved, effect, rfl⟩ := step_timer step
    exact ⟨(timerEffect_threads effect).1 ▸ writing.1, writing.2.step moved⟩

theorem FileServer.writing_start (file : List UInt8) : (start file).Writing :=
  ⟨fun _ => ConnHandler.writing_of_ne (by simp [start, ConnHandler.start]),
    TimerHandler.writing_of_outside rfl⟩

theorem FileServer.Step.turn {s s' : FileServer} {label : Label} (writing : s.Writing)
    (step : s.Step label s') (ok : label.mutexError = 0) :
    s.Turn label.thread s' label.acquires := by
  cases label with
  | conn i event => exact turn_conn (writing.1 i) step ok
  | timer event => exact turn_timer writing.2 step ok

/-- The server before any connection, with nothing noted down. -/
def Ledger.start (file : List UInt8) : Ledger := ⟨.start file, [], []⟩

/-- A run in which the mutex works is a run of a log under a lock. -/
theorem Ledger.simulates {file : List UInt8} {labels : List Label} {l : Ledger}
    (run : Run Ledger.Step (.start file) labels l) (ok : ∀ label ∈ labels, label.mutexError = 0) :
    l.server.Writing ∧ (∀ call ∈ l.calls, call.returned = 0 ∨ call.returned = -1) ∧
      ∃ ts, Run LockedLog.Step (Ledger.start file).view ts l.view := by
  refine run.history (P := fun labels l => (∀ label ∈ labels, label.mutexError = 0) →
    l.server.Writing ∧ (∀ call ∈ l.calls, call.returned = 0 ∨ call.returned = -1) ∧
      ∃ ts, Run LockedLog.Step (Ledger.start file).view ts l.view)
    (fun _ => ⟨FileServer.writing_start file, by simp [Ledger.start], [], .nil _⟩) ?_ ok
  rintro earlier label l l' - ih ⟨step, acquired, calls⟩ ok
  obtain ⟨writing, returned, ts, run⟩ := ih fun label mem => ok label (List.mem_append_left _ mem)
  have turn := step.turn writing (ok label (by simp))
  obtain ⟨us, more⟩ := turn.simulates acquired calls
  refine ⟨writing.step step, fun call mem => ?_, ts ++ us, run.append more⟩
  rw [calls] at mem
  exact (List.mem_append.mp mem).elim (returned call) (turn.returned call)

/-- So in a run in which the mutex works the file is intact. -/
theorem Ledger.intact {file : List UInt8} {labels : List Label} {l : Ledger}
    (run : Run Ledger.Step (.start file) labels l) (ok : ∀ label ∈ labels, label.mutexError = 0) :
    l.view.Intact file := by
  obtain ⟨-, -, ts, run⟩ := Ledger.simulates run ok
  have outside : (Ledger.start file).view.stage = fun _ => .outside := by
    funext t
    cases t <;> rfl
  have fresh : (Ledger.start file).view = ⟨file, none, fun _ => .outside, [], []⟩ := by
    rw [← outside]
    rfl
  exact (fresh ▸ LockedLog.intact_start file).run run

/-- The block that a call of `putchars` left in the file: all of its record when it returned 0, and
a proper part from the start when it returned -1. -/
def Call.Left (call : Call) (block : List UInt8) : Prop :=
  call.returned = 0 ∧ block = call.record ∨
    call.returned = -1 ∧ block <+: call.record ∧ block ≠ call.record

theorem Call.left_of_kept {call : Call} {block : List UInt8}
    (returned : call.returned = 0 ∨ call.returned = -1)
    (kept : LockedLog.Kept (call.thread, call.record, decide (call.returned = 0)) block) :
    call.Left block := by
  rcases returned with whole | part
  · exact .inl ⟨whole, by simpa [LockedLog.Kept, whole] using kept⟩
  · exact .inr ⟨part, by simpa [LockedLog.Kept, part] using kept⟩

/-- Records never intermix. At every moment of a run in which the mutex works, what was added to the
file is one block for each call of `putchars` that returned, in the order in which the mutex was
acquired, and then the part of its record that the owner of the mutex has written so far. -/
theorem records_never_intermix {file : List UInt8} {labels : List Label} {l : Ledger}
    (run : Run Ledger.Step (.start file) labels l) (ok : ∀ label ∈ labels, label.mutexError = 0) :
    ∃ blocks current, l.server.file = file ++ blocks.flatten ++ current ∧
      List.Forall₂ Call.Left l.calls blocks ∧
      match l.server.mutex with
      | none => current = [] ∧ l.acquired = l.calls.map Call.thread
      | some t => current <+: l.server.record t ∧
        (l.acquired = l.calls.map Call.thread ++ [t] ∨
          l.acquired = l.calls.map Call.thread ∧ current = []) := by
  obtain ⟨-, returned, -⟩ := Ledger.simulates run ok
  obtain ⟨blocks, current, log, kept, inside⟩ := Ledger.intact run ok
  have threads : l.view.records.map Prod.fst = l.calls.map Call.thread := by
    simp [Ledger.view, Function.comp_def]
  refine ⟨blocks, current, log, ?_, ?_⟩
  · have kept := (List.forall₂_and_left _ _).mpr ⟨returned, List.forall₂_map_left_iff.mp kept⟩
    exact kept.imp fun _ _ left => Call.left_of_kept left.1 left.2
  · cases mutex : l.server.mutex with
    | none =>
      obtain ⟨rfl, acquired, -⟩ := inside.free mutex
      exact ⟨rfl, acquired.trans threads⟩
    | some t =>
      rw [← threads]
      rcases inside.owned mutex with ⟨record, stage, front, acquired⟩ | ⟨-, rfl, acquired⟩
      · exact ⟨FileServer.record_of_stage stage ▸ front, .inl acquired⟩
      · exact ⟨List.nil_prefix, .inr ⟨acquired, rfl⟩⟩

/-- The timer thread waits for the mutex while a connection is half way through its packet. -/
theorem records_half_written : ∃ blocks current,
    [1, 2, 97] = [1, 2] ++ blocks.flatten ++ current ∧ List.Forall₂ Call.Left [] blocks ∧
      current <+: [97, 10] := by
  have run : Run Ledger.Step (.start [1, 2]) [.conn 0 (.openFile true),
      .conn 0 (.getline (some [97, 10])), .timer (.sigmask 0), .conn 0 (.lock 0),
      .timer (.openFile true), .conn 0 (.write (some 1))] _ :=
    .cons (Ledger.step_noted rfl) (.cons (Ledger.step_noted rfl) (.cons (Ledger.step_noted rfl)
      (.cons (Ledger.step_noted rfl) (.cons (Ledger.step_noted rfl)
        (.cons (Ledger.step_noted rfl) (.nil _))))))
  obtain ⟨blocks, current, file, left, front, -⟩ := records_never_intermix run (by decide)
  exact ⟨blocks, current, file, left, front⟩

end Aesd.Server
