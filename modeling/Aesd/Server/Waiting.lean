import Aesd.Server.Response
import Aesd.Server.Signals
import Aesd.Server.TimerReleases

/-! No thread of the server that keeps its data in a file is stuck, as long as no signal interrupts
a call of `syslog`. Where a thread cannot make its next call, it waits for its client, for a signal,
or for the mutex, and then the owner of the mutex can go on. -/

namespace Aesd.Server

open ProofKit

/-- A call of the timer thread that did what it is for. -/
def TimerEvent.succeeded : TimerEvent → Bool
  | .sigmask error | .sigwait error _ => error == 0
  | .openFile ok | .timerCreate ok | .timerSettime ok | .time ok | .localtime ok | .timerDelete ok
  | .closeFd ok => ok
  | .strftime nowStr => nowStr.length == datesize
  | .lock error | .unlock error => error == 0
  | .write bytesSent => bytesSent.isSome
  | .sigExit _ => true

/-- A call that did what it is for. -/
def Label.succeeded : Label → Bool
  | .conn _ event => !event.failed
  | .timer event => event.succeeded

namespace ConnHandler

/-- What the next call of the thread returns when it succeeds, and `rest` is to be read. -/
def success (h : ConnHandler) (rest : List UInt8) : Event :=
  match h.pc with
  | .openFile => .openFile true
  | .getline => .getline (some [Aesd.Driver.newline])
  | .ioctl _ => .ioctl true
  | .lock => .lock 0
  | .write chars => .write (some chars.left.length)
  | .unlock _ => .unlock 0
  | .lseek => .lseek true
  | .read => .read (some (rest.take connBufsize))
  | .send chars => .send (some chars.left.length)
  | .free => .free
  | .closeFd => .closeFd true
  | .closeConn | .exited => .closeConn true

theorem success_failed (h : ConnHandler) (rest : List UInt8) : (h.success rest).failed = false := by
  unfold success
  cases h.pc <;> rfl

theorem success_step (h : ConnHandler) (rest : List UInt8) (going : h.pc ≠ .exited) :
    (h.step false (h.success rest)).isSome := by
  unfold success
  cases pc : h.pc with
  | exited => exact absurd pc going
  | unlock writeStatus =>
    simp only [step, pc]
    split <;> rfl
  | read =>
    have short : (rest.take connBufsize).length ≤ connBufsize := List.length_take_le ..
    simp only [step, pc, if_pos short]
    split <;> rfl
  | _ => simp [step, pc]

end ConnHandler

/-- What the next call of the timer thread returns when it succeeds. -/
def TimerHandler.success (h : TimerHandler) (sigExit : Bool) : TimerEvent :=
  match h.pc with
  | .sigmask => .sigmask 0
  | .openFile => .openFile true
  | .timerCreate => .timerCreate true
  | .timerSettime => .timerSettime true
  | .sigExit => .sigExit sigExit
  | .sigwait => .sigwait 0 sigterm
  | .time => .time true
  | .localtime => .localtime true
  | .strftime => .strftime (List.replicate datesize 0)
  | .lock => .lock 0
  | .write chars => .write (some chars.left.length)
  | .unlock _ => .unlock 0
  | .timerDelete => .timerDelete true
  | .closeFd | .exited => .closeFd true

theorem TimerHandler.success_succeeded (h : TimerHandler) (sigExit : Bool) :
    (h.success sigExit).succeeded = true := by
  unfold success
  cases h.pc <;> rfl

theorem TimerHandler.success_step (h : TimerHandler) (sigExit : Bool) (going : h.pc ≠ .exited) :
    (h.step (h.success sigExit)).isSome := by
  unfold success
  cases pc : h.pc with
  | exited => exact absurd pc going
  | unlock writeStatus =>
    simp only [step, pc]
    split <;> rfl
  | _ => simp [step, pc]

namespace FileServer

variable {file : List UInt8} {labels : List Label} {s : FileServer} {t : Thread}

/-- The bytes of the file that connection `i` has still to read. -/
def rest (s : FileServer) (i : Nat) : List UInt8 := s.file.drop (s.offset i)

theorem canRead_rest (s : FileServer) (i : Nat) :
    canRead s.file (s.offset i) ((s.rest i).take connBufsize) = true := by
  unfold canRead rest
  split
  · rename_i atEnd
    have short : s.file.length ≤ s.offset i ∨ connBufsize = 0 := by
      simpa [List.take_eq_nil_iff, or_comm] using atEnd
    exact decide_eq_true (short.resolve_right (by decide))
  · exact List.isPrefixOf_iff_prefix.mpr (List.take_prefix ..)

theorem connEffect_success (s : FileServer) (i : Nat)
    (free : (s.conn i).pc = .lock → s.mutex = none) :
    (s.connEffect i ((s.conn i).success (s.rest i))).isSome := by
  unfold ConnHandler.success
  cases pc : (s.conn i).pc with
  | lock => simp [connEffect, mutexLock, free pc]
  | read => simp [connEffect, canRead_rest]
  | _ => simp [connEffect, pc]

theorem timerEffect_success (s : FileServer) (sigExit : Bool)
    (free : s.timer.pc = .lock → s.mutex = none) :
    (s.timerEffect (s.timer.success sigExit)).isSome := by
  unfold TimerHandler.success
  cases pc : s.timer.pc with
  | lock => simp [timerEffect, mutexLock, free pc]
  | _ => simp [timerEffect, pc]

/-- The thread has ended. -/
def Ended (s : FileServer) : Thread → Prop
  | .conn i => (s.conn i).pc = .exited
  | .timer => s.timer.pc = .exited

/-- The thread waits for the line of its client, or for a signal. -/
def Awaits (s : FileServer) : Thread → Prop
  | .conn i => (s.conn i).pc = .getline
  | .timer => s.timer.pc = .sigwait

/-- The thread wants the mutex. -/
def Locks (s : FileServer) : Thread → Prop
  | .conn i => (s.conn i).pc = .lock
  | .timer => s.timer.pc = .lock

end FileServer

namespace SignalServer

variable {p p' : SignalServer} {label : SignalLabel} {labels : List SignalLabel} {file : List UInt8}
  {inherited : Finset Signal} {t : Thread}

/-- `main` has created the thread. -/
def Created (p : SignalServer) : Thread → Prop
  | .conn i => i < p.accepted
  | .timer => p.timerCreated = true

/-- A thread that was not created has made no call. -/
structure Fresh (p : SignalServer) : Prop where
  conn : ∀ i, p.accepted ≤ i → p.server.conn i = .start
  timer : p.timerCreated = false → p.server.timer = .start

theorem Fresh.step (fresh : p.Fresh) (step : p.Step label p') : p'.Fresh := by
  cases step.does with
  | createTimer => exact ⟨fresh.conn, by simp⟩
  | accept => exact ⟨fun i above => fresh.conn i (Nat.le_of_succ_le above), fresh.timer⟩
  | conn i event server below called =>
    obtain ⟨h, e, moved, effect, rfl⟩ := FileServer.step_conn called
    have threads := FileServer.connEffect_threads effect
    refine ⟨fun j above => ?_, fun none => threads.2.trans (fresh.timer none)⟩
    have other : j ≠ i := by
      replace above : p.accepted ≤ j := above
      omega
    simpa [other] using fresh.conn j above
  | timer event server p' there called signals =>
    obtain ⟨h, e, moved, effect, rfl⟩ := FileServer.step_timer called
    have kept : p'.timerCreated = p.timerCreated ∧ p'.accepted = p.accepted := by
      cases signals <;> exact ⟨rfl, rfl⟩
    refine ⟨fun j above => ?_, fun none => ?_⟩
    · have conn := congrFun (FileServer.timerEffect_threads effect).1 j
      exact conn.trans (fresh.conn j (kept.2 ▸ above))
    · simp [kept.1, there] at none
  | deliver | deliverDirected =>
    unfold SignalServer.takes
    split <;> exact ⟨fresh.conn, fresh.timer⟩
  | _ => exact ⟨fresh.conn, fresh.timer⟩

theorem Fresh.run (run : Run Step (start file inherited) labels p) : p.Fresh :=
  run.invariant (P := Fresh) (fun _ _ _ fresh step => fresh.step step)
    ⟨fun _ _ => rfl, fun _ => rfl⟩

theorem Fresh.created (fresh : p.Fresh) (inside : p.server.stage t ≠ .outside) : p.Created t := by
  cases t with
  | conn i =>
    refine Nat.not_le.mp fun above => inside ?_
    simp [FileServer.stage, ConnHandler.stage, fresh.conn i above, ConnHandler.start]
  | timer =>
    by_contra none
    have timer := fresh.timer (Bool.not_eq_true _ ▸ none)
    simp [FileServer.stage, TimerHandler.stage, timer, TimerHandler.start] at inside

theorem timerSignals_success (p : SignalServer)
    (directed : p.server.timer.pc = .sigwait → p.directed = true) :
    ∃ p', p.TimerSignals (p.server.timer.success p.sigExit) p' := by
  unfold TimerHandler.success
  cases pc : p.server.timer.pc with
  | sigmask => exact ⟨_, .sigmask⟩
  | timerSettime => exact ⟨_, .armed⟩
  | sigExit => exact ⟨_, .sigExit⟩
  | sigwait => exact ⟨_, .sigwaitDirected (directed pc)⟩
  | timerDelete => exact ⟨_, .deleted⟩
  | _ => exact ⟨p, .other _ rfl⟩

/-- The thread is in the handler of a signal and can return from it, or its next call can
succeed. -/
def CanGo (p : SignalServer) (t : Thread) : Prop :=
  (∃ p', p.Step (.handled (some t)) p') ∨
    ∃ call p', call.thread = t ∧ call.succeeded = true ∧ p.Step (.call call) p'

/-- There is a process, and no thread of it is stuck in its handler. -/
structure Lively (p : SignalServer) : Prop where
  running : p.main ≠ .exited
  alive : p.died = false
  free : p.jammed = ∅

theorem Lively.returns (lively : p.Lively) (inside : some t ∈ p.handling) :
    ∃ p', p.Step (.handled (some t)) p' :=
  ⟨_, lively.running, lively.alive, by simp [SignalLabel.actor],
    .handled _ inside (by simp [lively.free])⟩

theorem Lively.conn_goes {i : Nat} (lively : p.Lively) (outside : some (.conn i) ∉ p.handling)
    (created : i < p.accepted) (going : (p.server.conn i).pc ≠ .exited)
    (free : (p.server.conn i).pc = .lock → p.server.mutex = none) :
    ∃ event p', event.failed = false ∧ p.Step (.call (.conn i event)) p' := by
  obtain ⟨h, moved⟩ := Option.isSome_iff_exists.mp
    ((p.server.conn i).success_step (p.server.rest i) going)
  obtain ⟨e, effect⟩ := Option.isSome_iff_exists.mp (p.server.connEffect_success i free)
  have step : p.server.Step (.conn i ((p.server.conn i).success (p.server.rest i)))
      { e with conn := Function.update p.server.conn i h } := by
    simp [FileServer.Step, FileServer.step, moved, effect]
  exact ⟨_, _, (p.server.conn i).success_failed _, lively.running, lively.alive,
    by simpa [SignalLabel.actor, Label.thread] using outside, .conn _ _ _ created step⟩

theorem Lively.timer_goes (lively : p.Lively) (outside : some .timer ∉ p.handling)
    (created : p.timerCreated = true) (going : p.server.timer.pc ≠ .exited)
    (free : p.server.timer.pc = .lock → p.server.mutex = none)
    (directed : p.server.timer.pc = .sigwait → p.directed = true) :
    ∃ event p', event.succeeded = true ∧ p.Step (.call (.timer event)) p' := by
  obtain ⟨h, moved⟩ := Option.isSome_iff_exists.mp (p.server.timer.success_step p.sigExit going)
  obtain ⟨e, effect⟩ := Option.isSome_iff_exists.mp (p.server.timerEffect_success p.sigExit free)
  obtain ⟨p', signals⟩ := p.timerSignals_success directed
  have step : p.server.Step (.timer (p.server.timer.success p.sigExit)) { e with timer := h } := by
    simp [FileServer.Step, FileServer.step, moved, effect]
  exact ⟨_, _, p.server.timer.success_succeeded p.sigExit, lively.running, lively.alive,
    by simpa [SignalLabel.actor, Label.thread] using outside, .timer _ _ p' created step signals⟩

theorem Lively.goes (lively : p.Lively) (created : p.Created t) (going : ¬ p.server.Ended t)
    (busy : ¬ p.server.Awaits t) (free : p.server.Locks t → p.server.mutex = none) : p.CanGo t := by
  by_cases inside : some t ∈ p.handling
  · exact .inl (lively.returns inside)
  right
  cases t with
  | conn i =>
    obtain ⟨event, p', fine, step⟩ := lively.conn_goes inside created going free
    exact ⟨.conn i event, p', rfl, by simpa [Label.succeeded] using fine, step⟩
  | timer =>
    obtain ⟨event, p', fine, step⟩ :=
      lively.timer_goes inside created going free fun pc => absurd pc busy
    exact ⟨.timer event, p', rfl, fine, step⟩

end SignalServer

end Aesd.Server
