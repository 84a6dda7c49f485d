import Aesd.Server.ConnHandler
import Aesd.Server.TimerHandler
import Mathlib.Logic.Function.Basic

/-! The server that keeps its data in a file: the threads of the connections and the timer thread
take turns, one call at a time. The file is opened with `O_APPEND`, so each `write` puts its bytes
at the end that the file has at that moment. -/

namespace Aesd.Server

/-- A thread that writes to the file. -/
inductive Thread
  | conn (i : Nat)
  | timer
  deriving DecidableEq, Repr

/-- The threads, the file, the owner of `write_mutex`, and for each connection the offset of its
open file and the bytes sent on its socket. -/
structure FileServer where
  conn : Nat → ConnHandler
  timer : TimerHandler
  file : List UInt8
  mutex : Option Thread
  offset : Nat → Nat
  sent : Nat → List UInt8

/-- A call that returned, and the thread that made it. -/
inductive Label
  | conn (i : Nat) (event : Event)
  | timer (event : TimerEvent)
  deriving DecidableEq, Repr

namespace FileServer

/-- The server before any connection, with what the file holds at that time. -/
def start (file : List UInt8) : FileServer where
  conn _ := .start
  timer := .start
  file := file
  mutex := none
  offset _ := 0
  sent _ := []

/-- `pthread_mutex_lock` that returned `error`. It returns 0 only to one thread at a time. -/
def mutexLock (s : FileServer) (t : Thread) (error : Nat) : Option FileServer :=
  if error ≠ 0 then some s
  else if s.mutex = none then some { s with mutex := some t }
  else none

/-- `pthread_mutex_unlock` that returned `error`. -/
def mutexUnlock (s : FileServer) (error : Nat) : FileServer :=
  if error ≠ 0 then s else { s with mutex := none }

/-- Whether `read` can return `buffer` at `offset`: bytes that are there, none at the end only. -/
def canRead (file : List UInt8) (offset : Nat) (buffer : List UInt8) : Bool :=
  if buffer = [] then file.length ≤ offset else buffer.isPrefixOf (file.drop offset)

/-- What a call of connection `i` does outside its thread. -/
def connEffect (s : FileServer) (i : Nat) (event : Event) : Option FileServer :=
  match (s.conn i).pc, event with
  | _, .openFile true | _, .lseek true => some { s with offset := Function.update s.offset i 0 }
  | _, .lock error => s.mutexLock (.conn i) error
  | _, .unlock error => some (s.mutexUnlock error)
  | .write chars, .write (some bytesSent) =>
    let file := s.file ++ chars.left.take bytesSent
    some { s with file, offset := Function.update s.offset i file.length }
  | _, .read (some buffer) =>
    if canRead s.file (s.offset i) buffer then
      some { s with offset := Function.update s.offset i (s.offset i + buffer.length) }
    else none
  | .send chars, .send (some bytesSent) =>
    some { s with sent := Function.update s.sent i (s.sent i ++ chars.left.take bytesSent) }
  | _, _ => some s

/-- What a call of the timer thread does outside it. -/
def timerEffect (s : FileServer) (event : TimerEvent) : Option FileServer :=
  match s.timer.pc, event with
  | _, .lock error => s.mutexLock .timer error
  | _, .unlock error => some (s.mutexUnlock error)
  | .write chars, .write (some bytesSent) =>
    some { s with file := s.file ++ chars.left.take bytesSent }
  | _, _ => some s

/-- The server after one call of one thread. -/
def step (s : FileServer) : Label → Option FileServer
  | .conn i event => do
    let h ← (s.conn i).step false event
    let s' ← s.connEffect i event
    return { s' with conn := Function.update s.conn i h }
  | .timer event => do
    let h ← s.timer.step event
    let s' ← s.timerEffect event
    return { s' with timer := h }

def Step (s : FileServer) (label : Label) (s' : FileServer) : Prop := s.step label = some s'

variable {s s' : FileServer} {i : Nat}

theorem step_conn {event : Event} (step : s.Step (.conn i event) s') :
    ∃ h e, (s.conn i).step false event = some h ∧ s.connEffect i event = some e ∧
      s' = { e with conn := Function.update s.conn i h } := by
  simp only [Step, FileServer.step, Option.bind_eq_bind, Option.bind_eq_some_iff] at step
  obtain ⟨h, moved, e, effect, same⟩ := step
  exact ⟨h, e, moved, effect, (Option.some.inj same).symm⟩

theorem step_timer {event : TimerEvent} (step : s.Step (.timer event) s') :
    ∃ h e, s.timer.step event = some h ∧ s.timerEffect event = some e ∧
      s' = { e with timer := h } := by
  simp only [Step, FileServer.step, Option.bind_eq_bind, Option.bind_eq_some_iff] at step
  obtain ⟨h, moved, e, effect, same⟩ := step
  exact ⟨h, e, moved, effect, (Option.some.inj same).symm⟩

theorem connEffect_threads {event : Event} (effect : s.connEffect i event = some s') :
    s'.conn = s.conn ∧ s'.timer = s.timer := by
  unfold connEffect mutexLock mutexUnlock at effect
  repeat' split at effect
  all_goals first | contradiction | (cases effect; exact ⟨rfl, rfl⟩)

theorem timerEffect_threads {event : TimerEvent} (effect : s.timerEffect event = some s') :
    s'.conn = s.conn ∧ s'.timer = s.timer := by
  unfold timerEffect mutexLock mutexUnlock at effect
  repeat' split at effect
  all_goals first | contradiction | (cases effect; exact ⟨rfl, rfl⟩)

end FileServer

/-- The thread that makes the call. -/
def Label.thread : Label → Thread
  | .conn i _ => .conn i
  | .timer _ => .timer

/-- The error that a call of `pthread_mutex_lock` or `pthread_mutex_unlock` reports, 0 for any other
call. -/
def Label.mutexError : Label → Nat
  | .conn _ (.lock error) | .conn _ (.unlock error) => error
  | .timer (.lock error) | .timer (.unlock error) => error
  | _ => 0

end Aesd.Server
