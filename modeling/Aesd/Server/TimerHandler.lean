import Aesd.Server.Putchars

/-! The thread that adds a timestamp to the file every ten seconds, `timer_handler`, as a state
machine that makes one call after the other. -/

namespace Aesd.Server

def sigterm : Nat := 15

def datesize : Nat := 30

/-- The call that `timer_handler` makes next. -/
inductive TimerPc
  | sigmask
  | openFile
  | timerCreate
  | timerSettime
  | sigExit
  | sigwait
  | time
  | localtime
  | strftime
  | lock
  | write (chars : Putchars)
  | unlock (writeStatus : Int)
  | timerDelete
  | closeFd
  | exited
  deriving DecidableEq, Repr

/-- What a call returns, and for `sigExit` whether the flag `sig_exit` is found set. Of `strftime`
it is the text. -/
inductive TimerEvent
  | sigmask (error : Int)
  | openFile (ok : Bool)
  | timerCreate (ok : Bool)
  | timerSettime (ok : Bool)
  | sigExit (isSet : Bool)
  | sigwait (error : Int) (signo : Nat)
  | time (ok : Bool)
  | localtime (ok : Bool)
  | strftime (nowStr : List UInt8)
  | lock (error : Nat)
  | write (bytesSent : Option Nat)
  | unlock (error : Nat)
  | timerDelete (ok : Bool)
  | closeFd (ok : Bool)
  deriving DecidableEq, Repr

/-- The thread: the next call, the text of the timestamp, the flag `abort`, and, once it has ended,
the value behind the pointer given to `pthread_exit`. -/
structure TimerHandler where
  pc : TimerPc
  nowStr : List UInt8
  abort : Bool
  retval : Int
  deriving DecidableEq, Repr

namespace TimerHandler

/-- The thread when it is created. -/
def start : TimerHandler := ⟨.sigmask, [], false, 0⟩

def cleanup (h : TimerHandler) : TimerHandler := { h with pc := .timerDelete, abort := true }

/-- The loop test of `putchars`. -/
def writePc (chars : Putchars) : TimerPc := if chars.left = [] then .unlock 0 else .write chars

/-- The thread after the call that it makes next returned with `event`. There is none when that call
cannot return so. -/
def step (h : TimerHandler) (event : TimerEvent) : Option TimerHandler :=
  match h.pc, event with
  | .sigmask, .sigmask error =>
    if error < 0 then some { h with pc := .exited, retval := -1 }
    else some { h with pc := .openFile }
  | .openFile, .openFile ok =>
    if ok then some { h with pc := .timerCreate }
    else some { h with pc := .closeFd, abort := true }
  | .timerCreate, .timerCreate ok =>
    if ok then some { h with pc := .timerSettime } else some h.cleanup
  -- a timer that could not be armed does not end the thread
  | .timerSettime, .timerSettime ok => some { h with pc := .sigExit, abort := h.abort || !ok }
  | .sigExit, .sigExit isSet =>
    some { h with pc := if isSet then .timerDelete else .sigwait }
  | .sigwait, .sigwait error signo =>
    if error < 0 then some h.cleanup
    else some { h with pc := if signo = sigterm then .timerDelete else .time }
  | .time, .time ok => if ok then some { h with pc := .localtime } else some h.cleanup
  | .localtime, .localtime ok => if ok then some { h with pc := .strftime } else some h.cleanup
  | .strftime, .strftime nowStr =>
    if nowStr.length = datesize then some { h with pc := .lock, nowStr }
    else some { h.cleanup with nowStr }
  | .lock, .lock error =>
    if error = 0 then some { h with pc := writePc (.start h.nowStr) } else some h.cleanup
  | .write chars, .write (some bytesSent) =>
    if bytesSent ≤ chars.left.length then
      some { h with pc := writePc (chars.advance bytesSent) }
    else none
  | .write _, .write none => some { h with pc := .unlock (-1) }
  | .unlock writeStatus, .unlock error =>
    if error ≠ 0 ∨ writeStatus < 0 then some h.cleanup else some { h with pc := .sigExit }
  | .timerDelete, .timerDelete ok => some { h with pc := .closeFd, abort := h.abort || !ok }
  | .closeFd, .closeFd ok => some { h with
      pc := .exited
      abort := h.abort || !ok
      retval := if h.abort || !ok then -1 else 0 }
  | _, _ => none

end TimerHandler

end Aesd.Server
