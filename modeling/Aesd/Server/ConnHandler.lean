import Aesd.Server.Putchars
import Aesd.Server.Strtoul

/-! The thread of a connection, `conn_handler`, as a state machine that makes one call after the
other. What a call returns is an event; what the calls do to the store, the mutex and the socket is
up to the system that the thread runs in. The calls that only write to the log are left out. -/

namespace Aesd.Server

open Aesd.CInt Aesd.Driver

def connBufsize : Nat := 256

/-- The call that `conn_handler` makes next, with what it needs of the local variables. -/
inductive Pc
  | openFile
  | getline
  | ioctl (seekto : AesdSeekto)
  | lock
  | write (chars : Putchars)
  | unlock (writeStatus : Int)
  | lseek
  | read
  | send (chars : Putchars)
  | free
  | closeFd
  | closeConn
  | exited
  deriving DecidableEq, Repr

/-- What a call returns. A `pthread` call returns an error number, 0 for success. Of `getline` it is
the packet, of `write` and `send` the count, of `read` the bytes, and `none` stands for failure. -/
inductive Event
  | openFile (ok : Bool)
  | getline (packet : Option (List UInt8))
  | ioctl (ok : Bool)
  | lock (error : Nat)
  | write (bytesSent : Option Nat)
  | unlock (error : Nat)
  | lseek (ok : Bool)
  | read (buffer : Option (List UInt8))
  | send (bytesSent : Option Nat)
  | free
  | closeFd (ok : Bool)
  | closeConn (ok : Bool)
  deriving DecidableEq, Repr

/-- A call that reported an error. -/
def Event.failed : Event → Bool
  | .openFile ok | .ioctl ok | .lseek ok | .closeFd ok | .closeConn ok => !ok
  | .lock error | .unlock error => error != 0
  | .getline result | .read result => result.isNone
  | .write result | .send result => result.isNone
  | .free => false

/-- The thread: the next call, the packet once it was received, and the flag `abort`. -/
structure ConnHandler where
  pc : Pc
  packet : List UInt8
  abort : Bool
  deriving DecidableEq, Repr

/-- The start of a seek command, `"AESDCHAR_IOCSEEKTO:"`. -/
def seektoPrefix : List UInt8 :=
  ['A', 'E', 'S', 'D', 'C', 'H', 'A', 'R', '_', 'I', 'O', 'C', 'S', 'E', 'E', 'K', 'T', 'O',
    ':'].map fun c => c.toNat.toUInt8

namespace ConnHandler

/-- The thread when it is created. -/
def start : ConnHandler := ⟨.openFile, [], false⟩

/-- The value that the thread leaves for `pthread_join`. -/
def retval (h : ConnHandler) : Int := if h.abort then -1 else 0

def cleanup (h : ConnHandler) : ConnHandler := { h with pc := .free, abort := true }

/-- The loop test of `putchars`. -/
def writePc (chars : Putchars) : Pc := if chars.left = [] then .unlock 0 else .write chars

/-- The loop test of `sock_putchars`. -/
def sendPc (chars : Putchars) : Pc := if chars.left = [] then .read else .send chars

theorem writePc_cases (chars : Putchars) :
    chars.left = [] ∧ writePc chars = .unlock 0 ∨
      chars.left ≠ [] ∧ writePc chars = .write chars := by
  by_cases left : chars.left = []
  · exact .inl ⟨left, if_pos left⟩
  · exact .inr ⟨left, if_neg left⟩

theorem sendPc_cases (chars : Putchars) :
    chars.left = [] ∧ sendPc chars = .read ∨ chars.left ≠ [] ∧ sendPc chars = .send chars := by
  by_cases left : chars.left = []
  · exact .inl ⟨left, if_pos left⟩
  · exact .inr ⟨left, if_neg left⟩

section Loops

variable {α : Type} (f : Pc → α) {a : α}

/-- What is the same for each call that may come after the loop test. -/
theorem apply_writePc (unlock : f (.unlock 0) = a) (write : ∀ chars, f (.write chars) = a)
    (chars : Putchars) : f (writePc chars) = a := by
  rcases writePc_cases chars with ⟨-, pc⟩ | ⟨-, pc⟩
  · rw [pc, unlock]
  · rw [pc, write]

theorem apply_sendPc (read : f .read = a) (send : ∀ chars, f (.send chars) = a)
    (chars : Putchars) : f (sendPc chars) = a := by
  rcases sendPc_cases chars with ⟨-, pc⟩ | ⟨-, pc⟩
  · rw [pc, read]
  · rw [pc, send]

end Loops

/-- What is done with the packet: a seek command in the build for the device, and any other packet
is to be written. -/
def dispatch (useAesdCharDevice : Bool) (h : ConnHandler) : ConnHandler :=
  if useAesdCharDevice && seektoPrefix.isPrefixOf h.packet then
    match parseSeekto (h.packet.drop seektoPrefix.length) with
    | none => h.cleanup
    | some seekto => { h with pc := .ioctl seekto }
  else { h with pc := .lock }

theorem dispatch_pc (useAesdCharDevice : Bool) (h : ConnHandler) :
    (dispatch useAesdCharDevice h).pc = .lock ∨ (dispatch useAesdCharDevice h).pc = .free ∨
      ∃ seekto, (dispatch useAesdCharDevice h).pc = .ioctl seekto := by
  unfold dispatch
  split
  · split
    · exact .inr (.inl rfl)
    · exact .inr (.inr ⟨_, rfl⟩)
  · exact .inl rfl

/-- The thread after the call that it makes next returned with `event`. There is none when that call
cannot return so. -/
def step (useAesdCharDevice : Bool) (h : ConnHandler) (event : Event) : Option ConnHandler :=
  match h.pc, event with
  | .openFile, .openFile true => some { h with pc := .getline }
  | .openFile, .openFile false => some { h with pc := .closeConn, abort := true }
  | .getline, .getline (some packet) => some (dispatch useAesdCharDevice { h with packet })
  | .getline, .getline none => some { h with pc := .closeFd, abort := true }
  | .ioctl _, .ioctl true => some { h with pc := .read }
  | .ioctl _, .ioctl false => some h.cleanup
  -- an error is only logged
  | .lock, .lock _ => some { h with pc := writePc (.start h.packet) }
  | .write chars, .write (some bytesSent) =>
    if bytesSent ≤ chars.left.length then
      some { h with pc := writePc (chars.advance bytesSent) }
    else none
  | .write _, .write none => some { h with pc := .unlock (-1) }
  | .unlock writeStatus, .unlock error =>
    if error ≠ 0 ∨ writeStatus < 0 then some h.cleanup else some { h with pc := .lseek }
  | .lseek, .lseek true => some { h with pc := .read }
  | .lseek, .lseek false => some h.cleanup
  | .read, .read (some buffer) =>
    if buffer = [] then some { h with pc := .free }
    else if buffer.length ≤ connBufsize then some { h with pc := .send (.start buffer) }
    else none
  | .read, .read none => some h.cleanup
  | .send chars, .send (some bytesSent) =>
    if bytesSent ≤ chars.left.length then
      some { h with pc := sendPc (chars.advance bytesSent) }
    else none
  | .send _, .send none => some h.cleanup
  | .free, .free => some { h with pc := .closeFd }
  | .closeFd, .closeFd ok => some { h with pc := .closeConn, abort := h.abort || !ok }
  | .closeConn, .closeConn ok => some { h with pc := .exited, abort := h.abort || !ok }
  | _, _ => none

/-- What one call can do: the event and the thread afterwards. -/
inductive Moves (useAesdCharDevice : Bool) (h : ConnHandler) : Event → ConnHandler → Prop
  | openFile (pc : h.pc = .openFile) :
      Moves useAesdCharDevice h (.openFile true) { h with pc := .getline }
  | openFailed (pc : h.pc = .openFile) :
      Moves useAesdCharDevice h (.openFile false) { h with pc := .closeConn, abort := true }
  | getline (pc : h.pc = .getline) (packet : List UInt8) :
      Moves useAesdCharDevice h (.getline (some packet))
        (dispatch useAesdCharDevice { h with packet })
  | getlineFailed (pc : h.pc = .getline) :
      Moves useAesdCharDevice h (.getline none) { h with pc := .closeFd, abort := true }
  | ioctl (seekto : AesdSeekto) (pc : h.pc = .ioctl seekto) :
      Moves useAesdCharDevice h (.ioctl true) { h with pc := .read }
  | ioctlFailed (seekto : AesdSeekto) (pc : h.pc = .ioctl seekto) :
      Moves useAesdCharDevice h (.ioctl false) h.cleanup
  | lock (pc : h.pc = .lock) (error : Nat) :
      Moves useAesdCharDevice h (.lock error) { h with pc := writePc (.start h.packet) }
  | write (chars : Putchars) (pc : h.pc = .write chars) (bytesSent : Nat)
      (le : bytesSent ≤ chars.left.length) :
      Moves useAesdCharDevice h (.write (some bytesSent))
        { h with pc := writePc (chars.advance bytesSent) }
  | writeFailed (chars : Putchars) (pc : h.pc = .write chars) :
      Moves useAesdCharDevice h (.write none) { h with pc := .unlock (-1) }
  | unlock (writeStatus : Int) (pc : h.pc = .unlock writeStatus) (ok : 0 ≤ writeStatus) :
      Moves useAesdCharDevice h (.unlock 0) { h with pc := .lseek }
  | unlockFailed (writeStatus : Int) (pc : h.pc = .unlock writeStatus) (error : Nat)
      (bad : error ≠ 0 ∨ writeStatus < 0) : Moves useAesdCharDevice h (.unlock error) h.cleanup
  | lseek (pc : h.pc = .lseek) : Moves useAesdCharDevice h (.lseek true) { h with pc := .read }
  | lseekFailed (pc : h.pc = .lseek) : Moves useAesdCharDevice h (.lseek false) h.cleanup
  | readEnd (pc : h.pc = .read) :
      Moves useAesdCharDevice h (.read (some [])) { h with pc := .free }
  | read (pc : h.pc = .read) (buffer : List UInt8) (some_ : buffer ≠ [])
      (le : buffer.length ≤ connBufsize) :
      Moves useAesdCharDevice h (.read (some buffer)) { h with pc := .send (.start buffer) }
  | readFailed (pc : h.pc = .read) : Moves useAesdCharDevice h (.read none) h.cleanup
  | send (chars : Putchars) (pc : h.pc = .send chars) (bytesSent : Nat)
      (le : bytesSent ≤ chars.left.length) :
      Moves useAesdCharDevice h (.send (some bytesSent))
        { h with pc := sendPc (chars.advance bytesSent) }
  | sendFailed (chars : Putchars) (pc : h.pc = .send chars) :
      Moves useAesdCharDevice h (.send none) h.cleanup
  | free (pc : h.pc = .free) : Moves useAesdCharDevice h .free { h with pc := .closeFd }
  | closeFd (pc : h.pc = .closeFd) (ok : Bool) :
      Moves useAesdCharDevice h (.closeFd ok) { h with pc := .closeConn, abort := h.abort || !ok }
  | closeConn (pc : h.pc = .closeConn) (ok : Bool) :
      Moves useAesdCharDevice h (.closeConn ok) { h with pc := .exited, abort := h.abort || !ok }

variable {useAesdCharDevice : Bool} {h h' : ConnHandler} {event : Event}

theorem step_moves (step : h.step useAesdCharDevice event = some h') :
    Moves useAesdCharDevice h event h' := by
  unfold ConnHandler.step at step
  split at step
  case h_1 pc => cases step; exact .openFile pc
  case h_2 pc => cases step; exact .openFailed pc
  case h_3 pc => cases step; exact .getline pc _
  case h_4 pc => cases step; exact .getlineFailed pc
  case h_5 pc => cases step; exact .ioctl _ pc
  case h_6 pc => cases step; exact .ioctlFailed _ pc
  case h_7 pc => cases step; exact .lock pc _
  case h_8 pc =>
    split at step
    · rename_i le
      cases step
      exact .write _ pc _ le
    · contradiction
  case h_9 pc => cases step; exact .writeFailed _ pc
  case h_10 pc =>
    split at step
    · rename_i bad
      cases step
      exact .unlockFailed _ pc _ bad
    · rename_i good
      obtain ⟨none, ok⟩ := not_or.mp good
      obtain rfl := not_not.mp none
      cases step
      exact .unlock _ pc (Int.not_lt.mp ok)
  case h_11 pc => cases step; exact .lseek pc
  case h_12 pc => cases step; exact .lseekFailed pc
  case h_13 pc =>
    split at step
    · rename_i empty
      cases step
      exact empty ▸ .readEnd pc
    · rename_i some_
      split at step
      · rename_i le
        cases step
        exact .read pc _ some_ le
      · contradiction
  case h_14 pc => cases step; exact .readFailed pc
  case h_15 pc =>
    split at step
    · rename_i le
      cases step
      exact .send _ pc _ le
    · contradiction
  case h_16 pc => cases step; exact .sendFailed _ pc
  case h_17 pc => cases step; exact .free pc
  case h_18 pc => cases step; exact .closeFd pc _
  case h_19 pc => cases step; exact .closeConn pc _
  case h_20 => contradiction

end ConnHandler

end Aesd.Server
