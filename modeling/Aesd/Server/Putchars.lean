import Mathlib.Data.List.Basic

/-! The loop of `putchars` and `sock_putchars`, which passes a buffer on in as many calls as it
takes. -/

namespace Aesd.Server

/-- The loop in progress: `buf_head` cuts the buffer into the bytes passed on and those left. -/
structure Putchars where
  done : List UInt8
  left : List UInt8
  deriving DecidableEq, Repr

namespace Putchars

/-- The loop before its first call. -/
def start (buffer : List UInt8) : Putchars := ⟨[], buffer⟩

/-- The loop after a call that passed on `bytesSent` bytes. -/
def advance (chars : Putchars) (bytesSent : Nat) : Putchars :=
  ⟨chars.done ++ chars.left.take bytesSent, chars.left.drop bytesSent⟩

/-- The buffer that is passed on. -/
def buffer (chars : Putchars) : List UInt8 := chars.done ++ chars.left

@[simp] theorem start_buffer (buffer : List UInt8) : (start buffer).buffer = buffer := rfl

@[simp] theorem advance_buffer (chars : Putchars) (bytesSent : Nat) :
    (chars.advance bytesSent).buffer = chars.buffer := by
  simp [advance, buffer]

@[simp] theorem advance_done (chars : Putchars) (bytesSent : Nat) :
    (chars.advance bytesSent).done = chars.done ++ chars.left.take bytesSent := rfl

@[simp] theorem advance_left (chars : Putchars) (bytesSent : Nat) :
    (chars.advance bytesSent).left = chars.left.drop bytesSent := rfl

theorem done_eq_iff (chars : Putchars) : chars.done = chars.buffer ↔ chars.left = [] := by
  simp [buffer]

theorem advance_fits (chars : Putchars) (bytesSent : Nat) :
    chars.done ++ chars.left.take bytesSent <+: chars.buffer :=
  (List.prefix_append_right_inj _).mpr ( List.take_prefix _ _)

theorem done_eq {chars : Putchars} (ended : chars.left = []) : chars.done = chars.buffer := by
  simp [buffer, ended]

end Putchars

end Aesd.Server
