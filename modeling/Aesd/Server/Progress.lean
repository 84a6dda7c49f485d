import Aesd.Server.Response

/-! How many calls a connection of the server that keeps its data in a file makes. The loops that
write the packet and send the response move on with every call, and every read is of bytes that are
there: a connection is through after a number of calls that its packet and the file bound, so that
only a file that grows for ever keeps it going for ever. -/

namespace Aesd.Server

open ProofKit

variable {s s' : FileServer} {label : Label} {labels : List Label} {file : List UInt8} {i n : Nat}
  {event : Event}

/-- The number of calls of a thread in a run. -/
def callsBy (t : Thread) (labels : List Label) : Nat := labels.countP fun label => label.thread = t

/-- The call is not a `write` or a `send` that took no byte. -/
def Event.advances : Event → Bool
  | .write (some 0) | .send (some 0) => false
  | _ => true

theorem Event.pos_of_advances {n : Nat} :
    ((Event.write (some n)).advances → 0 < n) ∧ ((Event.send (some n)).advances → 0 < n) := by
  cases n <;> simp [advances]

/-- What connection `i` may have needed `n` calls for. -/
def Spent (n : Nat) (s : FileServer) (i : Nat) : Prop :=
  let packet := (s.conn i).packet.length
  let sent := (s.sent i).length
  match (s.conn i).pc with
  | .openFile => n = 0 ∧ sent = 0
  | .getline => n ≤ 1 ∧ sent = 0
  | .lock => n ≤ 2 ∧ sent = 0
  | .write chars => n ≤ 3 + chars.done.length ∧ sent = 0
  | .unlock _ => n ≤ 4 + packet ∧ sent = 0
  | .lseek => n ≤ 5 + packet ∧ sent = 0
  | .read => sent ≤ s.offset i ∧ s.offset i ≤ s.file.length ∧ n ≤ 6 + packet + s.offset i + sent
  | .send chars => chars.left ≠ [] ∧ sent + chars.left.length ≤ s.offset i ∧
    s.offset i ≤ s.file.length ∧ n ≤ 6 + packet + s.offset i + sent
  | .ioctl _ => False
  | .free => n ≤ 7 + packet + 2 * s.file.length
  | .closeFd => n ≤ 8 + packet + 2 * s.file.length
  | .closeConn => n ≤ 9 + packet + 2 * s.file.length
  | .exited => n ≤ 10 + packet + 2 * s.file.length

/-- What others do costs connection `i` nothing. -/
theorem Spent.other (spent : Spent n s i) (step : s.Step label s')
    (other : label.thread ≠ .conn i) : Spent n s' i := by
  obtain ⟨conn, offset, sent⟩ := step.frame other
  have longer := step.grows.length_le
  unfold Spent at spent ⊢
  rw [conn, offset, sent]
  cases pc : (s.conn i).pc with
  | ioctl => simp only [pc] at spent
  | openFile | getline | lock | write | unlock | lseek =>
    simp only [pc] at spent ⊢
    exact spent
  | read =>
    simp only [pc] at spent ⊢
    obtain ⟨le, inside, calls⟩ := spent
    exact ⟨le, Nat.le_trans inside longer, calls⟩
  | send =>
    simp only [pc] at spent ⊢
    obtain ⟨more, le, inside, calls⟩ := spent
    exact ⟨more, le, Nat.le_trans inside longer, calls⟩
  | free | closeFd | closeConn | exited =>
    simp only [pc] at spent ⊢
    omega

/-- Its own calls are paid for: by the packet, by the bytes read and by the bytes sent. -/
theorem Spent.own (spent : Spent n s i) (writing : (s.conn i).Writing)
    (step : s.Step (.conn i event) s') (advances : event.advances) : Spent (n + 1) s' i := by
  obtain ⟨h, e, moved, effect, rfl⟩ := FileServer.step_conn step
  unfold Spent at spent ⊢
  simp only [Function.update_self]
  cases ConnHandler.step_moves moved with
  | openFile pc =>
    simp only [pc] at spent
    cases effect
    exact ⟨by omega, spent.2⟩
  | openFailed pc =>
    simp only [pc] at spent
    cases effect
    show n + 1 ≤ _
    omega
  | getline pc packet =>
    simp only [pc] at spent
    cases effect
    exact ⟨by omega, spent.2⟩
  | getlineFailed pc =>
    simp only [pc] at spent
    cases effect
    show n + 1 ≤ _
    omega
  | ioctl seekto pc | ioctlFailed seekto pc => simp only [pc] at spent
  | lock pc error =>
    simp only [pc] at spent
    have sent : e.sent = s.sent := by
      simp only [FileServer.connEffect, FileServer.mutexLock] at effect
      repeat' split at effect
      all_goals first | contradiction | (cases effect; rfl)
    rcases ConnHandler.writePc_cases (.start (s.conn i).packet) with ⟨-, next⟩ | ⟨-, next⟩
    · simp only [next, sent]
      omega
    · simp only [next, sent]
      exact ⟨by omega, spent.2⟩
  | write chars pc bytesSent le =>
    simp only [pc] at spent
    simp only [FileServer.connEffect, pc, Option.some.injEq] at effect
    subst effect
    have whole := congrArg List.length (writing chars pc).1
    simp only [Putchars.buffer, List.length_append] at whole
    have more := Event.pos_of_advances.1 advances
    rcases ConnHandler.writePc_cases (chars.advance bytesSent) with ⟨-, next⟩ | ⟨-, next⟩
    · simp only [next]
      omega
    · simp only [next, Putchars.advance_done, List.length_append, List.length_take]
      omega
  | writeFailed chars pc =>
    simp only [pc] at spent
    cases effect
    have whole := congrArg List.length (writing chars pc).1
    simp only [Putchars.buffer, List.length_append] at whole
    show n + 1 ≤ 4 + (s.conn i).packet.length ∧ _
    exact ⟨by omega, spent.2⟩
  | unlock writeStatus pc ok =>
    simp only [pc] at spent
    cases effect
    show n + 1 ≤ 5 + (s.conn i).packet.length ∧ _
    exact ⟨by omega, spent.2⟩
  | unlockFailed writeStatus pc error bad =>
    simp only [pc] at spent
    cases effect
    show n + 1 ≤ 7 + (s.conn i).packet.length + 2 * _
    omega
  | lseek pc =>
    simp only [pc] at spent
    cases effect
    simp only [Function.update_self]
    omega
  | lseekFailed pc =>
    simp only [pc] at spent
    cases effect
    show n + 1 ≤ 7 + (s.conn i).packet.length + 2 * s.file.length
    omega
  | readEnd pc =>
    simp only [pc] at spent
    simp only [FileServer.connEffect, Option.ite_none_right_eq_some, Option.some.injEq] at effect
    obtain ⟨-, rfl⟩ := effect
    show n + 1 ≤ 7 + (s.conn i).packet.length + 2 * s.file.length
    omega
  | read pc buffer some_ le =>
    simp only [pc] at spent
    simp only [FileServer.connEffect, FileServer.canRead, some_, if_false,
      Option.ite_none_right_eq_some, Option.some.injEq, List.isPrefixOf_iff_prefix] at effect
    obtain ⟨there, rfl⟩ := effect
    have len := there.length_le
    have pos := List.length_pos_of_ne_nil some_
    simp only [List.length_drop] at len
    refine ⟨some_, ?_, ?_, ?_⟩ <;> simp only [Function.update_self, Putchars.start] <;> omega
  | readFailed pc =>
    simp only [pc] at spent
    cases effect
    show n + 1 ≤ 7 + (s.conn i).packet.length + 2 * s.file.length
    omega
  | send chars pc bytesSent le =>
    simp only [pc] at spent
    obtain ⟨left, room, inside, calls⟩ := spent
    simp only [FileServer.connEffect, pc, Option.some.injEq] at effect
    subst effect
    have more := Event.pos_of_advances.2 advances
    rcases ConnHandler.sendPc_cases (chars.advance bytesSent) with ⟨-, next⟩ | ⟨left, next⟩
    · simp only [next, Function.update_self, List.length_append, List.length_take]
      omega
    · simp only [next, Function.update_self, List.length_append, List.length_take,
        Putchars.advance_left, List.length_drop]
      exact ⟨left, by omega, inside, by omega⟩
  | sendFailed chars pc =>
    simp only [pc] at spent
    simp only [FileServer.connEffect, Option.some.injEq] at effect
    subst effect
    have pos := List.length_pos_of_ne_nil spent.1
    show n + 1 ≤ 7 + (s.conn i).packet.length + 2 * s.file.length
    omega
  | free pc =>
    simp only [pc] at spent
    cases effect
    show n + 1 ≤ 8 + (s.conn i).packet.length + 2 * s.file.length
    omega
  | closeFd pc ok =>
    simp only [pc] at spent
    cases effect
    show n + 1 ≤ 9 + (s.conn i).packet.length + 2 * s.file.length
    omega
  | closeConn pc ok =>
    simp only [pc] at spent
    cases effect
    show n + 1 ≤ 10 + (s.conn i).packet.length + 2 * s.file.length
    omega

theorem callsBy_append (t : Thread) (labels : List Label) (label : Label) :
    callsBy t (labels ++ [label]) = callsBy t labels + if label.thread = t then 1 else 0 := by
  simp [callsBy, List.countP_append, List.countP_singleton]

theorem Spent.run (run : Run FileServer.Step (.start file) labels s)
    (advances : ∀ event, .conn i event ∈ labels → event.advances) :
    s.Writing ∧ Spent (callsBy (.conn i) labels) s i := by
  refine run.history (P := fun labels s => (∀ event, .conn i event ∈ labels → event.advances) →
    s.Writing ∧ Spent (callsBy (.conn i) labels) s i) ?_ ?_ advances
  · intro _
    exact ⟨FileServer.writing_start file, rfl, rfl⟩
  rintro earlier label s s' - ih step advances
  obtain ⟨writing, before⟩ := ih fun event mem => advances event (List.mem_append_left _ mem)
  refine ⟨writing.step step, ?_⟩
  rw [callsBy_append]
  by_cases mine : label.thread = .conn i
  · cases label with
    | timer event => exact absurd mine (by simp [Label.thread])
    | conn j event =>
      obtain rfl : j = i := by simpa [Label.thread] using mine
      simpa [Label.thread] using before.own (writing.1 j) step (advances event (by simp))
  · simpa [mine] using before.other step mine

/-- Whatever the other threads do, and whether or not the mutex works, a connection is through
after so many calls: ten, one for each byte of its packet, and two for each byte of the file. Its
own `write` and `send` must take bytes when they do not fail. `sock_getline` counts as one call,
however often it calls `recv`. -/
theorem calls_bounded (run : Run FileServer.Step (.start file) labels s)
    (advances : ∀ event, .conn i event ∈ labels → event.advances) :
    callsBy (.conn i) labels ≤ 10 + (s.conn i).packet.length + 2 * s.file.length := by
  obtain ⟨writing, spent⟩ := Spent.run run advances
  unfold Spent at spent
  cases pc : (s.conn i).pc with
  | ioctl => simp only [pc] at spent
  | write chars =>
    simp only [pc] at spent
    have whole := congrArg List.length (writing.1 i chars pc).1
    simp only [Putchars.buffer, List.length_append] at whole
    omega
  | _ =>
    simp only [pc] at spent
    omega

/-- A line that is written in two parts to a file of two bytes. -/
theorem calls_bounded_two_parts : callsBy (.conn 0)
    [.conn 0 (.openFile true), .conn 0 (.getline (some [97, 10])), .conn 0 (.lock 0),
      .conn 0 (.write (some 1)), .conn 0 (.write (some 1)), .conn 0 (.unlock 0)] ≤
    10 + 2 + 2 * 4 := by
  have run : Run FileServer.Step (.start [120, 10])
      [.conn 0 (.openFile true), .conn 0 (.getline (some [97, 10])), .conn 0 (.lock 0),
        .conn 0 (.write (some 1)), .conn 0 (.write (some 1)), .conn 0 (.unlock 0)] _ :=
    .cons rfl (.cons rfl (.cons rfl (.cons rfl (.cons rfl (.cons rfl (.nil _))))))
  exact calls_bounded (i := 0) run (by simp [Event.advances])

end Aesd.Server
