import Aesd.Server.DeviceServer

/-! The writes of the server that keeps its data in the device: as long as packets are lines, the
owner of `write_mutex` is the only thread with bytes in the working entry, and each packet becomes
one stored line. -/

namespace Aesd.Server

open Aesd.CInt Aesd.Driver ProofKit

/-- A whole line: its only newline is its last byte. -/
def IsLine (packet : List UInt8) : Prop :=
  packet.getLast? = some newline ∧ newline ∉ packet.dropLast

instance (packet : List UInt8) : Decidable (IsLine packet) :=
  inferInstanceAs (Decidable (_ ∧ _))

theorem IsLine.eq_append {packet : List UInt8} (line : IsLine packet) :
    ∃ body, packet = body ++ [newline] ∧ newline ∉ body := by
  obtain ⟨ends, only⟩ := line
  exact ⟨packet.dropLast, (List.dropLast_append_getLast? _ ends).symm, only⟩

/-- The only part of a line that ends with a newline is the line. -/
theorem IsLine.lastByte_iff {packet part : List UInt8} (line : IsLine packet)
    (front : part <+: packet) (some_ : part ≠ []) (stray : UInt8) :
    lastByte part stray = newline ↔ part = packet := by
  obtain ⟨body, rfl, only⟩ := line.eq_append
  rcases List.prefix_concat_iff.mp front with whole | inner
  · exact iff_of_true (by rw [whole, lastByte]; simp) whole
  · refine iff_of_false ?_ ?_
    · intro ends
      rw [lastByte, List.getLast?_eq_some_getLast some_, Option.getD_some] at ends
      exact only (inner.subset (ends ▸ List.getLast_mem some_))
    · rintro rfl
      have le := inner.length_le
      simp at le

/-- What holds of the thread of connection `i` from before its `pthread_mutex_lock` until after its
`pthread_mutex_unlock`. -/
def ConnHandler.Writer (i : Nat) (mutex : Option Nat) (pending : List UInt8) (h : ConnHandler) :
    Prop :=
  match h.pc with
  | .lock => IsLine h.packet
  | .write chars => mutex = some i ∧ IsLine h.packet ∧ chars.buffer = h.packet ∧
      chars.left ≠ [] ∧ pending = chars.done
  | .unlock writeStatus => mutex = some i ∧ writeStatus = 0 ∧ pending = []
  | _ => True

/-- The driver holds its blocks, each writer is at its place, and without a writer no bytes wait. -/
structure Orderly (s : DeviceServer) : Prop where
  owned : s.module.Owned
  writer : ∀ i, (s.conn i).Writer i s.mutex s.pending
  waiting : s.mutex = none → s.pending = []

variable {s s' : DeviceServer} {call : DeviceCall} {i : Nat} {env : CallEnv} {event : Event}
  {chars : Putchars}

/-- A call that fails at most as a seek command does. -/
def DeviceCall.Ok (call : DeviceCall) : Prop :=
  call.event.failed = false ∨ call.event = .ioctl false

instance (call : DeviceCall) : Decidable call.Ok := inferInstanceAs (Decidable (_ ∨ _))

def Event.received : Event → Option (List UInt8)
  | .getline packet => packet
  | _ => none

/-- A packet that is received is a line. -/
def DeviceCall.Lines (call : DeviceCall) : Prop := ∀ packet ∈ call.event.received, IsLine packet

instance (call : DeviceCall) : Decidable call.Lines :=
  inferInstanceAs (Decidable (∀ packet ∈ call.event.received, IsLine packet))

theorem chunk_advance (chars : Putchars) :
    (chars.advance (chunk chars).length).done = chars.done ++ chunk chars ∧
      ((chars.advance (chunk chars).length).left = [] ↔ chars.left.length ≤ maxRwCount) := by
  constructor
  · simp [Putchars.advance, chunk]
  · simp only [Putchars.advance, chunk, List.drop_eq_nil_iff, List.length_take]
    omega

/-- A `write` stores the packet when it takes the rest of it, and otherwise leaves it waiting. -/
theorem Orderly.appended_eq (orderly : Orderly s) (pc : (s.conn i).pc = .write chars)
    (stray : UInt8) :
    appended s.stored s.pending (chunk chars) stray =
      if chars.left.length ≤ maxRwCount then (window 10 (s.stored ++ [(s.conn i).packet]), [])
      else (s.stored, (chars.advance (chunk chars).length).done) := by
  have writer := orderly.writer i
  rw [ConnHandler.Writer, pc] at writer
  obtain ⟨-, line, buffer, more, pending⟩ := writer
  have some_ : chunk chars ≠ [] := by
    intro empty
    have len := congrArg List.length empty
    have pos := List.length_pos_iff.mpr more
    simp only [chunk, List.length_take, List.length_nil, maxRwCount] at len
    omega
  obtain ⟨done, ended⟩ := chunk_advance chars
  have front : chars.done ++ chunk chars <+: (s.conn i).packet := by
    rw [← buffer]
    exact chars.advance_fits maxRwCount
  have last := line.lastByte_iff front (List.append_ne_nil_of_right_ne_nil _ some_) stray
  have whole : chars.done ++ chunk chars = (s.conn i).packet ↔
      chars.left.length ≤ maxRwCount := by
    rw [← ended, ← Putchars.done_eq_iff, Putchars.advance_buffer, buffer, done]
  rw [whole] at last
  rw [appended, pending, done]
  by_cases all : chars.left.length ≤ maxRwCount
  · rw [if_pos all, if_pos (last.mpr all), whole.mpr all]
  · rw [if_neg all, if_neg (mt last.mp all)]

namespace ConnHandler

variable {h : ConnHandler} {mutex : Option Nat} {pending : List UInt8}

theorem Writer.of_mutex_ne (writer : h.Writer i mutex pending) (notOwner : mutex ≠ some i)
    (mutex' : Option Nat) (pending' : List UInt8) : h.Writer i mutex' pending' := by
  unfold Writer at writer ⊢
  split at writer
  · exact writer
  · exact absurd writer.1 notOwner
  · exact absurd writer.1 notOwner
  · trivial

theorem writer_dispatch (line : IsLine h.packet) : (dispatch true h).Writer i mutex pending := by
  unfold dispatch
  split
  · split <;> trivial
  · exact line

theorem writer_writePc (line : IsLine h.packet) (buffer : chars.buffer = h.packet)
    (more : chars.left ≠ [] → pending = chars.done) (ended : chars.left = [] → pending = []) :
    Writer i (some i) pending { h with pc := writePc chars } := by
  unfold writePc
  split
  · rename_i left
    exact ⟨rfl, rfl, ended left⟩
  · rename_i left
    exact ⟨rfl, line, buffer, left, more left⟩

theorem writer_sendPc (h : ConnHandler) (chars : Putchars) :
    Writer i mutex pending { h with pc := sendPc chars } := by
  unfold sendPc
  split <;> trivial

end ConnHandler

namespace Orderly

theorem writes (orderly : Orderly s) (pc : (s.conn i).pc = .write chars) :
    s.mutex = some i ∧ IsLine (s.conn i).packet ∧ chars.buffer = (s.conn i).packet ∧
      chars.left ≠ [] ∧ s.pending = chars.done := by
  have writer := orderly.writer i
  rwa [ConnHandler.Writer, pc] at writer

theorem unlocks (orderly : Orderly s) {writeStatus : Int}
    (pc : (s.conn i).pc = .unlock writeStatus) :
    s.mutex = some i ∧ writeStatus = 0 ∧ s.pending = [] := by
  have writer := orderly.writer i
  rwa [ConnHandler.Writer, pc] at writer

/-- A `write` ends the packet and stores it, or leaves what it took of it waiting. -/
theorem write_cases (orderly : Orderly s) {d : Loaded} {stray : UInt8}
    (pc : (s.conn i).pc = .write chars)
    (data : (d.kernel.stored, d.kernel.pending) =
      appended s.stored s.pending (chunk chars) stray) :
    (chars.advance (chunk chars).length).left = [] ∧
        d.kernel.stored = window 10 (s.stored ++ [(s.conn i).packet]) ∧ d.kernel.pending = [] ∨
      (chars.advance (chunk chars).length).left ≠ [] ∧ d.kernel.stored = s.stored ∧
        d.kernel.pending = (chars.advance (chunk chars).length).done := by
  rw [orderly.appended_eq pc] at data
  by_cases all : chars.left.length ≤ maxRwCount
  · rw [if_pos all] at data
    obtain ⟨stored, pending⟩ := Prod.mk.inj data
    exact .inl ⟨(chunk_advance chars).2.mpr all, stored, pending⟩
  · rw [if_neg all] at data
    obtain ⟨stored, pending⟩ := Prod.mk.inj data
    exact .inr ⟨mt (chunk_advance chars).2.mp all, stored, pending⟩

/-- A call leaves the other threads at their places: they have no bytes waiting. -/
theorem others (orderly : Orderly s) (acts : Acts s i env event s') {j : Nat} (ne : j ≠ i) :
    (s'.conn j).Writer j s'.mutex s'.pending := by
  have writer := orderly.writer j
  rw [(acts.frame ne).1]
  have notMine : s.mutex = some i → s.mutex ≠ some j := by
    intro mine other
    exact ne (Option.some.inj (other.symm.trans mine))
  cases acts with
  | lock pc free => exact writer.of_mutex_ne (by simp [free]) _ _
  | write pc => exact writer.of_mutex_ne (notMine (orderly.writes pc).1) _ _
  | unlock pc | unlockFailed pc => exact writer.of_mutex_ne (notMine (orderly.unlocks pc).1) _ _
  | openFile _ same | ioctl _ same | ioctlFailed _ same | lseek _ same | read _ same
  | closeFd _ same =>
    have pending : ∀ h, (s.moved i _ h).pending = s.pending :=
      fun _ => congrArg Kernel.pending same.kernel
    rw [pending]
    exact writer
  | getline | send | free | closeConn => exact writer

theorem own (orderly : Orderly s) (acts : Acts s i env event s')
    (lines : ∀ packet ∈ event.received, IsLine packet) :
    (s'.conn i).Writer i s'.mutex s'.pending := by
  have writer := orderly.writer i
  cases acts with
  | getline pc packet =>
    rw [DeviceServer.moved_conn_self]
    exact ConnHandler.writer_dispatch (lines packet rfl)
  | lock pc free =>
    rw [ConnHandler.Writer, pc] at writer
    rw [DeviceServer.moved_conn_self]
    refine ConnHandler.writer_writePc writer rfl ?_ ?_
    · intro _
      exact orderly.waiting free
    · intro _
      exact orderly.waiting free
  | @write d chars pc fPos data =>
    obtain ⟨mutex, line, buffer, -, -⟩ := orderly.writes pc
    rw [DeviceServer.moved_conn_self, DeviceServer.moved_mutex, mutex]
    refine ConnHandler.writer_writePc line ((chars.advance_buffer _).trans buffer) ?_ ?_
    · intro more
      rcases orderly.write_cases pc data with ⟨ended, -⟩ | ⟨-, -, pending⟩
      · exact absurd ended more
      · exact pending
    · intro ended
      rcases orderly.write_cases pc data with ⟨-, -, pending⟩ | ⟨more, -⟩
      · exact pending
      · exact absurd ended more
  | send =>
    rw [DeviceServer.moved_conn_self]
    exact ConnHandler.writer_sendPc _ _
  | @read d buffer =>
    rw [DeviceServer.moved_conn_self]
    by_cases empty : buffer = []
    · rw [if_pos empty]
      trivial
    · rw [if_neg empty]
      trivial
  | _ =>
    rw [DeviceServer.moved_conn_self]
    trivial

theorem waits (orderly : Orderly s) (acts : Acts s i env event s') (free : s'.mutex = none) :
    s'.pending = [] := by
  cases acts with
  | lock => contradiction
  | write pc =>
    rw [DeviceServer.moved_mutex, (orderly.writes pc).1] at free
    contradiction
  | unlock pc | unlockFailed pc => exact (orderly.unlocks pc).2.2
  | openFile _ same | ioctl _ same | ioctlFailed _ same | lseek _ same | read _ same
  | closeFd _ same => exact (congrArg Kernel.pending same.kernel).trans (orderly.waiting free)
  | getline | send | free | closeConn => exact orderly.waiting free

theorem step (orderly : Orderly s) (step : s.Step call s') (ok : call.Ok) (lines : call.Lines) :
    Orderly s' := by
  have acts := DeviceServer.step_acts orderly.owned step ok
  refine ⟨DeviceServer.step_owned orderly.owned step, ?_, orderly.waits acts⟩
  intro j
  by_cases mine : j = call.conn
  · rw [mine]
    exact orderly.own acts lines
  · exact orderly.others acts mine

theorem start {heap : KHeap} {initEnv : InitEnv} {kernel : Kernel}
    (init : aesdInitModule heap initEnv = (0, kernel)) : Orderly (.start kernel) := by
  obtain ⟨base, holds⟩ := aesdInitModule_holds init
  exact ⟨⟨base, _, _, _, holds⟩, fun _ => trivial, fun _ => holds.pending_eq⟩

/-- Every run is orderly. -/
theorem run {calls : List DeviceCall} (run : Run DeviceServer.Step s calls s')
    (orderly : Orderly s) (ok : ∀ call ∈ calls, call.Ok) (lines : ∀ call ∈ calls, call.Lines) :
    Orderly s' := by
  induction run with
  | nil => exact orderly
  | cons step _ ih =>
    simp only [List.forall_mem_cons] at ok lines
    exact ih (orderly.step step ok.1 lines.1) ok.2 lines.2

end Orderly

end Aesd.Server
