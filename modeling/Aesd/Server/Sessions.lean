import Aesd.Server.Response

/-! What the clients of the server that keeps its data in a file are told about each other. Each
response is the file at the moment of the last read for it, so the responses are ordered as these
reads are, and that order respects what the clients can observe: a session that was answered before
another one was, or whose line was stored before, is part of the later response. -/

namespace Aesd.Server

open ProofKit

variable {s m n : FileServer} {labels before earlier : List Label} {file : List UInt8} {i j : Nat}

namespace ConnHandler

/-- The last read for the response is over, or there will be none. -/
def Answered (h : ConnHandler) : Prop :=
  match h.pc with
  | .free | .closeFd | .closeConn | .exited => True
  | _ => False

/-- The packet was written, and the mutex given back. -/
def HasStored (h : ConnHandler) : Prop :=
  match h.pc with
  | .lseek | .read | .send _ => True
  | .free | .closeFd | .closeConn | .exited => h.abort = false
  | _ => False

/-- The thread ended, and the value that it left for `pthread_join` is 0. -/
def Succeeded (h : ConnHandler) : Prop := h.pc = .exited ∧ h.retval = 0

theorem Answered.step {h h' : ConnHandler} {useAesdCharDevice : Bool} {event : Event}
    (answered : h.Answered) (step : h.step useAesdCharDevice event = some h') : h'.Answered := by
  unfold Answered at answered
  cases step_moves step with
  | openFailed | free | closeFd | closeConn => trivial
  | openFile pc | getline pc | getlineFailed pc | ioctl _ pc | ioctlFailed _ pc | lock pc
    | write _ pc | writeFailed _ pc | unlock _ pc | unlockFailed _ pc | lseek pc | lseekFailed pc
    | readEnd pc | read pc | readFailed pc | send _ pc | sendFailed _ pc =>
    simp only [pc] at answered

end ConnHandler

theorem ConnHandler.Answered.run (answered : (m.conn i).Answered)
    (run : Run FileServer.Step m labels s) : (s.conn i).Answered := by
  refine run.invariant (P := fun s => (s.conn i).Answered) (fun s label t answered step => ?_)
    answered
  cases label with
  | timer event => rwa [(step.frame (i := i) (by simp [Label.thread])).1]
  | conn j event =>
    by_cases mine : j = i
    · subst mine
      obtain ⟨h, e, moved, -, rfl⟩ := FileServer.step_conn step
      simpa using answered.step moved
    · rwa [(step.frame (i := i) (by simpa [Label.thread] using mine)).1]

/-- Two moments of one run: the file of the earlier one is a beginning of the file of the later
one. -/
theorem FileServer.file_of_earlier (first : Run FileServer.Step (.start file) earlier m)
    (second : Run FileServer.Step (.start file) before n) (le : earlier <+: before) :
    Run FileServer.Step m (before.drop earlier.length) n ∧ m.file <+: n.file := by
  obtain ⟨more, rfl⟩ := le
  obtain ⟨m', first', rest⟩ := second.split
  obtain rfl := Run.deterministic
    (fun s l t u (step : s.Step l t) (other : s.Step l u) => step.unique other) first first'
  rw [List.drop_left]
  exact ⟨rest, FileServer.grows rest⟩

/-- The call that finds nothing more to read answers the connection. -/
theorem answered_at_end (step : m.Step (.conn i (.read (some []))) s) :
    ¬ (m.conn i).Answered ∧ (s.conn i).Answered := by
  obtain ⟨h, e, moved, -, rfl⟩ := FileServer.step_conn step
  simp only [Function.update_self]
  cases ConnHandler.step_moves moved with
  | readEnd pc => exact ⟨by simp [ConnHandler.Answered, pc], trivial⟩
  | read pc buffer some_ => exact absurd rfl some_

/-- Whether connection `i` is answered at a moment is whether its last read was before. -/
theorem answered_iff {after : List Label}
    (run : Run FileServer.Step (.start file) (earlier ++ .conn i (.read (some [])) :: after) s)
    (first : Run FileServer.Step (.start file) before m)
    (moment : before <+: earlier ++ .conn i (.read (some [])) :: after) :
    (m.conn i).Answered ↔ earlier ++ [.conn i (.read (some []))] <+: before := by
  obtain ⟨p, toRead, rest⟩ := run.split
  cases rest with
  | @cons _ q _ _ _ reads rest =>
    obtain ⟨pending, answered⟩ := answered_at_end reads
    constructor
    · intro already
      by_contra notYet
      have short : before.length ≤ earlier.length := by
        by_contra long
        refine notYet (List.prefix_of_prefix_length_le ⟨after, by simp⟩ moment ?_)
        simp only [List.length_append, List.length_singleton]
        omega
      have le := List.prefix_of_prefix_length_le moment (List.prefix_append _ _) short
      exact pending (already.run (FileServer.file_of_earlier first toRead le).1)
    · intro le
      exact answered.run (FileServer.file_of_earlier (toRead.append (.single reads)) first le).1

/-- What a stored packet was written to. -/
theorem Responding.stored (inv : Responding file labels s i)
    (run : Run FileServer.Step (.start file) labels s) (stored : (s.conn i).HasStored) :
    (s.conn i).packet <:+: s.file := by
  unfold Responding at inv
  unfold ConnHandler.HasStored at stored
  cases pc : (s.conn i).pc with
  | openFile | getline | ioctl | lock | write | unlock => simp only [pc] at stored
  | lseek =>
    simp only [pc] at inv
    exact inv.2
  | read | send =>
    simp only [pc] at inv
    exact inv.2.2
  | free | closeFd | closeConn | exited =>
    simp only [pc] at inv stored
    obtain ⟨before, after, m, rfl, first, -, -, own⟩ := inv.resolve_left (by simp [stored])
    exact own.trans (FileServer.file_of_earlier first run (List.prefix_append _ _)).2.isInfix

theorem ConnHandler.Succeeded.snapshot (run : Run FileServer.Step (.start file) labels s)
    (ok : ∀ label ∈ labels, label.mutexError = 0) (succeeded : (s.conn i).Succeeded) :
    Snapshot file labels s i := by
  obtain ⟨exited, success⟩ := succeeded
  have inv := Responding.run run ok i
  unfold Responding at inv
  simp only [exited] at inv
  refine inv.resolve_left fun abort => ?_
  simp [ConnHandler.retval, abort] at success

/-- Two sessions of a run in which the mutex works, both with result 0. One response is a beginning
of the other. When at some moment one client is still to be answered, its response will contain the
line of the other if that is stored at that moment, and the whole response of the other if that has
been answered. -/
theorem sessions_agree (run : Run FileServer.Step (.start file) labels s)
    (ok : ∀ label ∈ labels, label.mutexError = 0) (one : (s.conn i).Succeeded)
    (other : (s.conn j).Succeeded) :
    (s.sent i <+: s.sent j ∨ s.sent j <+: s.sent i) ∧
      ∀ before after m, labels = before ++ after → Run FileServer.Step (.start file) before m →
        ¬ (m.conn j).Answered →
        ((m.conn i).HasStored → (m.conn i).packet <:+: s.sent j) ∧
          ((m.conn i).Answered → s.sent i <+: s.sent j) := by
  obtain ⟨upTo, past, p, split, toRead, -, whole, -⟩ := one.snapshot run ok
  obtain ⟨upTo', past', p', split', toRead', -, whole', -⟩ := other.snapshot run ok
  have front : upTo <+: labels := ⟨_, split.symm⟩
  have front' : upTo' <+: labels := ⟨_, split'.symm⟩
  rw [whole, whole']
  refine ⟨?_, ?_⟩
  · rcases Nat.le_total upTo.length upTo'.length with le | le
    · have earlier := List.prefix_of_prefix_length_le front front' le
      exact .inl (FileServer.file_of_earlier toRead toRead' earlier).2
    · have earlier := List.prefix_of_prefix_length_le front' front le
      exact .inr (FileServer.file_of_earlier toRead' toRead earlier).2
  · rintro before after m moment first pending
    have inside : before <+: labels := ⟨_, moment.symm⟩
    -- the last read of `j` is yet to come
    have later : before <+: upTo' := by
      rw [answered_iff (split' ▸ run) first (split' ▸ inside)] at pending
      refine List.prefix_of_prefix_length_le inside front' (Nat.not_lt.mp fun long => pending ?_)
      refine List.prefix_of_prefix_length_le ⟨past', by simp [split']⟩ inside ?_
      rwa [List.length_append, List.length_singleton, Nat.succ_le_iff]
    have toLater := (FileServer.file_of_earlier first toRead' later).2
    refine ⟨fun stored => ?_, fun answered => ?_⟩
    · have okBefore : ∀ label ∈ before, label.mutexError = 0 := fun label mem =>
        ok label (moment ▸ List.mem_append_left _ mem)
      have own := (Responding.run first okBefore i).stored first stored
      exact own.trans toLater.isInfix
    · rw [answered_iff (split ▸ run) first (split ▸ inside)] at answered
      have earlier := (List.prefix_append upTo _).trans answered
      exact (FileServer.file_of_earlier toRead first earlier).2.trans toLater

/-- The second client to connect is sent the line of the first and its own. -/
theorem sessions_agree_two_lines : ∃ s : FileServer, s.sent 0 = [97, 10] ∧ s.sent 0 <+: s.sent 1 ∧
    [97, 10] <:+: s.sent 1 := by
  let session (i : Nat) (line response : List UInt8) : List Label :=
    [.conn i (.openFile true), .conn i (.getline (some line)), .conn i (.lock 0),
      .conn i (.write (some 2)), .conn i (.unlock 0), .conn i (.lseek true),
      .conn i (.read (some response)), .conn i (.send (some response.length)),
      .conn i (.read (some [])), .conn i .free, .conn i (.closeFd true), .conn i (.closeConn true)]
  have first : Run FileServer.Step (.start []) (session 0 [97, 10] [97, 10]) _ :=
    .cons rfl (.cons rfl (.cons rfl (.cons rfl (.cons rfl (.cons rfl (.cons rfl (.cons rfl
      (.cons rfl (.cons rfl (.cons rfl (.cons rfl (.nil _))))))))))))
  have both : Run FileServer.Step (.start [])
      (session 0 [97, 10] [97, 10] ++ session 1 [98, 10] [97, 10, 98, 10]) _ :=
    .cons rfl (.cons rfl (.cons rfl (.cons rfl (.cons rfl (.cons rfl (.cons rfl (.cons rfl
      (.cons rfl (.cons rfl (.cons rfl (.cons rfl (.cons rfl (.cons rfl (.cons rfl (.cons rfl
        (.cons rfl (.cons rfl (.cons rfl (.cons rfl (.cons rfl (.cons rfl (.cons rfl
          (.cons rfl (.nil _))))))))))))))))))))))))
  obtain ⟨-, agree⟩ := sessions_agree (i := 0) (j := 1) both (by decide) ⟨rfl, rfl⟩ ⟨rfl, rfl⟩
  obtain ⟨line, whole⟩ := agree _ _ _ rfl first (fun answered => answered)
  exact ⟨_, rfl, whole trivial, line rfl⟩

end Aesd.Server
