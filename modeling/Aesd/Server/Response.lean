import Aesd.Server.Records

/-! The response of the server that keeps its data in a file. The file only grows, so what a thread
has read of it stays its beginning, whoever writes in between: the response is the whole file as it
was when the thread found nothing more to read. -/

namespace Aesd.Server

open ProofKit

variable {s s' t : FileServer} {label : Label} {labels : List Label} {file : List UInt8} {i : Nat}
  {event : Event}

namespace FileServer

theorem Step.unique {u : FileServer} (step : s.Step label t) (other : s.Step label u) : t = u :=
  Option.some.inj (step.symm.trans other)

theorem connEffect_grows {j : Nat} (effect : s.connEffect j event = some s') :
    s.file <+: s'.file := by
  unfold connEffect mutexLock mutexUnlock at effect
  repeat' split at effect
  all_goals first
    | contradiction
    | (cases effect; exact List.prefix_append _ _)
    | (cases effect; exact List.prefix_refl _)

theorem Step.grows (step : s.Step label s') : s.file <+: s'.file := by
  cases label with
  | conn j event =>
    obtain ⟨h, e, -, effect, rfl⟩ := step_conn step
    have grows := connEffect_grows effect
    exact grows
  | timer event =>
    obtain ⟨h, e, -, effect, rfl⟩ := step_timer step
    unfold timerEffect mutexLock mutexUnlock at effect
    repeat' split at effect
    all_goals first
      | contradiction
      | (cases effect; exact List.prefix_append _ _)
      | (cases effect; exact List.prefix_refl _)

theorem grows (run : Run Step s labels t) : s.file <+: t.file :=
  run.mono (R := fun s t => s.file <+: t.file) (fun _ => List.prefix_refl _)
    (fun {s t u} (first : s.file <+: t.file) (second : t.file <+: u.file) => first.trans second)
    (fun _ _ _ => Step.grows)

theorem Step.frame (step : s.Step label s') (other : label.thread ≠ .conn i) :
    s'.conn i = s.conn i ∧ s'.offset i = s.offset i ∧ s'.sent i = s.sent i := by
  cases label with
  | conn j event =>
    have ne : i ≠ j := fun eq => other (by rw [eq]; rfl)
    obtain ⟨h, e, -, effect, rfl⟩ := step_conn step
    unfold connEffect mutexLock mutexUnlock at effect
    repeat' split at effect
    all_goals first
      | contradiction
      | (cases effect; simp [Function.update_of_ne ne])
  | timer event =>
    obtain ⟨h, e, -, effect, rfl⟩ := step_timer step
    unfold timerEffect mutexLock mutexUnlock at effect
    repeat' split at effect
    all_goals first
      | contradiction
      | (cases effect; exact ⟨rfl, rfl, rfl⟩)

end FileServer

theorem Ledger.exists_run (run : Run FileServer.Step (.start file) labels s) :
    ∃ l, Run Ledger.Step (.start file) labels l ∧ l.server = s := by
  refine run.history (P := fun labels s => ∃ l, Run Ledger.Step (.start file) labels l ∧
    l.server = s) ⟨.start file, .nil _, rfl⟩ ?_
  rintro earlier label s s' - ⟨l, noted, rfl⟩ step
  exact ⟨_, noted.append (.single (Ledger.step_noted step)), rfl⟩

/-- What `i` sent is the file as it was when its last read found nothing more. -/
def Snapshot (file : List UInt8) (labels : List Label) (s : FileServer) (i : Nat) : Prop :=
  ∃ before after m, labels = before ++ .conn i (.read (some [])) :: after ∧
    Run FileServer.Step (.start file) before m ∧
    (∀ label ∈ after, ∀ buffer, label ≠ .conn i (.read buffer)) ∧
    s.sent i = m.file ∧ (s.conn i).packet <:+: m.file

/-- What connection `i` has sent, and where its packet is, at each of its calls. -/
def Responding (file : List UInt8) (labels : List Label) (s : FileServer) (i : Nat) : Prop :=
  match (s.conn i).pc with
  | .openFile | .getline | .lock | .write _ => s.sent i = []
  | .unlock writeStatus => s.sent i = [] ∧ (0 ≤ writeStatus → (s.conn i).packet <:+: s.file)
  | .lseek => s.sent i = [] ∧ (s.conn i).packet <:+: s.file
  | .read => s.offset i ≤ s.file.length ∧ s.sent i = s.file.take (s.offset i) ∧
    (s.conn i).packet <:+: s.file
  | .send chars => s.offset i ≤ s.file.length ∧
    s.sent i ++ chars.left = s.file.take (s.offset i) ∧ (s.conn i).packet <:+: s.file
  | .ioctl _ => False
  | .free | .closeFd | .closeConn | .exited =>
    (s.conn i).abort = true ∨ Snapshot file labels s i

theorem Snapshot.step (snap : Snapshot file labels s i)
    (noRead : ∀ buffer, label ≠ .conn i (.read buffer)) (sent : s'.sent i = s.sent i)
    (packet : (s'.conn i).packet = (s.conn i).packet) :
    Snapshot file (labels ++ [label]) s' i := by
  obtain ⟨before, after, m, split, run, last, whole, own⟩ := snap
  refine ⟨before, after ++ [label], m, by simp [split], run, fun l mem => ?_, by rw [sent, whole],
    by rwa [packet]⟩
  rcases List.mem_append.mp mem with old | new
  · exact last l old
  · exact List.mem_singleton.mp new ▸ noRead

theorem take_eq_of_grows {xs ys : List UInt8} {n : Nat} (front : xs <+: ys) (le : n ≤ xs.length) :
    ys.take n = xs.take n := by
  obtain ⟨rest, rfl⟩ := front
  exact List.take_append_of_le_length le

/-- What others do keeps what connection `i` relies on. -/
theorem Responding.other (inv : Responding file labels s i) (step : s.Step label s')
    (other : label.thread ≠ .conn i) : Responding file (labels ++ [label]) s' i := by
  obtain ⟨conn, offset, sent⟩ := step.frame other
  have grows := step.grows
  have longer := grows.length_le
  have noRead : ∀ buffer, label ≠ .conn i (.read buffer) := by
    rintro buffer rfl
    exact other rfl
  have still {packet : List UInt8} (own : packet <:+: s.file) : packet <:+: s'.file :=
    own.trans grows.isInfix
  unfold Responding at inv ⊢
  rw [conn, offset, sent]
  cases pc : (s.conn i).pc with
  | ioctl => simp only [pc] at inv
  | openFile | getline | lock | write =>
    simp only [pc] at inv ⊢
    exact inv
  | unlock =>
    simp only [pc] at inv ⊢
    exact ⟨inv.1, fun ok => still (inv.2 ok)⟩
  | lseek =>
    simp only [pc] at inv ⊢
    exact ⟨inv.1, still inv.2⟩
  | read | send =>
    simp only [pc] at inv ⊢
    obtain ⟨le, front, own⟩ := inv
    exact ⟨by omega, by rw [front, take_eq_of_grows grows le], still own⟩
  | free | closeFd | closeConn | exited =>
    simp only [pc] at inv ⊢
    exact inv.imp_right fun snap => snap.step noRead sent (by rw [conn])

theorem Ledger.done_suffix {l : Ledger} (run : Run Ledger.Step (.start file) labels l)
    (ok : ∀ label ∈ labels, label.mutexError = 0) {t : Thread} {record done : List UInt8}
    (stage : l.server.stage t = .writing record done) : done <:+ l.server.file := by
  obtain ⟨blocks, current, log, -, inside⟩ := Ledger.intact run ok
  obtain ⟨rfl, -⟩ := inside.writing stage
  have log : l.server.file = file ++ blocks.flatten ++ current := log
  rw [log]
  exact List.suffix_append _ _

/-- What its own calls do keeps what connection `i` relies on. -/
theorem Responding.own (inv : Responding file labels s i)
    (run : Run FileServer.Step (.start file) labels s) (writing : (s.conn i).Writing)
    (ends : ∀ chars, (s.conn i).pc = .write chars → chars.done <:+ s.file)
    (step : s.Step (.conn i event) s') :
    Responding file (labels ++ [.conn i event]) s' i := by
  obtain ⟨h, e, moved, effect, rfl⟩ := FileServer.step_conn step
  unfold Responding at inv ⊢
  simp only [Function.update_self]
  cases ConnHandler.step_moves moved with
  | openFile pc =>
    simp only [pc] at inv
    cases effect
    exact inv
  | openFailed pc => exact .inl rfl
  | getline pc packet =>
    simp only [pc] at inv
    simp only [FileServer.connEffect, Option.some.injEq] at effect
    subst effect
    exact inv
  | getlineFailed pc => exact .inl rfl
  | ioctl seekto pc => simp only [pc] at inv
  | ioctlFailed seekto pc => simp only [pc] at inv
  | lock pc error =>
    simp only [pc] at inv
    have sent : e.sent = s.sent := by
      simp only [FileServer.connEffect, FileServer.mutexLock] at effect
      repeat' split at effect
      all_goals first | contradiction | (cases effect; rfl)
    by_cases empty : (s.conn i).packet = []
    · simp [ConnHandler.writePc, Putchars.start, empty, sent, inv]
    · simp [ConnHandler.writePc, Putchars.start, empty, sent, inv]
  | write chars pc bytesSent le =>
    simp only [pc] at inv
    simp only [FileServer.connEffect, pc, Option.some.injEq] at effect
    subst effect
    obtain ⟨buffer, -⟩ := writing chars pc
    by_cases more : (chars.advance bytesSent).left = []
    · -- the record is complete, and the file ends with it
      have whole : chars.done ++ chars.left.take bytesSent = (s.conn i).packet := by
        rw [← Putchars.advance_done, Putchars.done_eq more, Putchars.advance_buffer, buffer]
      obtain ⟨before, split⟩ := ends chars pc
      have packet : (s.conn i).packet <:+: s.file ++ chars.left.take bytesSent := by
        rw [← split, List.append_assoc, whole]
        exact (List.suffix_append _ _).isInfix
      simpa only [ConnHandler.writePc, more, if_true] using ⟨inv, fun _ => packet⟩
    · simpa only [ConnHandler.writePc, more, if_false] using inv
  | writeFailed chars pc =>
    simp only [pc] at inv
    simp only [FileServer.connEffect, Option.some.injEq] at effect
    subst effect
    exact ⟨inv, fun positive => absurd positive (by decide)⟩
  | unlock writeStatus pc positive =>
    simp only [pc] at inv
    simp only [FileServer.connEffect, FileServer.mutexUnlock, ne_eq, not_true_eq_false, if_false,
      Option.some.injEq] at effect
    subst effect
    exact ⟨inv.1, inv.2 positive⟩
  | unlockFailed => exact .inl rfl
  | lseek pc =>
    simp only [pc] at inv
    simp only [FileServer.connEffect, Option.some.injEq] at effect
    subst effect
    exact ⟨by simp, by simpa using inv.1, inv.2⟩
  | lseekFailed => exact .inl rfl
  | readEnd pc =>
    simp only [pc] at inv
    obtain ⟨le, front, own⟩ := inv
    simp only [FileServer.connEffect, FileServer.canRead, if_true, decide_eq_true_eq,
      Option.ite_none_right_eq_some, Option.some.injEq] at effect
    obtain ⟨past, rfl⟩ := effect
    refine .inr ⟨labels, [], s, rfl, run, by simp, ?_, by simpa using own⟩
    rw [front, List.take_of_length_le past]
  | read pc buffer some_ _ =>
    simp only [pc] at inv
    obtain ⟨le, front, own⟩ := inv
    simp only [FileServer.connEffect, FileServer.canRead, some_, if_false,
      Option.ite_none_right_eq_some, Option.some.injEq, List.isPrefixOf_iff_prefix] at effect
    obtain ⟨⟨rest, next⟩, rfl⟩ := effect
    have len := congrArg List.length next
    simp only [List.length_append, List.length_drop] at len
    refine ⟨by simp only [Function.update_self]; omega, ?_, own⟩
    simp only [Function.update_self, Putchars.start, front]
    rw [List.take_add, ← next, List.take_left]
  | readFailed => exact .inl rfl
  | send chars pc bytesSent _ =>
    simp only [pc] at inv
    obtain ⟨le, front, own⟩ := inv
    simp only [FileServer.connEffect, pc, Option.some.injEq] at effect
    subst effect
    have split : s.sent i ++ chars.left.take bytesSent ++ chars.left.drop bytesSent =
        s.file.take (s.offset i) := by
      rw [List.append_assoc, List.take_append_drop, front]
    by_cases more : (chars.advance bytesSent).left = []
    · rw [show chars.left.drop bytesSent = [] from more, List.append_nil] at split
      simpa only [ConnHandler.sendPc, more, if_true, Function.update_self] using
        ⟨le, split, own⟩
    · simpa only [ConnHandler.sendPc, more, if_false, Function.update_self] using
        ⟨le, split, own⟩
  | sendFailed => exact .inl rfl
  | free pc =>
    simp only [pc] at inv
    cases effect
    exact inv.imp_right fun snap => snap.step (by simp) rfl (by simp)
  | closeFd pc ok =>
    simp only [pc] at inv
    simp only [FileServer.connEffect, Option.some.injEq] at effect
    subst effect
    exact inv.imp (fun abort => by simp [abort]) fun snap => snap.step (by simp) rfl (by simp)
  | closeConn pc ok =>
    simp only [pc] at inv
    simp only [FileServer.connEffect, Option.some.injEq] at effect
    subst effect
    exact inv.imp (fun abort => by simp [abort]) fun snap => snap.step (by simp) rfl (by simp)

theorem Responding.run (run : Run FileServer.Step (.start file) labels s)
    (ok : ∀ label ∈ labels, label.mutexError = 0) (i : Nat) : Responding file labels s i := by
  refine run.history (P := fun labels s => (∀ label ∈ labels, label.mutexError = 0) →
    Responding file labels s i) ?_ ?_ ok
  · intro _
    rfl
  intro earlier label s s' run ih step ok
  have okBefore : ∀ l ∈ earlier, l.mutexError = 0 := fun l mem => ok l (List.mem_append_left _ mem)
  have inv := ih okBefore
  by_cases mine : label.thread = .conn i
  · cases label with
    | timer event => exact absurd mine (by simp [Label.thread])
    | conn j event =>
      obtain rfl : j = i := by simpa [Label.thread] using mine
      obtain ⟨l, noted, rfl⟩ := Ledger.exists_run run
      have writing := (Ledger.simulates noted okBefore).1.1 j
      refine inv.own run writing (fun chars pc => ?_) step
      have stage : l.server.stage (.conn j) = .writing (l.server.conn j).packet chars.done := by
        simp [FileServer.stage, ConnHandler.stage, pc]
      exact Ledger.done_suffix noted okBefore stage
  · exact inv.other step mine

/-- A response is the whole file at one moment. In a run in which the mutex works, a thread that
ends with result 0 has sent the file as it was when its last read, the one that returned 0, found
nothing more. At every moment before that the file was a beginning of it, and the packet of the
thread is one block of it. -/
theorem response_is_whole_file (run : Run FileServer.Step (.start file) labels s)
    (ok : ∀ label ∈ labels, label.mutexError = 0) (exited : (s.conn i).pc = .exited)
    (success : (s.conn i).retval = 0) :
    ∃ before after m, labels = before ++ .conn i (.read (some [])) :: after ∧
      Run FileServer.Step (.start file) before m ∧
      (∀ label ∈ after, ∀ buffer, label ≠ .conn i (.read buffer)) ∧
      s.sent i = m.file ∧ (s.conn i).packet <:+: m.file ∧
      ∀ earlier later m', before = earlier ++ later →
        Run FileServer.Step (.start file) earlier m' → m'.file <+: m.file := by
  have inv := Responding.run run ok i
  unfold Responding at inv
  rw [exited] at inv
  have clean : (s.conn i).abort = false := by
    by_contra abort
    simp [ConnHandler.retval, abort] at success
  obtain ⟨before, after, m, split, first, last, whole, own⟩ := inv.resolve_left (by simp [clean])
  refine ⟨before, after, m, split, first, last, whole, own, ?_⟩
  rintro earlier later m' rfl run'
  obtain ⟨m'', first', second⟩ := first.split
  obtain rfl := Run.deterministic
    (fun s l t u (step : s.Step l t) (other : s.Step l u) => step.unique other)
    run' first'
  exact FileServer.grows second

/-- A client adds `"a\n"` to a file that holds `"x\n"`, in two parts, and is sent both lines. -/
theorem response_two_lines : ∃ before : List Label, ∃ m : FileServer,
    Run FileServer.Step (.start [120, 10]) before m ∧ [120, 10, 97, 10] = m.file ∧
      [97, 10] <:+: m.file := by
  have run : Run FileServer.Step (.start [120, 10])
      [.conn 0 (.openFile true), .conn 0 (.getline (some [97, 10])), .conn 0 (.lock 0),
        .conn 0 (.write (some 1)), .conn 0 (.write (some 1)), .conn 0 (.unlock 0),
        .conn 0 (.lseek true), .conn 0 (.read (some [120, 10, 97, 10])), .conn 0 (.send (some 4)),
        .conn 0 (.read (some [])), .conn 0 .free, .conn 0 (.closeFd true),
        .conn 0 (.closeConn true)] _ :=
    .cons rfl (.cons rfl (.cons rfl (.cons rfl (.cons rfl (.cons rfl (.cons rfl (.cons rfl
      (.cons rfl (.cons rfl (.cons rfl (.cons rfl (.cons rfl (.nil _)))))))))))))
  obtain ⟨before, -, m, -, first, -, whole, own, -⟩ :=
    response_is_whole_file (i := 0) run (by decide) rfl rfl
  exact ⟨before, m, first, whole, own⟩

end Aesd.Server
