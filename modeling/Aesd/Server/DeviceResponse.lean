import Aesd.Server.Orderly

/-! The response of the server that keeps its data in the device. The positions of the readers are
offsets into a window that slides when a line is stored in a full ring, so a response is the
contents of one moment as long as no reader is under way then, or has nothing more to read before
and after. -/

namespace Aesd.Server

open Aesd.CInt Aesd.Driver ProofKit

/-- The thread has written its packet, and its last `read` is still to come. -/
def Pc.responding : Pc → Bool
  | .unlock _ | .lseek | .read | .send _ => true
  | _ => false

/-- The thread has left its read loop. -/
def Pc.ended : Pc → Bool
  | .free | .closeFd | .closeConn | .exited => true
  | _ => false

/-- In the run, the device contents were `bytes` at a moment after connection `i` wrote its packet
and before its last `read`. -/
def Instant (kernel : Kernel) (calls : List DeviceCall) (s : DeviceServer) (i : Nat)
    (bytes : List UInt8) : Prop :=
  ∃ before m after, calls = before ++ after ∧ Run DeviceServer.Step (.start kernel) before m ∧
    Run DeviceServer.Step m after s ∧ (m.conn i).pc.responding ∧ m.contents = bytes

/-- The device contents once `packet` is stored. -/
def DeviceServer.contentsWith (s : DeviceServer) (packet : List UInt8) : List UInt8 :=
  (window 10 (s.stored ++ [packet])).flatten

/-- When the call stores a line in a full ring, each thread whose read loop is under way has nothing
more to read, before and after. -/
def Calm (s : DeviceServer) (call : DeviceCall) : Prop :=
  ∀ chars, (s.conn call.conn).pc = .write chars → chars.left.length ≤ maxRwCount →
    s.stored.length = 10 → ∀ j, (s.conn j).isData →
      (s.conn j).pc = .read ∨ (∃ chars, (s.conn j).pc = .send chars) → 0 < s.module.fPos j →
        s.contents.length ≤ s.module.fPos j ∧
          (s.contentsWith (s.conn call.conn).packet).length ≤ s.module.fPos j

/-- A call that leaves the reads under way alone. -/
def CalmStep (s : DeviceServer) (call : DeviceCall) (s' : DeviceServer) : Prop :=
  s.Step call s' ∧ Calm s call

variable {kernel : Kernel} {calls : List DeviceCall} {s s' : DeviceServer} {call : DeviceCall}
  {i : Nat} {bytes got : List UInt8} {env : CallEnv} {event : Event}

theorem Instant.step (instant : Instant kernel calls s i bytes) (step : s.Step call s') :
    Instant kernel (calls ++ [call]) s' i bytes := by
  obtain ⟨before, m, after, rfl, first, second, responding, contents⟩ := instant
  exact ⟨before, m, after ++ [call], by simp, first, second.append (.single step), responding,
    contents⟩

theorem Instant.now (run : Run DeviceServer.Step (.start kernel) calls s)
    (responding : (s.conn i).pc.responding) (step : s.Step call s') :
    Instant kernel (calls ++ [call]) s' i s.contents :=
  ⟨calls, s, [call], rfl, run, .single step, responding, rfl⟩

/-- A read loop that took `got` so far, which is the beginning of the contents, or all there was at
one moment: then the ring is full, and there is nothing more to read. -/
def Reading (kernel : Kernel) (calls : List DeviceCall) (s : DeviceServer) (i : Nat)
    (got : List UInt8) : Prop :=
  ∃ p : Nat, s.module.fPos i = p ∧ p ≤ 10 * 2 ^ 31 ∧
    (p ≤ s.contents.length ∧ got = s.contents.take p ∨
      0 < p ∧ s.contents.length ≤ p ∧ s.stored.length = 10 ∧ Instant kernel calls s i got)

/-- What holds of the response of connection `i` when its packet is not a seek command. -/
def Answering (kernel : Kernel) (calls : List DeviceCall) (s : DeviceServer) (i : Nat) : Prop :=
  match (s.conn i).pc with
  | .ioctl _ => ¬ (s.conn i).isData
  | .read => (s.conn i).isData → Reading kernel calls s i (s.sent i)
  | .send chars => (s.conn i).isData → Reading kernel calls s i (s.sent i ++ chars.left)
  | .free | .closeFd | .closeConn | .exited =>
    (s.conn i).isData → Instant kernel calls s i (s.sent i)
  | _ => s.sent i = []

theorem Reading.same (reading : Reading kernel calls s i got) (step : s.Step call s')
    (fPos : s'.module.fPos i = s.module.fPos i) (stored : s'.stored = s.stored) :
    Reading kernel (calls ++ [call]) s' i got := by
  have contents : s'.contents = s.contents := congrArg List.flatten stored
  obtain ⟨p, here, small, front | ⟨pos, past, full, instant⟩⟩ := reading
  · exact ⟨p, fPos.trans here, small, .inl (contents ▸ front)⟩
  · exact ⟨p, fPos.trans here, small,
      .inr ⟨pos, contents ▸ past, stored ▸ full, instant.step step⟩⟩

theorem Reading.stores (reading : Reading kernel calls s i got) (step : s.Step call s')
    (run : Run DeviceServer.Step (.start kernel) calls s) (owned : s.module.Owned)
    (responding : (s.conn i).pc.responding) {packet : List UInt8}
    (fPos : s'.module.fPos i = s.module.fPos i)
    (stored : s'.stored = window 10 (s.stored ++ [packet]))
    (calm : s.stored.length = 10 → 0 < s.module.fPos i → s.contents.length ≤ s.module.fPos i ∧
      (s.contentsWith packet).length ≤ s.module.fPos i) :
    Reading kernel (calls ++ [call]) s' i got := by
  have contents : s'.contents = s.contentsWith packet := congrArg List.flatten stored
  have count := owned.length_stored
  obtain ⟨p, here, small, reading⟩ := reading
  rw [here] at fPos calm
  refine ⟨p, fPos, small, ?_⟩
  by_cases full : s.stored.length = 10
  · have full' : s'.stored.length = 10 := by
      rw [stored, length_window, List.length_append, full]
      rfl
    by_cases begun : 0 < p
    · -- nothing more to read, before and after
      obtain ⟨past, past'⟩ := calm full (by omega)
      refine .inr ⟨begun, by rw [contents]; omega, full', ?_⟩
      rcases reading with ⟨le, rfl⟩ | ⟨-, -, -, instant⟩
      · rw [List.take_of_length_le (by omega)]
        exact .now run responding step
      · exact instant.step step
    · -- nothing was read yet
      obtain rfl : p = 0 := by omega
      rcases reading with ⟨-, rfl⟩ | ⟨pos, -⟩
      · exact .inl ⟨Nat.zero_le _, rfl⟩
      · omega
  · -- the contents only grow
    rcases reading with ⟨le, rfl⟩ | ⟨-, -, full', -⟩
    · left
      have grown : s'.contents = s.contents ++ packet := by
        rw [contents, DeviceServer.contentsWith, window_of_le (by
          rw [List.length_append, List.length_singleton]
          change s.stored.length ≤ 10 at count
          omega), List.flatten_append]
        simp [DeviceServer.contents, DeviceServer.stored, Kernel.contents]
      rw [grown]
      exact ⟨by simp; omega, by rw [List.take_append_of_le_length le]⟩
    · exact absurd full' full

theorem Answering.other {j : Nat} (answering : Answering kernel calls s i)
    (step : s.Step ⟨j, event, env⟩ s') (run : Run DeviceServer.Step (.start kernel) calls s)
    (orderly : Orderly s) (acts : Acts s j env event s') (calm : Calm s ⟨j, event, env⟩)
    (ne : i ≠ j) : Answering kernel (calls ++ [⟨j, event, env⟩]) s' i := by
  obtain ⟨conn, sent, fPos⟩ := acts.frame ne
  -- a read loop under way goes on
  have reads : ∀ got, (s.conn i).pc = .read ∨ (∃ chars, (s.conn i).pc = .send chars) →
      ((s.conn i).isData → Reading kernel calls s i got) →
      (s.conn i).isData → Reading kernel (calls ++ [⟨j, event, env⟩]) s' i got := by
    intro got pc reading data
    by_cases stored : s'.stored = s.stored
    · exact (reading data).same step fPos stored
    cases acts with
    | @write d chars writes _ bytes =>
      rcases orderly.write_cases writes bytes with ⟨left, stores, -⟩ | ⟨-, same, -⟩
      · have last := (chunk_advance chars).2.mp left
        have responding : (s.conn i).pc.responding := by
          rcases pc with pc | ⟨chars, pc⟩ <;> rw [pc] <;> rfl
        exact (reading data).stores step run orderly.owned responding fPos stores fun full =>
          calm chars writes last full i data pc
      · exact absurd same stored
    | openFile _ same | ioctl _ same | ioctlFailed _ same | lseek _ same | read _ same
    | closeFd _ same => exact absurd (congrArg Kernel.stored same.kernel) stored
    | getline | lock | unlock | unlockFailed | send | free | closeConn => exact absurd rfl stored
  unfold Answering at answering ⊢
  rw [conn, sent]
  split at answering
  · exact answering
  · rename_i pc
    exact reads _ (.inl pc) answering
  · rename_i chars pc
    exact reads _ (.inr ⟨chars, pc⟩) answering
  · exact fun data => (answering data).step step
  · exact fun data => (answering data).step step
  · exact fun data => (answering data).step step
  · exact fun data => (answering data).step step
  · exact answering

/-- A `read` of a read loop gives its next bytes, or ends it. -/
theorem Reading.next {d : Loaded} {buffer : List UInt8} (reading : Reading kernel calls s i got)
    (step : s.Step call s') (run : Run DeviceServer.Step (.start kernel) calls s)
    (owned : s.module.Owned) (responding : (s.conn i).pc.responding)
    (same : SameData i s.module d) (module : s'.module = d)
    (next : ∀ p : Nat, s.module.fPos i = p → p < 2 ^ 63 →
      ∃ n, (n = 0 ↔ s.contents.length ≤ p) ∧ (0 < n → p + n ≤ s.contents.length) ∧
        buffer = (s.contents.drop p).take n ∧ d.fPos i = (p + n : Nat)) :
    if buffer = [] then Instant kernel (calls ++ [call]) s' i got
    else Reading kernel (calls ++ [call]) s' i (got ++ buffer) := by
  obtain ⟨p, here, small, reading⟩ := reading
  obtain ⟨n, atEnd, fits, rfl, moved⟩ := next p here (by omega)
  by_cases past : s.contents.length ≤ p
  · rw [if_pos (by rw [atEnd.mpr past, List.take_zero])]
    rcases reading with ⟨le, rfl⟩ | ⟨-, -, -, instant⟩
    · rw [List.take_of_length_le past]
      exact .now run responding step
    · exact instant.step step
  · have pos : 0 < n := Nat.pos_of_ne_zero fun zero => past (atEnd.mp zero)
    have le := fits pos
    have some_ : (s.contents.drop p).take n ≠ [] := by
      intro empty
      have len := congrArg List.length empty
      simp only [List.length_take, List.length_drop, List.length_nil] at len
      omega
    have bound := owned.length_contents
    change s.contents.length ≤ _ at bound
    have contents : s'.contents = s.contents := by
      unfold DeviceServer.contents
      rw [module, same.kernel]
    rw [if_neg some_]
    rcases reading with ⟨-, rfl⟩ | ⟨-, past', -⟩
    · exact ⟨p + n, by rw [module, moved], by omega, .inl ⟨by rw [contents]; exact le, by
        rw [contents, List.take_add]⟩⟩
    · exact absurd past' past

theorem Answering.own (answering : Answering kernel calls s i) (step : s.Step ⟨i, event, env⟩ s')
    (run : Run DeviceServer.Step (.start kernel) calls s) (orderly : Orderly s)
    (acts : Acts s i env event s') : Answering kernel (calls ++ [⟨i, event, env⟩]) s' i := by
  unfold Answering at answering ⊢
  cases acts with
  | openFile pc => simpa [pc] using answering
  | getline pc packet =>
    rw [pc] at answering
    rw [DeviceServer.moved_conn_self]
    rcases ConnHandler.dispatch_cases { s.conn i with packet } with
      ⟨-, eq⟩ | ⟨seek, ⟨-, eq⟩ | ⟨seekto, -, eq⟩⟩
    · rw [eq]
      exact answering
    · rw [eq]
      exact fun data => absurd (data.symm.trans seek) (by decide)
    · rw [eq]
      exact fun data => absurd (data.symm.trans seek) (by decide)
  | ioctl pc =>
    rw [pc] at answering
    rw [DeviceServer.moved_conn_self]
    exact fun data => absurd data answering
  | ioctlFailed pc =>
    rw [pc] at answering
    rw [DeviceServer.moved_conn_self]
    exact fun (data : (s.conn i).isData = true) => absurd data answering
  | lock pc =>
    rw [pc] at answering
    rw [DeviceServer.moved_conn_self]
    rcases ConnHandler.writePc_cases _ with ⟨-, eq⟩ | ⟨-, eq⟩
    · rw [eq]
      exact answering
    · rw [eq]
      exact answering
  | write pc =>
    rw [pc] at answering
    rw [DeviceServer.moved_conn_self]
    rcases ConnHandler.writePc_cases _ with ⟨-, eq⟩ | ⟨-, eq⟩
    · rw [eq]
      exact answering
    · rw [eq]
      exact answering
  | unlock pc => simpa [pc] using answering
  | unlockFailed pc bad => exact absurd (orderly.unlocks pc).2.1 (Int.ne_of_lt bad)
  | lseek pc same here =>
    rw [pc] at answering
    rw [DeviceServer.moved_conn_self]
    intro _
    exact ⟨0, here, Nat.zero_le _, .inl ⟨Nat.zero_le _, answering⟩⟩
  | @read d buffer pc same next =>
    rw [pc] at answering
    rw [DeviceServer.moved_conn_self]
    have result := fun data => (answering data).next step run orderly.owned (by rw [pc]; rfl) same
      rfl next
    by_cases empty : buffer = []
    · simp only [if_pos empty] at result ⊢
      exact result
    · simp only [if_neg empty] at result ⊢
      exact result
  | @send chars bytesSent pc =>
    rw [pc] at answering
    rw [DeviceServer.moved_conn_self]
    have sent : Function.update s.sent i (s.sent i ++ chars.left.take bytesSent) i ++
        (chars.advance bytesSent).left = s.sent i ++ chars.left := by
      rw [Function.update_self, List.append_assoc, Putchars.advance_left, List.take_append_drop]
    have goes := fun data => sent ▸ (answering data).same step rfl rfl
    rcases ConnHandler.sendPc_cases (chars.advance bytesSent) with ⟨left, eq⟩ | ⟨-, eq⟩
    · rw [left, List.append_nil, eq] at goes
      rw [eq]
      exact goes
    · rw [eq] at goes ⊢
      exact goes
  | free pc =>
    rw [pc] at answering
    rw [DeviceServer.moved_conn_self]
    exact fun data => (answering data).step step
  | closeFd pc =>
    rw [pc] at answering
    rw [DeviceServer.moved_conn_self]
    exact fun data => (answering data).step step
  | closeConn pc =>
    rw [pc] at answering
    rw [DeviceServer.moved_conn_self]
    exact fun data => (answering data).step step

/-- Every calm run is a run in which the responses stay right. -/
theorem Answering.run {heap : KHeap} {initEnv : InitEnv}
    (init : aesdInitModule heap initEnv = (0, kernel))
    (run : Run CalmStep (.start kernel) calls s) (ok : ∀ call ∈ calls, call.Ok)
    (lines : ∀ call ∈ calls, call.Lines) (i : Nat) :
    Run DeviceServer.Step (.start kernel) calls s ∧ Answering kernel calls s i := by
  refine run.history (P := fun calls s => (∀ call ∈ calls, call.Ok) → (∀ call ∈ calls, call.Lines) →
    Run DeviceServer.Step (.start kernel) calls s ∧ Answering kernel calls s i) ?_ ?_ ok lines
  · intro _ _
    exact ⟨.nil _, rfl⟩
  rintro earlier ⟨j, event, env⟩ s s' - ih ⟨step, calm⟩ ok lines
  simp only [List.forall_mem_append, List.forall_mem_singleton] at ok lines
  obtain ⟨run, answering⟩ := ih ok.1 lines.1
  have orderly := Orderly.run run (.start init) ok.1 lines.1
  have acts := DeviceServer.step_acts orderly.owned step ok.2
  refine ⟨run.append (.single step), ?_⟩
  by_cases mine : i = j
  · subst mine
    exact answering.own step run orderly acts
  · exact answering.other step run orderly acts calm mine

/-- In a run with no failing call, of clients that send whole lines, in which every line stored in a
full ring leaves the reads under way alone, the response to a line is the contents of the device at
one moment after the line was written and before the last `read`. -/
theorem response_is_one_instant {heap : KHeap} {initEnv : InitEnv}
    (init : aesdInitModule heap initEnv = (0, kernel))
    (run : Run CalmStep (.start kernel) calls s) (ok : ∀ call ∈ calls, call.Ok)
    (lines : ∀ call ∈ calls, call.Lines) (data : (s.conn i).isData)
    (ended : (s.conn i).pc.ended) : Instant kernel calls s i (s.sent i) := by
  have answering := (Answering.run init run ok lines i).2
  unfold Answering at answering
  split at answering
  · rename_i pc
    simp [pc, Pc.ended] at ended
  · rename_i pc
    simp [pc, Pc.ended] at ended
  · rename_i pc
    simp [pc, Pc.ended] at ended
  · exact answering data
  · exact answering data
  · exact answering data
  · exact answering data
  · rename_i ioctl read send free closeFd closeConn exited
    unfold Pc.ended at ended
    split at ended <;> contradiction

/-- A line of one digit. -/
def digitLine (i : Nat) : List UInt8 := [(48 + i).toUInt8, newline]

/-- Connection `i` stores a line of one digit. -/
def storing (i : Nat) : List DeviceCall :=
  [⟨i, .openFile true, {}⟩, ⟨i, .getline (some (digitLine i)), {}⟩, ⟨i, .lock 0, {}⟩,
    ⟨i, .write (some 2), { allocation := some ⟨i + 2, fun _ => 0⟩ }⟩, ⟨i, .unlock 0, {}⟩]

/-- Connection `i` reads and sends the line that connection `j` stored. -/
def forwarding (i j : Nat) : List DeviceCall :=
  [⟨i, .read (some (digitLine j)), {}⟩, ⟨i, .send (some 2), {}⟩]

/-- The read loop of the thread is under way. -/
def Pc.reads : Pc → Bool
  | .read | .send _ => true
  | _ => false

/-- The step of a call that stores nothing in a full ring. -/
def quietStep (s : DeviceServer) (call : DeviceCall) : Option DeviceServer :=
  match s.stored.length, (s.conn call.conn).pc with
  | 10, .write _ => none
  | _, _ => s.step call

theorem calmStep_of_quiet {s s' : DeviceServer} {call : DeviceCall}
    (step : quietStep s call = some s') : CalmStep s call s' := by
  unfold quietStep at step
  split at step
  · contradiction
  · rename_i other
    exact ⟨step, fun chars pc _ full => (other chars full pc).elim⟩

/-- Ten lines are stored, and client 9 has read them all, when an eleventh is stored: the last of
them is still to be sent. -/
theorem response_full_ring : ∃ calls s, s.stored = (List.range' 1 10).map digitLine ∧
    s.sent 9 = ((List.range 10).map digitLine).flatten ∧
    Instant loadedKernel calls s 9 (s.sent 9) := by
  let before := (List.range 10).flatMap storing ++ [⟨9, .lseek true, {}⟩] ++
    (List.range 9).flatMap (forwarding 9) ++ [⟨9, .read (some (digitLine 9)), {}⟩] ++
    (storing 10).take 3
  let eleventh : DeviceCall := ⟨10, .write (some 2), { allocation := some ⟨12, fun _ => 0⟩ }⟩
  let after : List DeviceCall :=
    [⟨10, .unlock 0, {}⟩, ⟨9, .send (some 2), {}⟩, ⟨9, .read (some []), {}⟩]
  have result : ((execute quietStep (fun _ => true) (.start loadedKernel) before).bind fun m =>
      (m.step eleventh).bind fun m' => (execute quietStep (fun _ => true) m' after).map fun s =>
        (((List.range 11).filter fun j => (m.conn j).pc.reads, m.module.fPos 9,
          [m.contents.length, (m.contentsWith (m.conn 10).packet).length]),
        (s.conn 9).pc, (s.conn 9).isData, s.sent 9 :: s.stored)) =
      some (([9], 20, [20, 20]), .free, true,
        ((List.range 10).map digitLine).flatten :: (List.range' 1 10).map digitLine) := by
    decide +kernel
  obtain ⟨m, first, result⟩ := Option.bind_eq_some_iff.mp result
  obtain ⟨m', step, result⟩ := Option.bind_eq_some_iff.mp result
  obtain ⟨s, last, facts⟩ := Option.map_eq_some_iff.mp result
  simp only [Prod.mk.injEq, List.cons.injEq, and_true] at facts
  obtain ⟨⟨readers, here, length, lengthWith⟩, pc, data, sent, stored⟩ := facts
  have run : Run CalmStep (.start loadedKernel) before m :=
    Run.of_execute (fun _ _ _ _ step => calmStep_of_quiet step) first
  have calm : Calm m eleventh := by
    intro chars _ _ _ j _ reading _
    have below : j < 11 := by
      by_contra above
      have others (call : DeviceCall) (mem : call ∈ before) : call.conn ≠ j := by
        have low : call.conn < 11 := (by decide +kernel : ∀ call ∈ before, call.conn < 11) call mem
        omega
      have made : Run DeviceServer.Step (.start loadedKernel) before m :=
        Run.of_execute (fun _ _ _ _ step => (calmStep_of_quiet step).1) first
      have idle := DeviceServer.run_conn made others
      simp [idle, DeviceServer.start, ConnHandler.start] at reading
    have reads : (m.conn j).pc.reads = true := by
      rcases reading with pc | ⟨chars, pc⟩ <;> rw [pc] <;> rfl
    have mem : j ∈ (List.range 11).filter fun j => (m.conn j).pc.reads :=
      List.mem_filter.mpr ⟨List.mem_range.mpr below, reads⟩
    rw [readers, List.mem_singleton] at mem
    subst mem
    rw [here, length]
    exact ⟨Int.le_refl _, by rw [lengthWith]; exact Int.le_refl _⟩
  have run : Run CalmStep (.start loadedKernel) (before ++ eleventh :: after) s :=
    run.append <| .cons ⟨step, calm⟩ <|
      Run.of_execute (fun _ _ _ _ step => calmStep_of_quiet step) last
  refine ⟨_, s, stored, sent, response_is_one_instant loadedKernel_eq run (by decide +kernel)
    (by decide +kernel) data (by rw [pc]; rfl)⟩

/-- In a full ring the line that a client reads next is not the next one: another client stores a
line after the first one was sent, the oldest line goes, and the response has a gap. -/
theorem response_skips_line : ∃ calls s, Run DeviceServer.Step (.start loadedKernel) calls s ∧
    (∀ call ∈ calls, call.event.failed = false) ∧ (∀ call ∈ calls, call.Lines) ∧
    (s.conn 9).isData ∧ (s.conn 9).pc.ended ∧
    s.sent 9 = ([0, 2, 3, 4, 5, 6, 7, 8, 9, 10].map digitLine).flatten ∧
    ¬ Instant loadedKernel calls s 9 (s.sent 9) := by
  let calls := (List.range 10).flatMap storing ++ [⟨9, .lseek true, {}⟩] ++ forwarding 9 0 ++
    storing 10 ++ (List.range' 2 9).flatMap (forwarding 9) ++ [⟨9, .read (some []), {}⟩]
  let gap := ([0, 2, 3, 4, 5, 6, 7, 8, 9, 10].map digitLine).flatten
  have result : (execute DeviceServer.step (fun s => s.contents != gap)
      (.start loadedKernel) calls).map (fun s => ((s.conn 9).pc, (s.conn 9).isData, s.sent 9)) =
        some (.free, true, gap) := by
    decide +kernel
  obtain ⟨s, executed, facts⟩ := Option.map_eq_some_iff.mp result
  obtain ⟨pc, data, sent⟩ : (s.conn 9).pc = .free ∧ (s.conn 9).isData = true ∧
      s.sent 9 = gap := by simpa using facts
  have run : Run DeviceServer.Step (.start loadedKernel) calls s :=
    Run.of_execute (fun _ _ _ _ step => step) executed
  refine ⟨calls, s, run, by decide +kernel, by decide +kernel, data, by rw [pc]; rfl, sent, ?_⟩
  -- the contents are different in every state of the run
  rintro ⟨before, m, after, split, first, -, -, contents⟩
  have differs := first.holds_of_execute (fun _ _ _ => id) (split ▸ executed)
  rw [contents, sent] at differs
  simp at differs

end Aesd.Server
