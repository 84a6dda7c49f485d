import Aesd.CInt
import Aesd.Server.Putchars

/-! The loops that pass a whole buffer on with `write` or `send`: `putchars` of `utils.c`,
`sock_putchars` of `socket.c`, and the one in `main` of `writer.c`. Each takes as many calls as it
needs, and stops at the first that fails. -/

namespace Aesd

open CInt Server

/-- What a call of `write` or `send` returns for each number of bytes that it is asked to pass on:
-1, or how many it passed on, which is at least one. -/
structure Answer where
  result : Nat → Int
  contract : ∀ asked, 0 < asked → result asked = -1 ∨ 1 ≤ result asked ∧ result asked ≤ asked

/-- A call: where in the buffer its range starts, how long it is, and the value returned. -/
structure Call where
  offset : Int
  count : Nat
  result : Int
  deriving DecidableEq, Repr

/-- The bytes of the buffer that some calls passed on, in the order of the calls. -/
def accepted (buffer : List UInt8) (calls : List Call) : List UInt8 :=
  calls.flatMap fun call => (buffer.drop call.offset.toNat).take call.result.toNat

/-- The calls that a loop made, and the value returned, or `none` while its next call has not
answered. -/
structure LoopRun where
  calls : List Call
  retval : Option Int
  deriving DecidableEq, Repr

/-- The loop of `putchars` and `sock_putchars`, with the answers of its calls. -/
def putcharsLoop : List Answer → Nat → Int → LoopRun
  | [], bytesLeft, _ => ⟨[], if 0 < bytesLeft then none else some 0⟩
  | answer :: answers, bytesLeft, bufHead =>
    if 0 < bytesLeft then
      let bytesSent := answer.result bytesLeft
      if bytesSent < 0 then ⟨[⟨bufHead, bytesLeft, bytesSent⟩], some (-1)⟩
      else
        let rest := putcharsLoop answers (toSizeT (bytesLeft - bytesSent)) (bufHead + bytesSent)
        ⟨⟨bufHead, bytesLeft, bytesSent⟩ :: rest.calls, rest.retval⟩
    else ⟨[], some 0⟩

/-- `putchars`, which calls `write`. -/
def putchars (answers : List Answer) (buffer : List UInt8) : LoopRun :=
  putcharsLoop answers buffer.length 0

/-- `sock_putchars`, which calls `send`. -/
def sockPutchars (answers : List Answer) (buffer : List UInt8) : LoopRun :=
  putcharsLoop answers buffer.length 0

/-- The calls that the loop of `writer.c` made, the status that it exits with, 0 when it leaves the
loop with everything written, and how often it logs that it has to try again. -/
structure WriterRun where
  calls : List Call
  status : Option Int
  retries : Nat
  deriving DecidableEq, Repr

/-- The loop in `main` of `writer.c`. Its test for a failure is that of -1 alone. -/
def writerLoop : List Answer → Nat → Int → WriterRun
  | [], count, _ => ⟨[], if 0 < count then none else some 0, 0⟩
  | answer :: answers, count, writestr =>
    if 0 < count then
      let nr := answer.result count
      if nr = -1 then ⟨[⟨writestr, count, nr⟩], some 1, 0⟩
      else
        let rest := writerLoop answers (toSizeT (count - nr)) (writestr + nr)
        ⟨⟨writestr, count, nr⟩ :: rest.calls, rest.status,
          (if toSizeT nr ≠ count then 1 else 0) + rest.retries⟩
    else ⟨[], some 0, 0⟩

/-- The write loop of `main`, for a string given by its bytes in front of the terminator. -/
def writerMain (answers : List Answer) (writestr : List UInt8) : WriterRun :=
  writerLoop answers writestr.length 0

variable {answers : List Answer} {answer : Answer} {chars : Putchars} {buffer : List UInt8}

/-- A call that does not fail moves the head and the count together, as one advance. -/
theorem Answer.advance (answer : Answer) (some_ : chars.left ≠ [])
    (fits : chars.left.length < 2 ^ 64) (taken : answer.result chars.left.length ≠ -1) :
    ∃ n, 1 ≤ n ∧ n ≤ chars.left.length ∧ answer.result chars.left.length = (n : Int) ∧
      toSizeT (chars.left.length - answer.result chars.left.length) =
        (chars.advance n).left.length ∧
      (chars.done.length : Int) + answer.result chars.left.length =
        (chars.advance n).done.length := by
  have pos := List.length_pos_of_ne_nil some_
  obtain ⟨low, high⟩ := (answer.contract _ pos).resolve_left taken
  obtain ⟨n, eq⟩ := Int.eq_ofNat_of_zero_le (show 0 ≤ answer.result chars.left.length by omega)
  rw [eq] at low high
  refine ⟨n, by omega, by omega, eq, ?_, ?_⟩
  · rw [eq, ← Int.natCast_sub (by omega), toSizeT_of_lt (by omega), Putchars.advance_left,
      List.length_drop]
  · rw [eq, Putchars.advance_done, List.length_append, List.length_take]
    omega

/-- What a run of the loop from `chars` on does, with answers `answers`. -/
structure Delivers (answers : List Answer) (chars : Putchars) (run : LoopRun) : Prop where
  inside : ∀ call ∈ run.calls, 0 ≤ call.offset ∧ call.offset + call.count ≤ chars.buffer.length
  bounded : run.calls.length ≤ chars.left.length
  ended : chars.left.length ≤ answers.length → run.retval ≠ none
  values : ∀ value ∈ run.retval, value = 0 ∨ value = -1
  front : chars.done ++ accepted chars.buffer run.calls <+: chars.buffer
  success : run.retval = some 0 ↔ chars.done ++ accepted chars.buffer run.calls = chars.buffer
  failure : run.retval = some (-1) ↔ ∃ call ∈ run.calls, call.result = -1

theorem Delivers.nothing_left (ended : chars.left = []) :
    Delivers answers chars ⟨[], some 0⟩ where
  inside := by simp
  bounded := by simp
  ended := by simp
  values := by simp
  front := by simp [accepted, Putchars.done_eq ended]
  success := by simp [accepted, Putchars.done_eq ended]
  failure := by simp

theorem Delivers.waiting (some_ : chars.left ≠ []) : Delivers [] chars ⟨[], none⟩ where
  inside := by simp
  bounded := by simp
  ended := by simp [some_]
  values := by simp
  front := by simp [accepted, Putchars.buffer]
  success := by simp [accepted, Putchars.done_eq_iff, some_]
  failure := by simp

theorem Delivers.failed (some_ : chars.left ≠ []) :
    Delivers (answer :: answers) chars
      ⟨[⟨chars.done.length, chars.left.length, -1⟩], some (-1)⟩ where
  inside := by
    simp only [List.mem_singleton, forall_eq]
    exact ⟨Int.natCast_nonneg _, by simp [Putchars.buffer]⟩
  bounded := List.length_pos_of_ne_nil some_
  ended := by simp
  values := by simp
  front := by simp [accepted, Putchars.buffer]
  success := by simp [accepted, Putchars.done_eq_iff, some_]
  failure := by simp

theorem Delivers.cons {run : LoopRun} {n : Nat} (pos : 1 ≤ n) (le : n ≤ chars.left.length)
    (rest : Delivers answers (chars.advance n) run) :
    Delivers (answer :: answers) chars
      ⟨⟨chars.done.length, chars.left.length, n⟩ :: run.calls, run.retval⟩ := by
  have buffer := chars.advance_buffer n
  have bytes : chars.done ++ accepted chars.buffer
      (⟨chars.done.length, chars.left.length, n⟩ :: run.calls) =
      (chars.advance n).done ++ accepted (chars.advance n).buffer run.calls := by
    rw [buffer, Putchars.advance_done, accepted, List.flatMap_cons, ← accepted,
      List.append_assoc]
    simp [Putchars.buffer]
  have fewer : (chars.advance n).left.length = chars.left.length - n := by simp
  refine ⟨?_, ?_, ?_, rest.values, ?_, ?_, ?_⟩
  · simp only [List.mem_cons, forall_eq_or_imp]
    refine ⟨⟨Int.natCast_nonneg _, by simp [Putchars.buffer]⟩, fun call mem => ?_⟩
    rw [← buffer]
    exact rest.inside call mem
  · have bounded := rest.bounded
    rw [List.length_cons]
    omega
  · intro enough
    rw [List.length_cons] at enough
    exact rest.ended (by omega)
  · rw [bytes, ← buffer]
    exact rest.front
  · rw [bytes, ← buffer]
    exact rest.success
  · have notFailed : (n : Int) ≠ -1 := by omega
    rw [rest.failure]
    simp [notFailed]

theorem putcharsLoop_delivers (answers : List Answer) (chars : Putchars)
    (fits : chars.left.length < 2 ^ 64) :
    Delivers answers chars (putcharsLoop answers chars.left.length chars.done.length) := by
  induction answers generalizing chars with
  | nil =>
    by_cases ended : chars.left = []
    · simpa [putcharsLoop, ended] using (Delivers.nothing_left ended : Delivers [] chars _)
    · have pos := List.length_pos_of_ne_nil ended
      simpa only [putcharsLoop, if_pos pos] using Delivers.waiting ended
  | cons answer answers ih =>
    rw [putcharsLoop]
    by_cases ended : chars.left = []
    · rw [if_neg (by simp [ended])]
      exact .nothing_left ended
    rw [if_pos (List.length_pos_of_ne_nil ended)]
    by_cases failed : answer.result chars.left.length = -1
    · simp only [failed]
      rw [if_pos (by decide)]
      exact .failed ended
    · obtain ⟨n, pos, le, eq, left, head⟩ := answer.advance ended fits failed
      have fewer : (chars.advance n).left.length < 2 ^ 64 := by
        rw [Putchars.advance_left, List.length_drop]
        omega
      simp only [left, head]
      rw [eq, if_neg (by omega)]
      exact (ih _ fewer).cons pos le

/-- The loop of `writer.c` makes the same calls as the others. Its own test differs from theirs on
answers that no call gives. It tries again after each call that passed on a part. -/
theorem writerLoop_eq (answers : List Answer) (chars : Putchars)
    (fits : chars.left.length < 2 ^ 64) :
    let run := putcharsLoop answers chars.left.length chars.done.length
    let writer := writerLoop answers chars.left.length chars.done.length
    writer.calls = run.calls ∧
      writer.status = run.retval.map (fun retval => if retval = 0 then 0 else 1) ∧
      writer.retries =
        run.calls.countP fun call => call.result ≠ -1 ∧ call.result < call.count := by
  induction answers generalizing chars with
  | nil =>
    simp only [putcharsLoop, writerLoop]
    split <;> simp
  | cons answer answers ih =>
    simp only [putcharsLoop, writerLoop]
    by_cases ended : chars.left = []
    · simp [ended]
    have pos := List.length_pos_of_ne_nil ended
    simp only [if_pos pos]
    by_cases failed : answer.result chars.left.length = -1
    · simp [failed]
    · obtain ⟨n, low, le, eq, left, head⟩ := answer.advance ended fits failed
      have fewer : (chars.advance n).left.length < 2 ^ 64 := by
        rw [Putchars.advance_left, List.length_drop]
        omega
      obtain ⟨calls, status, retries⟩ := ih (chars.advance n) fewer
      simp only [left, head]
      have taken : ¬(n : Int) < 0 := by omega
      have notFailed : (n : Int) ≠ -1 := by omega
      simp only [eq, taken, notFailed, if_false, calls, status, retries, List.countP_cons,
        toSizeT_of_lt (show n < 2 ^ 64 by omega), true_and, Nat.add_comm (if n ≠ _ then 1 else 0)]
      have some_ : n ≠ chars.left.length ↔ (n : Int) < chars.left.length := by omega
      simp [some_]

/-- The loops deliver a buffer once and in order, whatever their calls answer. Each call is for a
range inside the buffer, and no more calls are made than there are bytes: with that many answers
the loop ends. It reports success exactly when the bytes passed on are the whole buffer, and failure
exactly when a call failed; then they are a proper prefix. The three loops make the same calls, and
the one of `writer.c` exits with 1 where the others return -1. -/
theorem putchars_delivers (fits : buffer.length < 2 ^ 64) (answers : List Answer) :
    let run := putchars answers buffer
    (∀ call ∈ run.calls, 0 ≤ call.offset ∧ call.offset + call.count ≤ buffer.length) ∧
    run.calls.length ≤ buffer.length ∧
    (buffer.length ≤ answers.length → run.retval = some 0 ∨ run.retval = some (-1)) ∧
    (run.retval = some 0 ↔ accepted buffer run.calls = buffer) ∧
    (run.retval = some (-1) ↔ ∃ call ∈ run.calls, call.result = -1) ∧
    (run.retval = some (-1) →
      accepted buffer run.calls <+: buffer ∧ accepted buffer run.calls ≠ buffer) ∧
    sockPutchars answers buffer = run ∧
    (writerMain answers buffer).calls = run.calls ∧
    (writerMain answers buffer).status =
      run.retval.map (fun retval => if retval = 0 then 0 else 1) := by
  intro run
  have delivers : Delivers answers (.start buffer) run := putcharsLoop_delivers _ _ fits
  obtain ⟨calls, status, -⟩ := writerLoop_eq answers (.start buffer) fits
  refine ⟨delivers.inside, delivers.bounded, fun enough => ?_, delivers.success,
    delivers.failure, fun failed => ⟨delivers.front, fun whole => ?_⟩, rfl, calls, status⟩
  · obtain ⟨value, returned⟩ := Option.ne_none_iff_exists'.mp (delivers.ended enough)
    rw [returned, Option.some_inj, Option.some_inj]
    exact delivers.values value returned
  · rw [delivers.success.mpr whole] at failed
    contradiction

/-- A call that takes one byte, whatever it is asked for. -/
def Answer.one : Answer := ⟨fun _ => 1, fun asked pos => .inr ⟨Int.le_refl 1, by omega⟩⟩

/-- A call that fails. -/
def Answer.error : Answer := ⟨fun _ => -1, fun _ _ => .inl rfl⟩

/-- Three bytes, and an error after the second. -/
theorem putchars_delivers_two :
    let run := putchars [.one, .one, .error] [97, 98, 99]
    accepted [97, 98, 99] run.calls = [97, 98] ∧
    (run.retval = some (-1) ↔ ∃ call ∈ run.calls, call.result = -1) :=
  ⟨by decide, (putchars_delivers (by decide) _).2.2.2.2.1⟩

end Aesd
