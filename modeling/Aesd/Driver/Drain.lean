import Aesd.Driver.Runs

/-! Reading the device until it has no more: whatever the counts asked for, and whatever reads fail
on the way, the reads of one file give the contents from its position on, each byte once. -/

namespace Aesd.Driver

open Aesd.CInt ProofKit

/-- Successive reads on one file with nothing in between: the results in order. -/
def successiveReads (kernel : Kernel) :
    Int → List (Nat × ReadEnv) → Except Fault (List ReadResult)
  | _, [] => .ok []
  | fPos, (count, env) :: calls => do
    let result ← aesdRead kernel count fPos env
    let results ← successiveReads kernel result.fPos calls
    return result :: results

/-- The bytes that the caller of a read may use: as many as the value returned says. -/
def ReadResult.returned (result : ReadResult) : List UInt8 :=
  result.copied.take result.retval.toNat

/-- The bytes returned by some reads, end to end. -/
def delivered (results : List ReadResult) : List UInt8 := results.flatMap ReadResult.returned

theorem delivered_mono {results more : List ReadResult} (front : results <+: more) :
    delivered results <+: delivered more := by
  obtain ⟨rest, rfl⟩ := front
  rw [delivered, delivered, List.flatMap_append]
  exact List.prefix_append _ _

/-- The ways a read at a position of the contents can go. -/
inductive ReadOutcome (contents : List UInt8) (fPos count : Nat) (env : ReadEnv) :
    ReadResult → Prop
  | interrupted (lock : env.interrupted = true) :
      ReadOutcome contents fPos count env ⟨-erestartsys, [], fPos⟩
  | atEnd (lock : env.interrupted = false) (past : contents.length ≤ fPos) :
      ReadOutcome contents fPos count env ⟨0, [], fPos⟩
  | faulted (lock : env.interrupted = false) (before : fPos < contents.length)
      (uncopied : env.uncopied ≠ 0) (copied : List UInt8) :
      ReadOutcome contents fPos count env ⟨-efault, copied, fPos⟩
  | some (lock : env.interrupted = false) (before : fPos < contents.length)
      (uncopied : env.uncopied = 0) (n : Nat) (pos : 0 < n) (le : n ≤ count)
      (fits : fPos + n ≤ contents.length) :
      ReadOutcome contents fPos count env
        ⟨n, (contents.drop fPos).take n, (fPos + n : Nat)⟩

variable {kernel : Kernel} {base : Nat × List UInt8} {ring : List Held} {wip : Option Held}
  {frame : KHeap} {contents : List UInt8} {fPos count : Nat} {env : ReadEnv}
  {result : ReadResult}

theorem aesdRead_outcome (h : Holds kernel base ring wip frame) (small : fPos < 2 ^ 63)
    (asked : 0 < count) (env : ReadEnv) :
    ∃ result, aesdRead kernel count fPos env = .ok result ∧
      ReadOutcome kernel.contents fPos count env result := by
  obtain ⟨interrupted, uncopied⟩ := env
  cases interrupted with
  | true => exact ⟨_, rfl, .interrupted rfl⟩
  | false =>
    obtain ⟨n, le, pos, fits, result⟩ := aesdRead_spec h count fPos uncopied
    rw [toSizeT_of_lt (by omega)] at pos fits result
    refine ⟨_, result, ?_⟩
    have bytes := h.length_contents
    by_cases past : kernel.contents.length ≤ fPos
    · rw [if_pos past]
      exact .atEnd rfl past
    · rw [if_neg past]
      by_cases copied : uncopied = 0
      · rw [if_pos copied, ← Int.natCast_add, toLoffT_of_range (by omega) (by omega)]
        exact .some rfl (by omega) copied n (pos asked (by omega)) le (by omega)
      · rw [if_neg copied]
        exact .faulted rfl (by omega) copied _

namespace ReadOutcome

theorem advances (outcome : ReadOutcome contents fPos count env result) :
    result.fPos = (fPos + result.returned.length : Nat) ∧
      contents.drop fPos =
        result.returned ++ contents.drop (fPos + result.returned.length) := by
  cases outcome with
  | some lock before uncopied n pos le fits =>
    have len : ((contents.drop fPos).take n).length = n := by
      rw [List.length_take, List.length_drop]
      omega
    simp only [ReadResult.returned, Int.toNat_natCast, List.take_take, Nat.min_self, len]
    exact ⟨trivial, by rw [← List.drop_drop, List.take_append_drop]⟩
  | _ => simp [ReadResult.returned, erestartsys, efault]

theorem retval_eq_zero (outcome : ReadOutcome contents fPos count env result) :
    result.retval = 0 ↔ env.interrupted = false ∧ contents.length ≤ fPos := by
  cases outcome with
  | interrupted lock => simp [lock, erestartsys]
  | atEnd lock past => simp [lock, past]
  | faulted lock before => simp [efault, before]
  | some lock before uncopied n pos =>
    simp only [lock, true_and]
    omega

end ReadOutcome

/-- What one read of a sequence has to satisfy, at the position that the ones before it left. -/
structure ReadCorrect (contents : List UInt8) (q : Nat) (call : Nat × ReadEnv)
    (result : ReadResult) : Prop where
  atEnd : result.retval = 0 ↔ call.2.interrupted = false ∧ contents.length ≤ q
  before : call.2.interrupted = false → call.2.uncopied = 0 → q < contents.length →
    1 ≤ result.retval ∧ result.retval ≤ call.1 ∧ result.fPos = q + result.retval ∧
      result.returned.length = result.retval
  failed : result.retval < 0 → result.fPos = q ∧
    (call.2.interrupted = true ∧ result.retval = -erestartsys ∨
      call.2.uncopied ≠ 0 ∧ result.retval = -efault)

theorem ReadOutcome.correct {call : Nat × ReadEnv}
    (outcome : ReadOutcome contents fPos call.1 call.2 result) :
    ReadCorrect contents fPos call result := by
  refine ⟨outcome.retval_eq_zero, fun lock uncopied before => ?_, fun negative => ?_⟩
  · cases outcome with
    | interrupted lock' => simp [lock] at lock'
    | atEnd _ past => omega
    | faulted _ _ uncopied' => exact absurd uncopied uncopied'
    | some _ _ _ n pos le fits =>
      have len : ((contents.drop fPos).take n).length = n := by
        rw [List.length_take, List.length_drop]
        omega
      refine ⟨by simp only; omega, by simp only; omega, rfl, ?_⟩
      simp [ReadResult.returned, len]
  · cases outcome with
    | interrupted lock => exact ⟨rfl, .inl ⟨lock, rfl⟩⟩
    | faulted _ _ uncopied => exact ⟨rfl, .inr ⟨uncopied, rfl⟩⟩
    | atEnd => simp at negative
    | some => simp at negative; omega

/-- The calls that did not fail. -/
def succeeded (calls : List (Nat × ReadEnv)) (results : List ReadResult) : List (Nat × ReadEnv) :=
  ((calls.zip results).filter fun call => decide (0 ≤ call.2.retval)).map Prod.fst

theorem successiveReads_cons {call : Nat × ReadEnv} {calls : List (Nat × ReadEnv)}
    {results : List ReadResult} {fPos : Int}
    (head : aesdRead kernel call.1 fPos call.2 = .ok result)
    (tail : successiveReads kernel result.fPos calls = .ok results) :
    successiveReads kernel fPos (call :: calls) = .ok (result :: results) := by
  simp only [successiveReads, head, tail, ok_bind]
  rfl

theorem Holds.successiveReads_spec (h : Holds kernel base ring wip frame)
    (calls : List (Nat × ReadEnv)) (asked : ∀ call ∈ calls, 0 < call.1) (p : Nat)
    (small : p < 2 ^ 63) :
    ∃ results, successiveReads kernel p calls = .ok results ∧ results.length = calls.length ∧
      delivered results <+: kernel.contents.drop p ∧
      (∀ i (hi : i < calls.length) (hi' : i < results.length),
        ReadCorrect kernel.contents (p + (delivered (results.take i)).length) calls[i]
          results[i]) ∧
      successiveReads kernel p (succeeded calls results) =
        .ok (results.filter fun result => decide (0 ≤ result.retval)) := by
  induction calls generalizing p with
  | nil => exact ⟨[], rfl, rfl, List.nil_prefix, by simp, rfl⟩
  | cons call calls ih =>
    obtain ⟨result, read, outcome⟩ := aesdRead_outcome h small (asked call (by simp)) call.2
    obtain ⟨moved, next⟩ := outcome.advances
    have bytes := h.length_contents
    have fits : p + result.returned.length < 2 ^ 63 := by
      have len := congrArg List.length next
      simp only [List.length_append, List.length_drop] at len
      omega
    obtain ⟨results, reads, length, front, correct, retried⟩ :=
      ih (fun c hc => asked c (List.mem_cons_of_mem _ hc)) _ fits
    rw [← moved] at reads retried
    refine ⟨result :: results, successiveReads_cons read reads, by simp [length], ?_,
      fun i hi hi' => ?_, ?_⟩
    · rw [delivered, List.flatMap_cons, next]
      exact (List.prefix_append_right_inj _).mpr front
    · cases i with
      | zero => simpa [delivered] using outcome.correct
      | succ i =>
        have here := correct i (by simpa using hi) (by simpa using hi')
        simpa [delivered, Nat.add_assoc] using here
    · by_cases ok : 0 ≤ result.retval
      · simpa [succeeded, ok] using successiveReads_cons read retried
      · obtain ⟨stays, -⟩ := outcome.correct.failed (by omega)
        simpa [succeeded, ok, stays] using retried

/-- Draining the device. In every state that a loaded module can get into, reads of one file from
position `p` on return a prefix of the contents from there on. Each of them is correct at the
position where the ones before it stopped, one that returns 0 finds that everything was returned,
and then so does every later one, and the reads that failed might as well not have been made. -/
theorem Loaded.Reachable.drain {d : Loaded} (reach : d.Reachable) (p : Nat) (small : p < 2 ^ 63)
    (calls : List (Nat × ReadEnv)) (asked : ∀ call ∈ calls, 0 < call.1) :
    ∃ results, successiveReads d.kernel p calls = .ok results ∧ results.length = calls.length ∧
      delivered results <+: d.kernel.contents.drop p ∧
      (∀ i (hi : i < calls.length) (hi' : i < results.length),
        ReadCorrect d.kernel.contents (p + (delivered (results.take i)).length) calls[i]
          results[i]) ∧
      (∀ i (hi : i < results.length), results[i].retval = 0 →
        delivered (results.take i) = d.kernel.contents.drop p ∧
        ∀ j (hj : j < calls.length) (hj' : j < results.length), i ≤ j →
          calls[j].2.interrupted = false → results[j].retval = 0) ∧
      successiveReads d.kernel p (succeeded calls results) =
        .ok (results.filter fun result => decide (0 ≤ result.retval)) := by
  obtain ⟨base, ring, wip, frame, h⟩ := reach.holds
  obtain ⟨results, reads, length, front, correct, retried⟩ :=
    h.successiveReads_spec calls asked p small
  refine ⟨results, reads, length, front, correct, fun i hi zero => ?_, retried⟩
  have past := ((correct i (by omega) hi).atEnd.mp zero).2
  refine ⟨?_, fun j hj hj' le free => (correct j hj hj').atEnd.mpr ⟨free, ?_⟩⟩
  · have part : delivered (results.take i) <+: d.kernel.contents.drop p :=
      (delivered_mono ( List.take_prefix i results)).trans front
    exact part.eq_of_length_le (by simp only [List.length_drop]; omega)
  · have more : (delivered (results.take i)).length ≤ (delivered (results.take j)).length :=
      (delivered_mono (List.take_prefix_take_left le)).length_le
    omega

/-- Two stored lines, read with a fault on the way. -/
theorem drain_two_lines : ∃ d : Loaded, d.kernel.contents = [97, newline, 98, newline] ∧
    ∃ results, successiveReads d.kernel 0 [(4, {}), (4, { uncopied := 1 }), (4, {})] = .ok results ∧
      delivered results <+: d.kernel.contents.drop 0 := by
  obtain ⟨results, reads, -, front, -⟩ := Loaded.Reachable.drain
    ⟨∅, ⟨0, some ⟨1, fun _ => 0⟩, 0⟩, _,
      [(.write 0 ⟨[97, newline], by decide⟩ { allocation := some ⟨2, fun _ => 0⟩ }, ⟨2, []⟩),
        (.write 0 ⟨[98, newline], by decide⟩ { allocation := some ⟨3, fun _ => 0⟩ }, ⟨2, []⟩)],
      rfl, .cons rfl (.cons rfl (.nil _))⟩
    0 (by decide) [(4, {}), (4, { uncopied := 1 }), (4, {})] (by decide)
  exact ⟨_, rfl, results, reads, front⟩

end Aesd.Driver
