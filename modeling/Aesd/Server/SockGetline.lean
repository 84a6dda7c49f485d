import Aesd.Driver.Kernel
import Aesd.ProofKit.CString
import Aesd.ProofKit.Run
import Mathlib.Data.List.Induction
import Mathlib.Data.Nat.Log

/-! `sock_getline` of `socket.c`: the bytes of each `recv` go to a buffer on the stack, from which
the C string functions copy them to a block that grows. Neither the buffer nor the block is cleared,
so what stands there from before is part of the state, and so is the memory behind the block. -/

namespace Aesd.Server

open Driver ProofKit

def sockReadbufsize : Nat := 64

/-- What `recv` delivers: at most `maxreadlen` bytes, and none once the peer has closed. -/
structure Chunk where
  bytes : List UInt8
  short : bytes.length ≤ sockReadbufsize

/-- What the system decides in one iteration: what `recv` delivers, or `none` for -1, and, should
`realloc` be called, the bytes that the new block holds behind the copied ones, or `none` for
`NULL`. -/
structure Input where
  received : Option Chunk
  realloc : Option (Nat → UInt8)

/-- The bytes received. -/
def Input.bytes (input : Input) : List UInt8 := (input.received.map Chunk.bytes).getD []

/-- One `recv` that delivers `bytes`, and a `realloc` that finds zeros. -/
def Input.of (bytes : List UInt8) (short : bytes.length ≤ sockReadbufsize) : Input :=
  ⟨some ⟨bytes, short⟩, some fun _ => 0⟩

/-- The two pieces of memory that the loop uses. -/
inductive Target
  | buffer
  | string
  deriving DecidableEq, Repr

/-- A range of indices that is read or written, and the size of the memory when that happens. -/
structure Range where
  target : Target
  start : Nat
  count : Nat
  size : Nat
  deriving DecidableEq, Repr

/-- The range is inside the memory. -/
def Range.Inside (range : Range) : Prop := range.start + range.count ≤ range.size

instance (range : Range) : Decidable range.Inside := inferInstanceAs (Decidable (_ ≤ _))

/-- The variables of `sock_getline`. `string` is the memory from the block's address on, with `size`
bytes allocated, and `touched` notes down the ranges accessed so far. -/
structure Getline where
  buffer : List UInt8
  string : Nat → UInt8
  size : Nat
  capacity : Nat
  length : Nat
  touched : List Range

namespace Getline

/-- `buflen`, the size of `buffer`. -/
def buflen : Nat := sockReadbufsize + 1

/-- The buffer before the loop, for what it holds at first. -/
def firstBuffer (initial : Fin buflen → UInt8) : List UInt8 :=
  (List.ofFn initial).set sockReadbufsize 0

/-- The variables before the loop, for what the buffer and the block of `malloc` hold. -/
def start (initial : Fin buflen → UInt8) (string : Nat → UInt8) : Getline where
  buffer := firstBuffer initial
  string := string
  size := buflen
  capacity := sockReadbufsize
  length := 0
  touched := [⟨.buffer, sockReadbufsize, 1, buflen⟩]

def touch (g : Getline) (target : Target) (start count size : Nat) : Getline :=
  { g with touched := g.touched ++ [⟨target, start, count, size⟩] }

/-- `recv` into `buffer`. -/
def recv (g : Getline) (bytes : List UInt8) : Getline :=
  { g.touch .buffer 0 bytes.length buflen with buffer := fill g.buffer bytes }

/-- The `realloc` that doubles the capacity if the new length needs it, or `none` if it fails. -/
def grow (g : Getline) (newLength : Nat) (realloc : Option (Nat → UInt8)) : Option Getline :=
  if g.capacity < newLength then
    let newCapacity := 2 * g.capacity
    realloc.map fun junk => { g with
      string := fun i => if i < min g.size newCapacity then g.string i else junk i
      size := newCapacity
      capacity := newCapacity }
  else some g

/-- `strchr(buffer, '\n')`: the index found. -/
def strchr (g : Getline) : Option Nat × Getline :=
  let string := cstr 0 g.buffer
  if newline ∈ string then
    (some (string.idxOf newline), g.touch .buffer 0 (string.idxOf newline + 1) buflen)
  else (none, g.touch .buffer 0 (string.length + 1) buflen)

def terminate (g : Getline) (i : Nat) : Getline :=
  { g.touch .buffer i 1 buflen with buffer := g.buffer.set i 0 }

/-- `strcpy(str_tail, buffer)`, where `str_tail` is `string + length`. -/
def strcpy (g : Getline) : Getline :=
  let string := cstr 0 g.buffer
  let g := g.touch .buffer 0 (string.length + 1) buflen
  let g := g.touch .string g.length (string.length + 1) g.size
  { g with string := copyTo g.string g.length (string ++ [0]) }

/-- The function goes on with its loop, returns `string`, or returns `NULL`. -/
inductive Status
  | looping
  | line
  | null
  deriving DecidableEq, Repr

def iterate (g : Getline) (input : Input) : Getline × Status :=
  match input.received with
  | none => (g, .null)
  | some chunk =>
    let count := chunk.bytes.length
    let g := g.recv chunk.bytes
    let newLength := g.length + count
    match g.grow newLength input.realloc with
    | none => (g, .null)
    | some g =>
      match g.strchr with
      | (some newlinePos, g) =>
        let g := (g.terminate (newlinePos + 1)).strcpy
        ({ g with length := g.length + count }, .line)
      | (none, g) => ({ g.strcpy with length := newLength }, .looping)

/-- The loop, as far as the inputs lead. -/
def getline (g : Getline) : List Input → Getline × Status
  | [] => (g, .looping)
  | input :: inputs =>
    match g.iterate input with
    | (g, .looping) => getline g inputs
    | ended => ended

/-- The first `*out_length` bytes of the string returned. -/
def returned (g : Getline) : List UInt8 := (List.range g.length).map g.string

theorem getline_singleton (g : Getline) (input : Input) : getline g [input] = g.iterate input := by
  rw [getline]
  rcases g.iterate input with ⟨g', _ | _ | _⟩ <;> rfl

theorem getline_append (g : Getline) (inputs more : List Input) :
    getline g (inputs ++ more) = match getline g inputs with
      | (g, .looping) => getline g more
      | ended => ended := by
  induction inputs generalizing g with
  | nil => rfl
  | cons input inputs ih =>
    simp only [List.cons_append, getline]
    rcases g.iterate input with ⟨g', _ | _ | _⟩
    · exact ih g'
    · rfl
    · rfl

/-! What one iteration does, for a buffer that ends with a NUL. -/

/-- The string in the buffer has a newline. -/
def Shows (buffer : List UInt8) : Prop := newline ∈ cstr 0 buffer

instance (buffer : List UInt8) : Decidable (Shows buffer) :=
  inferInstanceAs (Decidable (_ ∈ _))

/-- What `strcpy` copies from the buffer, without the NUL: its string up to the first newline. -/
def copied (buffer : List UInt8) : List UInt8 := upTo newline (cstr 0 buffer)

/-- A buffer as `sock_getline` keeps it. -/
structure Terminated (buffer : List UInt8) : Prop where
  length : buffer.length = buflen
  stop : buffer[sockReadbufsize]? = some 0

theorem terminated_firstBuffer (initial : Fin buflen → UInt8) :
    Terminated (firstBuffer initial) where
  length := by simp [firstBuffer]
  stop := by
    rw [firstBuffer, List.getElem?_set_self (by rw [List.length_ofFn]; exact Nat.lt_succ_self _)]

theorem Terminated.fill {buffer bytes : List UInt8} (terminated : Terminated buffer)
    (short : bytes.length ≤ sockReadbufsize) : Terminated (fill buffer bytes) where
  length := by
    have len := terminated.length
    have size : buflen = sockReadbufsize + 1 := rfl
    simp only [ProofKit.fill, List.length_append, List.length_drop]
    omega
  stop := by
    rw [ProofKit.fill, List.getElem?_append_right short, List.getElem?_drop,
      Nat.add_sub_cancel' short, terminated.stop]

theorem Terminated.length_cstr_le {buffer : List UInt8} (terminated : Terminated buffer) :
    (cstr 0 buffer).length ≤ sockReadbufsize :=
  ProofKit.length_cstr_le terminated.stop

/-- The state once the block is large enough for `newLength`. -/
def grown (g : Getline) (newLength : Nat) (junk : Nat → UInt8) : Getline :=
  (g.grow newLength (some junk)).getD g

theorem grow_some (g : Getline) (newLength : Nat) (junk : Nat → UInt8) :
    g.grow newLength (some junk) = some (g.grown newLength junk) := by
  unfold grown grow
  split <;> rfl

/-- What an iteration that receives `bytes` leaves, besides the buffer. -/
structure Iterated (g : Getline) (bytes : List UInt8) (junk : Nat → UInt8) (g' : Getline) :
    Prop where
  string : g'.string = copyTo (g.grown (g.length + bytes.length) junk).string g.length
    (copied (fill g.buffer bytes) ++ [0])
  size : g'.size = (g.grown (g.length + bytes.length) junk).size
  capacity : g'.capacity = (g.grown (g.length + bytes.length) junk).capacity
  length : g'.length = g.length + bytes.length
  touched : ∃ ranges, (∀ range ∈ ranges, range.target = .buffer ∧ range.Inside) ∧
    g'.touched = g.touched ++ ranges ++
      [⟨.string, g.length, (copied (fill g.buffer bytes)).length + 1, g'.size⟩]

theorem grown_recv (g : Getline) (bytes : List UInt8) (newLength : Nat) (junk : Nat → UInt8) :
    (g.recv bytes).grown newLength junk =
      { g.grown newLength junk with
        buffer := fill g.buffer bytes
        touched := g.touched ++ [⟨.buffer, 0, bytes.length, buflen⟩] } := by
  unfold grown grow recv touch
  dsimp only
  split <;> rfl

theorem grown_length (g : Getline) (newLength : Nat) (junk : Nat → UInt8) :
    (g.grown newLength junk).length = g.length := by
  unfold grown grow
  split <;> rfl

/-- An iteration that receives bytes ends the loop exactly when the buffer shows a newline. -/
theorem iterate_chunk {g : Getline} (terminated : Terminated g.buffer) (chunk : Chunk)
    (junk : Nat → UInt8) :
    ∃ g', g.iterate ⟨some chunk, some junk⟩ =
        (g', if Shows (fill g.buffer chunk.bytes) then .line else .looping) ∧
      Iterated g chunk.bytes junk g' ∧
      (¬Shows (fill g.buffer chunk.bytes) → g'.buffer = fill g.buffer chunk.bytes) := by
  have short := chunk.short
  have filled := terminated.fill short
  have strlen := filled.length_cstr_le
  have len := filled.length
  have size : buflen = sockReadbufsize + 1 := rfl
  simp only [iterate, grow_some, show (g.recv chunk.bytes).length = g.length from rfl, grown_recv]
  obtain ⟨b, filled_eq⟩ : ∃ b, fill g.buffer chunk.bytes = b := ⟨_, rfl⟩
  rw [filled_eq] at filled strlen len ⊢
  by_cases shown : newline ∈ cstr 0 b
  · have index : (cstr 0 b).idxOf newline < (cstr 0 b).length :=
      List.idxOf_lt_length_of_mem shown
    have copy : cstr 0 (b.set ((cstr 0 b).idxOf newline + 1) 0) = copied b :=
      cstr_set (by omega) (by omega)
    have copyLength : (copied b).length = (cstr 0 b).idxOf newline + 1 := length_upTo shown
    simp only [strchr, if_pos shown, terminate, touch, strcpy, copy, grown_length]
    rw [if_pos (show Shows b from shown)]
    refine ⟨_, rfl, ?_, fun hidden => absurd shown hidden⟩
    refine ⟨by rw [filled_eq], rfl, rfl, rfl,
      [⟨.buffer, 0, chunk.bytes.length, buflen⟩,
        ⟨.buffer, 0, (cstr 0 b).idxOf newline + 1, buflen⟩,
        ⟨.buffer, (cstr 0 b).idxOf newline + 1, 1, buflen⟩,
        ⟨.buffer, 0, (copied b).length + 1, buflen⟩], ?_, ?_⟩
    · simp only [List.forall_mem_cons, Range.Inside, true_and]
      exact ⟨by omega, by omega, by omega, by omega, by simp⟩
    · simp [filled_eq]
  · have copy : copied b = cstr 0 b := upTo_of_not_mem shown
    simp only [strchr, if_neg shown, touch, strcpy, grown_length]
    rw [if_neg (show ¬Shows b from shown)]
    refine ⟨_, rfl, ?_, fun _ => rfl⟩
    refine ⟨by rw [filled_eq, copy], rfl, rfl, rfl,
      [⟨.buffer, 0, chunk.bytes.length, buflen⟩,
        ⟨.buffer, 0, (cstr 0 b).length + 1, buflen⟩,
        ⟨.buffer, 0, (cstr 0 b).length + 1, buflen⟩], ?_, ?_⟩
    · simp only [List.forall_mem_cons, Range.Inside, true_and]
      exact ⟨by omega, by omega, by omega, by simp⟩
    · simp [filled_eq, copy]

/-! The state after some inputs, in terms of the inputs. -/

def received (inputs : List Input) : List UInt8 := inputs.flatMap Input.bytes

/-- What the buffer holds after the `recv`s, whatever it held at first. -/
def bufferAfter (buffer : List UInt8) (inputs : List Input) : List UInt8 :=
  inputs.foldl (fun buffer input => fill buffer input.bytes) buffer

/-- No `recv` failed, and none left the buffer showing a newline. -/
def Quiet (buffer : List UInt8) : List Input → Prop
  | [] => True
  | input :: inputs => input.received.isSome ∧ ¬Shows (fill buffer input.bytes) ∧
    Quiet (fill buffer input.bytes) inputs

/-- `realloc` succeeds. -/
def Granted (inputs : List Input) : Prop := ∀ input ∈ inputs, input.realloc.isSome

/-- The least capacity for `n` bytes. -/
def capacityFor (n : Nat) : Nat :=
  sockReadbufsize * 2 ^ Nat.clog 2 ((n + (sockReadbufsize - 1)) / sockReadbufsize)

/-- The size of the block once `n` bytes were received: the first block has room for a NUL. -/
def allocated (n : Nat) : Nat := if n ≤ sockReadbufsize then buflen else capacityFor n

theorem bufferAfter_append (buffer : List UInt8) (inputs more : List Input) :
    bufferAfter buffer (inputs ++ more) = bufferAfter (bufferAfter buffer inputs) more :=
  List.foldl_append

theorem quiet_append {buffer : List UInt8} {inputs more : List Input} :
    Quiet buffer (inputs ++ more) ↔
      Quiet buffer inputs ∧ Quiet (bufferAfter buffer inputs) more := by
  induction inputs generalizing buffer with
  | nil => simp [Quiet, bufferAfter]
  | cons input inputs ih =>
    simp only [List.cons_append, Quiet, ih, bufferAfter, List.foldl_cons]
    tauto

theorem quiet_or_split (buffer : List UInt8) (inputs : List Input) : Quiet buffer inputs ∨
    ∃ before last rest, inputs = before ++ last :: rest ∧ Quiet buffer before ∧
      (last.received = none ∨
        last.received.isSome ∧ Shows (bufferAfter buffer (before ++ [last]))) := by
  induction inputs generalizing buffer with
  | nil => exact .inl trivial
  | cons input inputs ih =>
    cases failed : input.received with
    | none => exact .inr ⟨[], input, inputs, rfl, trivial, .inl failed⟩
    | some chunk =>
      by_cases shown : Shows (fill buffer input.bytes)
      · exact .inr ⟨[], input, inputs, rfl, trivial, .inr ⟨by simp [failed], shown⟩⟩
      rcases ih (fill buffer input.bytes) with quiet | ⟨before, last, rest, rfl, quiet, ends⟩
      · exact .inl ⟨by simp [failed], shown, quiet⟩
      · exact .inr ⟨input :: before, last, rest, rfl, ⟨by simp [failed], shown, quiet⟩, ends⟩

theorem le_capacityFor (n : Nat) : n ≤ capacityFor n := by
  have le := Nat.le_pow_clog (by decide : 1 < 2)
    ((n + (sockReadbufsize - 1)) / sockReadbufsize)
  unfold capacityFor
  generalize 2 ^ Nat.clog 2 ((n + (sockReadbufsize - 1)) / sockReadbufsize) = cap at *
  simp only [sockReadbufsize] at *
  omega

theorem capacityFor_of_le {n : Nat} (le : n ≤ sockReadbufsize) :
    capacityFor n = sockReadbufsize := by
  have one : (n + (sockReadbufsize - 1)) / sockReadbufsize ≤ 1 := by
    simp only [sockReadbufsize] at *
    omega
  rw [capacityFor, Nat.clog_of_right_le_one one, Nat.pow_zero, Nat.mul_one]

theorem capacityFor_add (n : Nat) {c : Nat} (short : c ≤ sockReadbufsize) :
    capacityFor (n + c) =
      if capacityFor n < n + c then 2 * capacityFor n else capacityFor n := by
  have le : (n + (sockReadbufsize - 1)) / sockReadbufsize ≤
      (n + c + (sockReadbufsize - 1)) / sockReadbufsize := Nat.div_le_div_right (by omega)
  have next : (n + c + (sockReadbufsize - 1)) / sockReadbufsize ≤
      (n + (sockReadbufsize - 1)) / sockReadbufsize + 1 := by
    rw [← Nat.add_div_right _ (by decide)]
    exact Nat.div_le_div_right (by omega)
  have holds := Nat.le_pow_clog (by decide : 1 < 2)
    ((n + (sockReadbufsize - 1)) / sockReadbufsize)
  have mono := Nat.clog_mono_right 2 le
  have one := Nat.one_le_two_pow (n := Nat.clog 2 ((n + (sockReadbufsize - 1)) / sockReadbufsize))
  have more : capacityFor n < n + c ↔
      2 ^ Nat.clog 2 ((n + (sockReadbufsize - 1)) / sockReadbufsize) <
        (n + c + (sockReadbufsize - 1)) / sockReadbufsize := by
    unfold capacityFor
    rw [Nat.lt_div_iff_mul_lt (by decide)]
    simp only [sockReadbufsize]
    omega
  split
  · rename_i grows
    have up := (Nat.lt_clog_iff_pow_lt (by decide)).mpr (more.mp grows)
    have down : Nat.clog 2 ((n + c + (sockReadbufsize - 1)) / sockReadbufsize) ≤
        Nat.clog 2 ((n + (sockReadbufsize - 1)) / sockReadbufsize) + 1 :=
      Nat.clog_le_of_le_pow (by rw [Nat.pow_succ]; omega)
    rw [capacityFor, Nat.le_antisymm down up, Nat.pow_succ', Nat.mul_left_comm, ← capacityFor]
  · rename_i room
    have down := Nat.clog_le_of_le_pow (b := 2) (Nat.le_of_not_lt (mt more.mpr room))
    rw [capacityFor, Nat.le_antisymm down mono, capacityFor]

/-- The state that quiet inputs lead to. -/
structure After (initial : Fin buflen → UInt8) (inputs : List Input) (g : Getline) : Prop where
  buffer : g.buffer = bufferAfter (firstBuffer initial) inputs
  terminated : Terminated g.buffer
  length : g.length = (received inputs).length
  capacity : g.capacity = capacityFor g.length
  size : g.size = allocated g.length

/-- A state whose block is as large as what it received needs. -/
theorem grown_capacity {g : Getline} (capacity : g.capacity = capacityFor g.length)
    (size : g.size = allocated g.length) {c : Nat} (short : c ≤ sockReadbufsize)
    (junk : Nat → UInt8) :
    (g.grown (g.length + c) junk).capacity = capacityFor (g.length + c) ∧
      (g.grown (g.length + c) junk).size = allocated (g.length + c) := by
  have next := capacityFor_add g.length short
  have holds := le_capacityFor g.length
  have first : sockReadbufsize ≤ capacityFor g.length :=
    Nat.le_mul_of_pos_right _ (Nat.two_pow_pos _)
  unfold grown grow
  rw [← capacity] at next holds first
  split
  · rename_i grows
    rw [if_pos grows] at next
    refine ⟨next.symm, ?_⟩
    rw [allocated, if_neg (by omega), next]
    rfl
  · rename_i room
    rw [if_neg room] at next
    refine ⟨by rw [next]; rfl, ?_⟩
    rw [allocated, next, Option.getD_some, size, allocated, ← capacity]
    by_cases first : g.length ≤ sockReadbufsize
    · rw [capacityFor_of_le first] at capacity
      rw [if_pos first, if_pos (by omega)]
    · rw [if_neg first, if_neg (by omega)]

variable {initial : Fin buflen → UInt8} {string : Nat → UInt8} {g : Getline} {input : Input}
  {inputs : List Input}

theorem After.start : After initial [] (start initial string) where
  buffer := rfl
  terminated := terminated_firstBuffer initial
  length := rfl
  capacity := (capacityFor_of_le (Nat.zero_le _)).symm
  size := rfl

theorem length_bytes_le (input : Input) : input.bytes.length ≤ sockReadbufsize := by
  unfold Input.bytes
  cases input.received with
  | none => exact Nat.zero_le _
  | some chunk => exact chunk.short

theorem After.iterate (after : After initial inputs g) (delivered : input.received.isSome)
    (granted : input.realloc.isSome) :
    ∃ junk g', input.realloc = some junk ∧
      g.iterate input = (g',
        if Shows (bufferAfter (firstBuffer initial) (inputs ++ [input])) then .line
        else .looping) ∧
      Iterated g input.bytes junk g' ∧
      g'.length = (received (inputs ++ [input])).length ∧ g'.size = allocated g'.length ∧
      (¬Shows (bufferAfter (firstBuffer initial) (inputs ++ [input])) →
        After initial (inputs ++ [input]) g') := by
  have filled : fill g.buffer input.bytes =
      bufferAfter (firstBuffer initial) (inputs ++ [input]) := by
    rw [bufferAfter_append, ← after.buffer]
    rfl
  obtain ⟨chunk, delivers⟩ := Option.isSome_iff_exists.mp delivered
  obtain ⟨junk, grants⟩ := Option.isSome_iff_exists.mp granted
  have bytes : input.bytes = chunk.bytes := by simp [Input.bytes, delivers]
  obtain ⟨g', iterated, state, buffer⟩ := iterate_chunk after.terminated chunk junk
  rw [← bytes] at iterated state buffer
  rw [show (⟨some chunk, some junk⟩ : Input) = input from by rw [← delivers, ← grants], filled]
    at iterated
  rw [filled] at buffer
  have length : g'.length = (received (inputs ++ [input])).length := by
    rw [state.length, after.length, received, received, List.flatMap_append, List.length_append]
    simp
  obtain ⟨capacity, size⟩ := grown_capacity after.capacity after.size (length_bytes_le input) junk
  rw [← state.capacity, ← state.length] at capacity
  rw [← state.size, ← state.length] at size
  refine ⟨junk, g', grants, iterated, state, length, size, fun hidden => ?_⟩
  refine ⟨buffer hidden, ?_, length, capacity, size⟩
  rw [buffer hidden, ← filled]
  exact after.terminated.fill (length_bytes_le input)

theorem Granted.left {more : List Input} (granted : Granted (inputs ++ more)) : Granted inputs :=
  fun input mem => granted input (List.mem_append_left _ mem)

theorem Granted.right {more : List Input} (granted : Granted (inputs ++ more)) : Granted more :=
  fun input mem => granted input (List.mem_append_right _ mem)

theorem getline_quiet (string : Nat → UInt8) (granted : Granted inputs)
    (quiet : Quiet (firstBuffer initial) inputs) :
    ∃ g, getline (.start initial string) inputs = (g, .looping) ∧ After initial inputs g := by
  induction inputs using List.reverseRecOn with
  | nil => exact ⟨_, rfl, .start⟩
  | append_singleton inputs input ih =>
    obtain ⟨earlier, delivered, hidden, -⟩ := quiet_append.mp quiet
    obtain ⟨g, looping, after⟩ := ih granted.left earlier
    obtain ⟨junk, g', -, iterated, -, -, -, next⟩ :=
      after.iterate delivered (granted input (by simp))
    replace hidden : ¬Shows (bufferAfter (firstBuffer initial) (inputs ++ [input])) := by
      rwa [bufferAfter_append]
    rw [if_neg hidden] at iterated
    refine ⟨g', ?_, next hidden⟩
    rw [getline_append, looping]
    simp only [getline, iterated]

theorem getline_ends {before rest : List Input} {last : Input} {after g' : Getline}
    {status : Status} (quiet : getline g before = (after, .looping))
    (iterated : after.iterate last = (g', status)) (ended : status ≠ .looping) :
    getline g (before ++ last :: rest) = (g', status) := by
  rw [getline_append, quiet]
  simp only [getline, iterated]
  cases status with
  | looping => exact absurd rfl ended
  | line => rfl
  | null => rfl

/-- How far the loop gets: it goes on after quiet inputs, and otherwise ends at the first input that
is not, with `NULL` when `recv` failed and else with the string. -/
inductive Outcome (initial : Fin buflen → UInt8) (string : Nat → UInt8) :
    List Input → Getline × Status → Prop
  | looping {inputs : List Input} {g : Getline} (quiet : Quiet (firstBuffer initial) inputs)
      (after : After initial inputs g) : Outcome initial string inputs (g, .looping)
  | null {before rest : List Input} {last : Input} {g : Getline}
      (quiet : Quiet (firstBuffer initial) before) (failed : last.received = none) :
      Outcome initial string (before ++ last :: rest) (g, .null)
  | line {before rest : List Input} {last : Input} {g g' : Getline} {junk : Nat → UInt8}
      (quiet : Quiet (firstBuffer initial) before) (after : After initial before g)
      (reached : getline (.start initial string) before = (g, .looping))
      (delivered : last.received.isSome)
      (shown : Shows (bufferAfter (firstBuffer initial) (before ++ [last])))
      (grants : last.realloc = some junk) (state : Iterated g last.bytes junk g')
      (length : g'.length = (received (before ++ [last])).length)
      (size : g'.size = allocated g'.length) :
      Outcome initial string (before ++ last :: rest) (g', .line)

theorem getline_outcome (initial : Fin buflen → UInt8) (string : Nat → UInt8)
    (granted : Granted inputs) :
    Outcome initial string inputs (getline (.start initial string) inputs) := by
  rcases quiet_or_split (firstBuffer initial) inputs with
    quiet | ⟨before, last, rest, rfl, quiet, ends⟩
  · obtain ⟨g, looping, after⟩ := getline_quiet string granted quiet
    rw [looping]
    exact .looping quiet after
  obtain ⟨g, looping, after⟩ := getline_quiet string granted.left quiet
  rcases ends with failed | ⟨delivered, shown⟩
  · have iterated : g.iterate last = (g, .null) := by rw [Getline.iterate, failed]
    rw [getline_ends looping iterated (by decide)]
    exact .null quiet failed
  · obtain ⟨junk, g', grants, iterated, state, length, size, -⟩ :=
      after.iterate delivered (granted last (by simp))
    rw [if_pos shown] at iterated
    rw [getline_ends looping iterated (by decide)]
    exact .line quiet after looping delivered shown grants state length size

end Getline

end Aesd.Server
