import Aesd.Server.GetlineBounds

/-! When `sock_getline` returns the first line: it must see the newline with the last byte received,
and no byte may come behind a NUL, since `strcpy` leaves it out. -/

namespace Aesd.Server

open Driver ProofKit

namespace Getline

/-- The bytes that arrive before `recv` first fails. -/
def stream (inputs : List Input) : List UInt8 :=
  received (inputs.takeWhile fun input => input.received.isSome)

/-- The block holds `bytes` from its start on. -/
def Content (g : Getline) (bytes : List UInt8) : Prop :=
  ∀ k (hk : k < bytes.length), g.string k = bytes[k]

/-- The block before `strcpy`, once it has the size for the bytes received. -/
def resized (g : Getline) (input : Input) : Nat → UInt8 :=
  (g.grown (g.length + input.bytes.length) (input.realloc.getD fun _ => 0)).string

/-- The bytes received behind a NUL are at their place in the block before `strcpy`. -/
def Standing (g : Getline) (input : Input) : Prop :=
  ∀ j (hj : j < input.bytes.length), (cstr 0 input.bytes).length < j →
    g.resized input (g.length + j) = input.bytes[j]

/-- They are at each of the inputs. -/
def AllStanding (initial : Fin buflen → UInt8) (string : Nat → UInt8) (inputs : List Input) :
    Prop :=
  ∀ before input after, inputs = before ++ input :: after →
    Standing (getline (.start initial string) before).1 input

variable {initial : Fin buflen → UInt8} {string : Nat → UInt8} {g g' : Getline}
  {input last : Input} {inputs before rest : List Input} {bytes : List UInt8}

theorem le_allocated (n : Nat) : n ≤ allocated n := by
  have le := le_capacityFor n
  unfold allocated
  split
  · rename_i small
    exact Nat.le_trans small (Nat.le_succ _)
  · exact le

theorem content_append {n : Nat} (length : n = (received inputs).length) :
    Content g (received (inputs ++ [input])) ↔ Content g (received inputs) ∧
      ∀ j (hj : j < input.bytes.length), g.string (n + j) = input.bytes[j] := by
  have bytes : received (inputs ++ [input]) = received inputs ++ input.bytes := by
    simp [received]
  subst length
  rw [Content, bytes]
  constructor
  · intro content
    refine ⟨fun k hk => ?_, fun j hj => ?_⟩
    · rw [content k (by simp; omega), List.getElem_append_left hk]
    · rw [content _ (by simp; omega), List.getElem_append_right (Nat.le_add_right _ _)]
      simp
  · rintro ⟨old, new⟩ k hk
    by_cases inside : k < (received inputs).length
    · rw [old k inside, List.getElem_append_left inside]
    · obtain ⟨j, rfl⟩ := Nat.exists_eq_add_of_le (Nat.le_of_not_lt inside)
      rw [new j (by simpa using hk), List.getElem_append_right (Nat.le_add_right _ _)]
      simp

theorem After.grown_string (after : After initial inputs g) (newLength : Nat) (junk : Nat → UInt8)
    {k : Nat} (old : k < g.length) : (g.grown newLength junk).string k = g.string k := by
  have fits := le_allocated g.length
  have room := le_capacityFor g.length
  rw [← after.size] at fits
  rw [← after.capacity] at room
  unfold grown grow
  split
  · exact if_pos (by omega)
  · rfl

theorem After.string_old (after : After initial inputs g) {junk : Nat → UInt8}
    (state : Iterated g bytes junk g') {k : Nat} (old : k < g.length) :
    g'.string k = g.string k := by
  rw [state.string, copyTo_before old, after.grown_string _ _ old]

/-- After an iteration that shows no newline the block holds the bytes received exactly when it held
those from before and what `strcpy` leaves out. -/
theorem After.content_next (after : After initial inputs g) {junk : Nat → UInt8}
    (grants : input.realloc = some junk) (state : Iterated g input.bytes junk g')
    (hidden : ¬Shows (fill g.buffer input.bytes)) :
    Content g' (received (inputs ++ [input])) ↔
      Content g (received inputs) ∧ Standing g input := by
  have copies : (∀ j (hj : j < input.bytes.length), g'.string (g.length + j) = input.bytes[j]) ↔
      Standing g input := by
    rw [state.string, copied, upTo_of_not_mem hidden, Standing, resized, grants]
    exact copyTo_cstr_iff
  rw [← copies, content_append after.length]
  refine and_congr_left fun _ => forall₂_congr fun k hk => ?_
  rw [after.string_old state (by rwa [after.length])]

/-- After quiet inputs the block holds the bytes received exactly when what `strcpy` left out was at
its place each time. -/
theorem content_iff (granted : Granted inputs) (quiet : Quiet (firstBuffer initial) inputs)
    (reached : getline (.start initial string) inputs = (g, .looping)) :
    Content g (received inputs) ↔ AllStanding initial string inputs := by
  induction inputs using List.reverseRecOn generalizing g with
  | nil =>
    refine iff_of_true (fun k hk => ?_) fun before input after split => ?_
    · simp [received] at hk
    · simp at split
  | append_singleton inputs input ih =>
    obtain ⟨earlier, delivered, hidden, -⟩ := quiet_append.mp quiet
    obtain ⟨g₀, looping, after⟩ := getline_quiet string granted.left earlier
    obtain ⟨junk, g', grants, iterated, state, -⟩ :=
      after.iterate delivered (granted input (by simp))
    rw [← after.buffer] at hidden
    simp only [getline_append, looping, getline_singleton, iterated] at reached
    obtain rfl : g' = g := congrArg Prod.fst reached
    rw [after.content_next grants state hidden, ih granted.left earlier looping]
    unfold AllStanding
    rw [forall_split_snoc, looping]

theorem length_returned (g : Getline) : g.returned.length = g.length := by simp [returned]

theorem returned_eq_iff : g.returned = bytes ↔ g.length = bytes.length ∧ Content g bytes := by
  constructor
  · rintro rfl
    exact ⟨(length_returned g).symm, fun k hk => by simp [returned]⟩
  · rintro ⟨length, content⟩
    refine List.ext_getElem (by rw [length_returned, length]) fun k _ hk => ?_
    rw [← content k hk]
    simp [returned]

theorem After.content_last (after : After initial before g) {junk : Nat → UInt8}
    (state : Iterated g last.bytes junk g') (shown : Shows (fill g.buffer last.bytes))
    {body : List UInt8} (line : received (before ++ [last]) = body ++ [newline])
    (one : newline ∉ body) :
    Content g' (received (before ++ [last])) ↔ Content g (received before) := by
  have old : Content g' (received before) ↔ Content g (received before) :=
    forall₂_congr fun k hk => by rw [after.string_old state (by rwa [after.length])]
  rw [content_append after.length, old, and_iff_left_iff_imp]
  intro _ j hj
  -- the chunk is the end of the line
  have bytes : received before ++ last.bytes = body ++ [newline] := by
    rw [← line]
    simp [received]
  obtain ⟨front, chunk⟩ : ∃ front, last.bytes = front ++ [newline] := by
    rcases List.eq_nil_or_concat last.bytes with empty | ⟨front, x, split⟩
    · simp [empty] at hj
    · rw [split, List.concat_eq_append, ← List.append_assoc] at bytes
      obtain ⟨-, same⟩ := List.append_inj' bytes rfl
      exact ⟨front, by rw [split, List.concat_eq_append, same]⟩
  have clean : newline ∉ front := by
    rw [chunk, ← List.append_assoc] at bytes
    obtain ⟨rfl, -⟩ := List.append_inj' bytes rfl
    exact fun mem => one (List.mem_append_right _ mem)
  unfold Shows fill at shown
  rw [chunk] at shown
  have copy : copied (fill g.buffer last.bytes) = last.bytes := by
    rw [copied, fill, chunk]
    exact (upTo_cstr_line (by decide) clean shown).1
  rw [state.string, copy, copyTo_inside (by simp; omega), List.getElem_append_left hj]

theorem quiet_delivered {buffer : List UInt8} (quiet : Quiet buffer inputs) :
    ∀ input ∈ inputs, input.received.isSome := by
  induction inputs generalizing buffer with
  | nil => simp
  | cons input inputs ih =>
    obtain ⟨delivered, -, rest⟩ := quiet
    simpa using ⟨delivered, ih rest⟩

theorem received_append (inputs more : List Input) :
    received (inputs ++ more) = received inputs ++ received more := List.flatMap_append

theorem stream_append (delivered : ∀ input ∈ inputs, input.received.isSome) (more : List Input) :
    stream (inputs ++ more) = received inputs ++ stream more := by
  rw [stream, List.takeWhile_append_of_pos delivered, received_append]
  rfl

/-- Behind `before`, `last` is the first input that leaves a newline in the string in the buffer. -/
structure FirstShown (initial : Fin buflen → UInt8) (before : List Input) (last : Input) :
    Prop where
  quiet : Quiet (firstBuffer initial) before
  delivered : last.received.isSome
  shown : Shows (bufferAfter (firstBuffer initial) (before ++ [last]))

/-- The bytes received up to the first input that shows a newline are exactly the first line. -/
def LineReceived (initial : Fin buflen → UInt8) (inputs : List Input) : Prop :=
  ∃ before last rest, inputs = before ++ last :: rest ∧ FirstShown initial before last ∧
    newline ∈ stream inputs ∧ received (before ++ [last]) = upTo newline (stream inputs)

/-- They are, no earlier input has a byte behind a NUL, and `strcpy` keeps to the block. -/
def LineArrives (initial : Fin buflen → UInt8) (inputs : List Input) : Prop :=
  ∃ before last rest, inputs = before ++ last :: rest ∧ FirstShown initial before last ∧
    newline ∈ stream inputs ∧ received (before ++ [last]) = upTo newline (stream inputs) ∧
    (∀ input ∈ before, 0 ∉ input.bytes.dropLast) ∧ Fits (firstBuffer initial) inputs

theorem standing_of_dropLast (g : Getline) (last : 0 ∉ input.bytes.dropLast) :
    Standing g input := by
  intro j hj behind
  rcases List.eq_nil_or_concat input.bytes with empty | ⟨front, x, concat⟩
  · simp [empty] at hj
  · rw [List.concat_eq_append] at concat
    rw [concat, List.dropLast_concat] at last
    rw [concat, cstr_append_of_not_mem last] at behind
    rw [concat] at hj
    simp only [List.length_append, List.length_singleton] at hj behind
    omega

theorem returned_iff (string : Nat → UInt8) (granted : Granted (before ++ last :: rest))
    (first : FirstShown initial before last)
    (arrives : newline ∈ stream (before ++ last :: rest)) :
    ∃ g, getline (.start initial string) (before ++ last :: rest) = (g, .line) ∧
      (g.returned = upTo newline (stream (before ++ last :: rest)) ↔
        received (before ++ [last]) = upTo newline (stream (before ++ last :: rest)) ∧
          AllStanding initial string before) := by
  obtain ⟨quiet, delivered, shown⟩ := first
  obtain ⟨g, looping, after⟩ := getline_quiet string granted.left quiet
  obtain ⟨junk, g', -, iterated, state, length, -⟩ :=
    after.iterate delivered (granted last (by simp))
  rw [if_pos shown] at iterated
  have shown' : Shows (fill g.buffer last.bytes) := by
    rw [after.buffer]
    rwa [bufferAfter_append] at shown
  have delivers : ∀ input ∈ before ++ [last], input.received.isSome := by
    simpa [or_imp, forall_and] using ⟨quiet_delivered quiet, delivered⟩
  have front : received (before ++ [last]) <+: stream (before ++ last :: rest) := by
    have split := stream_append delivers rest
    rw [List.append_assoc, List.singleton_append] at split
    rw [split]
    exact List.prefix_append _ _
  refine ⟨g', getline_ends looping iterated (by decide), ?_⟩
  generalize stream (before ++ last :: rest) = bytes at *
  obtain ⟨body, line, one⟩ := upTo_eq_append arrives
  have held (whole : received (before ++ [last]) = upTo newline bytes) :
      Content g' (received (before ++ [last])) ↔ AllStanding initial string before := by
    rw [after.content_last state shown' (whole.trans line) one,
      content_iff granted.left quiet looping]
  rw [returned_eq_iff, length]
  constructor
  · rintro ⟨length, content⟩
    have whole : received (before ++ [last]) = upTo newline bytes :=
      (List.prefix_of_prefix_length_le front upTo_prefix (Nat.le_of_eq length)).eq_of_length length
    exact ⟨whole, (held whole).mp (whole ▸ content)⟩
  · rintro ⟨whole, stands⟩
    rw [← whole]
    exact ⟨rfl, (held whole).mpr stands⟩

theorem LineArrives.line (string : Nat → UInt8) (granted : Granted inputs)
    (arrives : LineArrives initial inputs) :
    ∃ g, getline (.start initial string) inputs = (g, .line) ∧
      g.returned = upTo newline (stream inputs) := by
  obtain ⟨before, last, rest, rfl, first, some_, brings, tails, -⟩ := arrives
  obtain ⟨g, returns, iff⟩ := returned_iff string granted first some_
  refine ⟨g, returns, iff.mpr ⟨brings, ?_⟩⟩
  rintro earlier input later rfl
  exact standing_of_dropLast _ (tails input (by simp))

theorem lineReceived_of_returned (granted : Granted inputs) (arrives : newline ∈ stream inputs)
    (line : getline (.start initial string) inputs = (g, .line))
    (same : g.returned = upTo newline (stream inputs)) : LineReceived initial inputs := by
  cases line ▸ getline_outcome initial string granted with
  | @line before rest last g₀ _ junk quiet after reached delivered shown =>
    have first : FirstShown initial before last := ⟨quiet, delivered, shown⟩
    obtain ⟨g', returns, iff⟩ := returned_iff string granted first arrives
    obtain rfl : g' = g := congrArg Prod.fst (returns.symm.trans line)
    exact ⟨before, last, rest, rfl, first, arrives, (iff.mp same).1⟩

/-- Whatever was in the buffer and in the block: `sock_getline` returns the first line of the stream
when the bytes received up to the first input that shows a newline are exactly that line, no earlier
input has a byte behind a NUL, and `strcpy` keeps to the block. It does so only when the bytes
received are exactly that line. -/
theorem getline_first_line (granted : Granted inputs) :
    (LineArrives initial inputs → ∃ g, getline (.start initial string) inputs = (g, .line) ∧
      g.returned = upTo newline (stream inputs) ∧
      g.length = (upTo newline (stream inputs)).length) ∧
    ∀ g, newline ∈ stream inputs → getline (.start initial string) inputs = (g, .line) →
      g.returned = upTo newline (stream inputs) → LineReceived initial inputs := by
  constructor
  · intro arrives
    obtain ⟨g, line, returned⟩ := arrives.line string granted
    exact ⟨g, line, returned, by rw [← returned, length_returned]⟩
  · intro g arrives line same
    exact lineReceived_of_returned granted arrives line same

theorem longLine_first : FirstShown (fun _ => newline) [.of (List.replicate 64 97) (by decide)]
    (.of [98, newline] (by decide)) :=
  ⟨⟨rfl, by decide, trivial⟩, rfl, by decide⟩

theorem longLine_arrives : LineArrives (fun _ => newline) longLine :=
  ⟨_, _, [], rfl, longLine_first, by decide, by decide, by decide, longLine_fits⟩

/-- The long line is returned, with newlines in the buffer before. -/
theorem getline_first_line_long : ∃ g,
    getline (.start (fun _ => newline) fun i => i.toUInt8) longLine = (g, .line) ∧
      g.returned = List.replicate 64 97 ++ [98, newline] ∧ g.length = 66 := by
  obtain ⟨g, line, returned, length⟩ :=
    (@getline_first_line _ (fun i => i.toUInt8) _ longLine_granted).1 longLine_arrives
  have same : upTo newline (stream longLine) = List.replicate 64 97 ++ [98, newline] := by decide
  rw [same] at returned length
  exact ⟨g, line, returned, length⟩

/-- A line and one byte more in one piece: the byte is counted, and a NUL stands in its place. -/
theorem getline_counts_behind : ¬∀ initial string inputs g, Granted inputs →
    newline ∈ stream inputs → getline (.start initial string) inputs = (g, .line) →
    g.returned = upTo newline (stream inputs) ∧
      g.length = (upTo newline (stream inputs)).length := by
  intro first
  have counted := (first (fun _ => 0) (fun _ => 0) [.of [97, newline, 98] (by decide)] _
    (by simp [Granted, Input.of]) (by decide) rfl).2
  revert counted
  decide

end Getline

end Aesd.Server
