import Aesd.Server.SockGetline

/-! Which indices `sock_getline` accesses. Those of its buffer are always inside. Those of the block
are inside exactly when at each `recv` the string in the buffer and its NUL fit behind the bytes
received before. -/

namespace Aesd.Server

open Driver ProofKit

namespace Getline

/-- At each `recv` that the loop gets to, what `strcpy` copies fits into the block. -/
def Fits (buffer : List UInt8) (inputs : List Input) : Prop :=
  ∀ before last rest, inputs = before ++ last :: rest → Quiet buffer before →
    last.received.isSome →
    (received before).length + (copied (bufferAfter buffer (before ++ [last]))).length + 1 ≤
      allocated (received (before ++ [last])).length

variable {initial : Fin buflen → UInt8} {string : Nat → UInt8} {buffer : List UInt8}
  {input : Input} {inputs : List Input}

theorem fits_nil : Fits buffer [] := by
  intro before last rest split
  simp at split

theorem fits_snoc : Fits buffer (inputs ++ [input]) ↔
    Fits buffer inputs ∧ (Quiet buffer inputs → input.received.isSome →
      (received inputs).length + (copied (bufferAfter buffer (inputs ++ [input]))).length + 1 ≤
        allocated (received (inputs ++ [input])).length) := by
  unfold Fits
  exact forall_split_snoc

theorem looping_iff (initial : Fin buflen → UInt8) (string : Nat → UInt8)
    (granted : Granted inputs) :
    (getline (.start initial string) inputs).2 = .looping ↔ Quiet (firstBuffer initial) inputs := by
  have loud {before rest : List Input} {last : Input}
      (ends : last.received = none ∨ Shows (bufferAfter (firstBuffer initial) (before ++ [last]))) :
      ¬Quiet (firstBuffer initial) (before ++ last :: rest) := by
    intro quiet
    obtain ⟨-, delivered, hidden, -⟩ := quiet_append.mp quiet
    rcases ends with failed | shown
    · rw [failed] at delivered
      contradiction
    · rw [bufferAfter_append] at shown
      exact hidden shown
  rcases outcome : getline (.start initial string) inputs with ⟨g, status⟩
  cases outcome ▸ getline_outcome initial string granted with
  | looping quiet after => exact iff_of_true rfl quiet
  | null quiet failed => exact iff_of_false (by simp) (loud (.inl failed))
  | line quiet after reached delivered shown => exact iff_of_false (by simp) (loud (.inr shown))

/-- Every access to the buffer is inside, and every access to the block exactly when `fits`. -/
structure Touches (g : Getline) (fits : Prop) : Prop where
  buffer : ∀ range ∈ g.touched, range.target = .buffer → range.Inside
  string : (∀ range ∈ g.touched, range.target = .string → range.Inside) ↔ fits

theorem Touches.iterated {g g' : Getline} {bytes : List UInt8} {junk : Nat → UInt8} {fits : Prop}
    (touches : Touches g fits) (state : Iterated g bytes junk g') :
    Touches g'
      (fits ∧ g.length + (copied (fill g.buffer bytes)).length + 1 ≤ g'.size) := by
  obtain ⟨ranges, inside, touched⟩ := state.touched
  constructor
  · intro range mem target
    rw [touched, List.mem_append, List.mem_append, List.mem_singleton] at mem
    rcases mem with (old | new) | rfl
    · exact touches.buffer range old target
    · exact (inside range new).2
    · contradiction
  · rw [← touches.string, touched]
    simp only [List.mem_append, List.mem_singleton]
    constructor
    · intro all
      exact ⟨fun range mem => all range (.inl (.inl mem)), all _ (.inr rfl) rfl⟩
    · rintro ⟨old, last⟩ range ((mem | mem) | rfl) target
      · exact old range mem target
      · exact (inside range mem).2
      · exact last

theorem getline_touches (granted : Granted inputs) :
    Touches (getline (.start initial string) inputs).1 (Fits (firstBuffer initial) inputs) := by
  induction inputs using List.reverseRecOn with
  | nil =>
    constructor
    · intro range mem _
      rw [List.mem_singleton.mp mem]
      exact Nat.le_refl _
    · refine iff_of_true (fun range mem target => ?_) fits_nil
      rw [List.mem_singleton.mp mem] at target
      contradiction
  | append_singleton inputs input ih =>
    have touches := ih granted.left
    have looping := looping_iff initial string granted.left
    rw [getline_append]
    rcases outcome : getline (.start initial string) inputs with ⟨g, status⟩
    rw [outcome] at touches looping
    by_cases quiet : Quiet (firstBuffer initial) inputs
    swap
    · have same : Fits (firstBuffer initial) (inputs ++ [input]) ↔
          Fits (firstBuffer initial) inputs := by
        simp [fits_snoc, quiet]
      have ended : status ≠ .looping := mt looping.mp quiet
      cases status with
      | looping => exact absurd rfl ended
      | line => exact ⟨touches.buffer, touches.string.trans same.symm⟩
      | null => exact ⟨touches.buffer, touches.string.trans same.symm⟩
    · obtain rfl : status = .looping := looping.mpr quiet
      obtain ⟨g₀, reached, after⟩ := getline_quiet string granted.left quiet
      obtain rfl : g = g₀ := congrArg Prod.fst (outcome.symm.trans reached)
      cases failed : input.received with
      | none =>
        have same : Fits (firstBuffer initial) (inputs ++ [input]) ↔
            Fits (firstBuffer initial) inputs := by
          simp [fits_snoc, failed]
        have iterated : g.iterate input = (g, .null) := by rw [Getline.iterate, failed]
        simp only [getline_singleton, iterated]
        exact ⟨touches.buffer, touches.string.trans same.symm⟩
      | some chunk =>
        have delivered : input.received.isSome := by simp [failed]
        obtain ⟨junk, g', -, iterated, state, length, size, -⟩ :=
          after.iterate delivered (granted input (by simp))
        have last : (getline g [input]).1 = g' := by rw [getline_singleton, iterated]
        have filled : fill g.buffer input.bytes =
            bufferAfter (firstBuffer initial) (inputs ++ [input]) := by
          rw [bufferAfter_append, ← after.buffer]
          rfl
        have next := touches.iterated state
        rw [filled, size, length, after.length] at next
        simp only [last]
        refine ⟨next.buffer, next.string.trans ?_⟩
        simp [fits_snoc, quiet, delivered]

/-- Every index that `sock_getline` reads or writes in its buffer is below 65, the NUL behind the
newline included. The indices that `strcpy` writes in the block are below its size exactly when at
each `recv` that the loop gets to the string in the buffer, up to its newline, and its NUL fit
behind the bytes received before: the growth looks at the bytes received alone. -/
theorem getline_inside (granted : Granted inputs) :
    (∀ range ∈ (getline (.start initial string) inputs).1.touched, range.target = .buffer →
      range.Inside) ∧
    ((∀ range ∈ (getline (.start initial string) inputs).1.touched, range.target = .string →
      range.Inside) ↔ Fits (firstBuffer initial) inputs) :=
  ⟨(getline_touches granted).buffer, (getline_touches granted).string⟩

/-- A line of 66 bytes in two pieces, the first of which fills the buffer, so that the block has to
grow. -/
def longLine : List Input :=
  [.of (List.replicate 64 97) (by decide), .of [98, newline] (by decide)]

theorem longLine_granted : Granted longLine := by simp [Granted, longLine, Input.of]

theorem longLine_fits : Fits (firstBuffer fun _ => newline) longLine := by
  have first : Fits (firstBuffer fun _ => newline)
      ([] ++ [.of (List.replicate 64 97) (by decide)]) :=
    fits_snoc.mpr ⟨fits_nil, fun _ _ => by decide⟩
  have whole : Fits (firstBuffer fun _ => newline)
      ([.of (List.replicate 64 97) (by decide)] ++ [.of [98, newline] (by decide)]) :=
    fits_snoc.mpr ⟨first, fun _ _ => by decide⟩
  exact whole

/-- The second piece and its NUL go to a block that `realloc` made, of 128 bytes. -/
theorem getline_inside_long :
    let touched := (getline (.start (fun _ => newline) fun i => i.toUInt8) longLine).1.touched
    ⟨.string, 64, 3, 128⟩ ∈ touched ∧ ∀ range ∈ touched, range.Inside := by
  obtain ⟨buffer, string⟩ :=
    @getline_inside (fun _ => newline) (fun i => i.toUInt8) longLine longLine_granted
  refine ⟨by decide, fun range mem => ?_⟩
  cases target : range.target with
  | buffer => exact buffer range mem target
  | string => exact string.mpr longLine_fits range mem target

/-- Two full reads without a NUL or a newline fill the 128 bytes of the block: the NUL goes to index
128. -/
theorem getline_outside : ¬∀ initial string inputs, Granted inputs →
    ∀ range ∈ (getline (.start initial string) inputs).1.touched, range.Inside := by
  intro inside
  have nul := inside (fun _ => 0) (fun _ => 0)
    [.of (List.replicate 64 97) (by decide), .of (List.replicate 64 97) (by decide)]
    (by simp [Granted, Input.of])
    ⟨.string, 64, 65, 128⟩ (by decide +kernel)
  exact absurd nul (by decide)

end Getline

end Aesd.Server
