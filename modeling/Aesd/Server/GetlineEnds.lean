import Aesd.Server.FirstLine
import Aesd.Server.GetlineBounds

/-! When `sock_getline` ends once the peer has closed. From then on `recv` delivers no bytes, which
the loop takes for data like any other. -/

namespace Aesd.Server

open Driver ProofKit

namespace Getline

def closed : Input := .of [] (by decide)

/-- The block holds the C string `xs`. -/
def HoldsString (g : Getline) (xs : List UInt8) : Prop :=
  0 ∉ xs ∧ Content g xs ∧ g.string xs.length = 0

variable {initial : Fin buflen → UInt8} {string : Nat → UInt8} {g g' : Getline} {status : Status}
  {inputs before rest : List Input} {last : Input}

/-- Up to the first NUL the block holds the bytes received. -/
structure Strung (g : Getline) (bytes : List UInt8) : Prop where
  content : Content g (cstr 0 bytes)
  stop : 0 ∈ bytes → g.string (cstr 0 bytes).length = 0

theorem length_cstr_lt {bytes : List UInt8} (nul : 0 ∈ bytes) :
    (cstr 0 bytes).length < bytes.length :=
  (List.getElem?_eq_some_iff.mp (getElem?_cstr_end nul)).1

/-- `strcpy` behind bytes that have a NUL leaves the string alone. -/
theorem Strung.old (strung : Strung g (received inputs)) (after : After initial inputs g)
    {bytes : List UInt8} {junk : Nat → UInt8} (state : Iterated g bytes junk g')
    (nul : 0 ∈ received inputs) (more : List UInt8) : Strung g' (received inputs ++ more) := by
  have inside : (cstr 0 (received inputs)).length < g.length := by
    rw [after.length]
    exact length_cstr_lt nul
  constructor
  · rw [cstr_append_of_mem nul]
    intro k hk
    rw [after.string_old state (Nat.lt_trans hk inside), strung.content k hk]
  · intro _
    rw [cstr_append_of_mem nul, after.string_old state inside, strung.stop nul]

/-- `strcpy` of a string that starts with `more`, behind bytes that have no NUL. -/
theorem Strung.new (strung : Strung g (received inputs)) (after : After initial inputs g)
    {bytes more tail : List UInt8} {junk : Nat → UInt8} (state : Iterated g bytes junk g')
    (noNul : 0 ∉ received inputs)
    (copies : copied (fill g.buffer bytes) ++ [0] = cstr 0 more ++ tail)
    (stops : 0 ∈ more → tail = [0]) : Strung g' (received inputs ++ more) := by
  have old := strung.content
  rw [cstr_of_not_mem noNul] at old
  have new (j : Nat) (hj : j < (cstr 0 more ++ tail).length) :
      g'.string ((received inputs).length + j) = (cstr 0 more ++ tail)[j] := by
    rw [state.string, copies, after.length, copyTo_inside hj]
  constructor
  · rw [cstr_append_of_not_mem noNul]
    intro k hk
    by_cases before : k < (received inputs).length
    · rw [after.string_old state (by rwa [after.length]), old k before,
        List.getElem_append_left before]
    · obtain ⟨j, rfl⟩ := Nat.exists_eq_add_of_le (Nat.le_of_not_lt before)
      have inside : j < (cstr 0 more).length := by simpa using hk
      rw [new j (by rw [List.length_append]; omega), List.getElem_append_left inside,
        List.getElem_append_right (Nat.le_add_right _ _)]
      simp
  · intro mem
    have nul : 0 ∈ more := (List.mem_append.mp mem).resolve_left noNul
    obtain rfl := stops nul
    rw [cstr_append_of_not_mem noNul, List.length_append, new _ (by simp)]
    simp

theorem Strung.next (strung : Strung g (received inputs)) (after : After initial inputs g)
    {input : Input} {junk : Nat → UInt8} (state : Iterated g input.bytes junk g')
    (hidden : ¬Shows (fill g.buffer input.bytes)) :
    Strung g' (received (inputs ++ [input])) := by
  have bytes : received (inputs ++ [input]) = received inputs ++ input.bytes := by
    simp [received]
  rw [bytes]
  by_cases nul : 0 ∈ received inputs
  · exact strung.old after state nul _
  have copy : copied (fill g.buffer input.bytes) = cstr 0 (fill g.buffer input.bytes) :=
    upTo_of_not_mem hidden
  by_cases stops : 0 ∈ input.bytes
  · exact strung.new after state nul (by rw [copy, fill, cstr_append_of_mem stops]) fun _ => rfl
  · have whole : copied (fill g.buffer input.bytes) ++ [0] =
        cstr 0 input.bytes ++ (cstr 0 (g.buffer.drop input.bytes.length) ++ [0]) := by
      rw [copy, fill, cstr_append_of_not_mem stops, cstr_of_not_mem stops, List.append_assoc]
    exact strung.new after state nul whole fun mem => absurd mem stops

/-- A newline in front of the first NUL would have been seen. -/
theorem quiet_cstr {buffer : List UInt8} (quiet : Quiet buffer inputs) :
    newline ∉ cstr 0 (received inputs) := by
  induction inputs using List.reverseRecOn with
  | nil => simp [received, cstr]
  | append_singleton inputs input ih =>
    obtain ⟨earlier, -, hidden, -⟩ := quiet_append.mp quiet
    have bytes : received (inputs ++ [input]) = received inputs ++ input.bytes := by
      simp [received]
    rw [bytes]
    by_cases nul : 0 ∈ received inputs
    · rw [cstr_append_of_mem nul]
      exact ih earlier
    · have old := ih earlier
      rw [cstr_of_not_mem nul] at old
      rw [cstr_append_of_not_mem nul, List.mem_append, not_or]
      refine ⟨old, fun mem => hidden ?_⟩
      by_cases stops : 0 ∈ input.bytes
      · rwa [Shows, fill, cstr_append_of_mem stops]
      · rw [cstr_of_not_mem stops] at mem
        rw [Shows, fill, cstr_append_of_not_mem stops]
        exact List.mem_append_left _ mem

theorem strung_quiet (granted : Granted inputs) (quiet : Quiet (firstBuffer initial) inputs)
    (reached : getline (.start initial string) inputs = (g, .looping)) :
    Strung g (received inputs) := by
  induction inputs using List.reverseRecOn generalizing g with
  | nil => exact ⟨fun k hk => by simp [received, cstr] at hk, by simp [received]⟩
  | append_singleton inputs input ih =>
    obtain ⟨earlier, delivered, hidden, -⟩ := quiet_append.mp quiet
    obtain ⟨g₀, looping, after⟩ := getline_quiet string granted.left earlier
    obtain ⟨junk, g', -, iterated, state, -⟩ := after.iterate delivered (granted input (by simp))
    rw [← after.buffer] at hidden
    simp only [getline_append, looping, getline_singleton, iterated] at reached
    obtain rfl : g' = g := congrArg Prod.fst reached
    exact (ih granted.left earlier looping).next after state hidden

/-- When a newline was received by the time that the buffer first shows one, the block holds the
line as a C string. -/
theorem FirstShown.line (first : FirstShown initial before last) (string : Nat → UInt8)
    (granted : Granted (before ++ [last])) :
    ∃ g, getline (.start initial string) (before ++ [last]) = (g, .line) ∧
      (newline ∈ received (before ++ [last]) →
        HoldsString g (cstr 0 (upTo newline (received (before ++ [last]))))) := by
  obtain ⟨quiet, delivered, shown⟩ := first
  obtain ⟨g, looping, after⟩ := getline_quiet string granted.left quiet
  obtain ⟨junk, g', -, iterated, state, -⟩ := after.iterate delivered (granted last (by simp))
  rw [if_pos shown] at iterated
  rw [bufferAfter_append, ← after.buffer] at shown
  change newline ∈ cstr 0 (last.bytes ++ _) at shown
  have strung := strung_quiet granted.left quiet looping
  have unseen := quiet_cstr quiet
  have bytes : received (before ++ [last]) = received before ++ last.bytes := by simp [received]
  refine ⟨g', getline_ends looping iterated (by decide), fun arrived => ?_⟩
  rw [bytes] at arrived ⊢
  have clean (xs : List UInt8) : 0 ∉ cstr 0 xs := fun mem => ne_of_mem_cstr mem rfl
  by_cases nul : 0 ∈ received before
  · -- the string ended before the line did
    have stops := @cstr_append_of_mem _ _ _ _ last.bytes nul
    have same : cstr 0 (upTo newline (received before ++ last.bytes)) =
        cstr 0 (received before) := by
      rw [← stops] at unseen ⊢
      exact cstr_upTo (by decide) unseen
    have kept := strung.old after state nul []
    rw [List.append_nil] at kept
    rw [same]
    exact ⟨clean _, kept.content, kept.stop nul⟩
  · rw [cstr_of_not_mem nul] at unseen
    have here : newline ∈ last.bytes := (List.mem_append.mp arrived).resolve_left unseen
    obtain ⟨copy, noNul⟩ := upTo_cstr_of_mem (by decide) here shown
    have line : cstr 0 (upTo newline (received before ++ last.bytes)) =
        cstr 0 (received before ++ (upTo newline last.bytes ++ [0])) := by
      rw [upTo_append_of_not_mem unseen, cstr_append_of_not_mem nul, cstr_append_of_not_mem nul,
        cstr_of_not_mem noNul, cstr_append_stop noNul]
    have strung : Strung g' (received before ++ (upTo newline last.bytes ++ [0])) := by
      refine strung.new after state nul ?_ fun _ => rfl
      rw [cstr_append_stop noNul, copied, fill, copy]
    rw [line]
    exact ⟨clean _, strung.content, strung.stop (by simp)⟩

end Getline

end Aesd.Server
