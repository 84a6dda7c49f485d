import Aesd.ProofKit.Run
import Aesd.Server.ConnHandler

/-! The grammar of a seek command, and which packets `conn_handler` takes for one in the build for
the device. -/

namespace Aesd.Server

open Aesd.CInt Aesd.Driver ProofKit

/-- What a seek command is meant to say behind `"AESDCHAR_IOCSEEKTO:"`: two decimal numbers below
2^32 with a comma between them, and a newline. -/
def SeekCommand (rest : List UInt8) (seekto : AesdSeekto) : Prop :=
  ∃ x y, rest = x ++ comma :: y ++ [newline] ∧ Numeral x ∧ Numeral y ∧
    decimal x = seekto.writeCmd.toNat ∧ decimal y = seekto.writeCmdOffset.toNat

/-- The two values of `strtoul` that `conn_handler` gets: the one at the start, and the one behind
the character that follows it. -/
def seekNumbers (rest : List UInt8) : Nat × Nat :=
  let (value, length) := strtoul rest
  (value, (strtoul (rest.drop (length + 1))).1)

/-- One of the values has its low 32 bits all set. -/
def TakenForUlongMax (rest : List UInt8) : Prop :=
  (seekNumbers rest).1 % 2 ^ 32 = 2 ^ 32 - 1 ∨ (seekNumbers rest).2 % 2 ^ 32 = 2 ^ 32 - 1

variable {rest packet : List UInt8} {seekto : AesdSeekto}

theorem parseSeekto_eq_none_iff : parseSeekto rest = none ↔ TakenForUlongMax rest := by
  have max : ulongMax = 2 ^ 64 - 1 := rfl
  simp only [parseSeekto, TakenForUlongMax, seekNumbers, max, toSizeT_toInt_eq_iff]
  by_cases first : (strtoul rest).1 % 2 ^ 32 = 2 ^ 32 - 1
  · rw [if_pos first]
    exact ⟨fun _ => .inl first, fun _ => rfl⟩
  · rw [if_neg first]
    by_cases second : (strtoul (rest.drop ((strtoul rest).2 + 1))).1 % 2 ^ 32 = 2 ^ 32 - 1
    · rw [if_pos second]
      exact ⟨fun _ => .inr second, fun _ => rfl⟩
    · rw [if_neg second]
      exact iff_of_false (Option.some_ne_none _) (not_or.mpr ⟨first, second⟩)

/-- A command whose numbers are below 2^32 - 1 is read as it is meant. -/
theorem SeekCommand.parse (command : SeekCommand rest seekto) :
    parseSeekto rest =
      if seekto.writeCmd.toNat = 2 ^ 32 - 1 ∨ seekto.writeCmdOffset.toNat = 2 ^ 32 - 1 then none
      else some seekto := by
  obtain ⟨x, y, rfl, numX, numY, valueX, valueY⟩ := command
  obtain ⟨result, parsed, refused, values⟩ := parseSeekto_numerals numX numY
    (valueX ▸ seekto.writeCmd.toNat_lt) (valueY ▸ seekto.writeCmdOffset.toNat_lt)
  rw [valueX, valueY] at refused
  rw [parsed]
  cases result with
  | none => rw [if_pos (refused.mp rfl)]
  | some found =>
    obtain ⟨cmd, offset⟩ := values found rfl
    have same : found = seekto := by
      cases found
      cases seekto
      simp_all [UInt32.toNat_inj]
    rw [if_neg fun large => Option.some_ne_none _ (refused.mpr large), same]

namespace ConnHandler

variable {h h' : ConnHandler} {event : Event} {events : List Event}

/-- A call of the thread in the build for the device. -/
def DeviceStep (h : ConnHandler) (event : Event) (h' : ConnHandler) : Prop :=
  h.step true event = some h'

/-- The thread opened the device and received `packet`, and the calls after that returned with
`events`. -/
def Received (packet : List UInt8) (events : List Event) (h : ConnHandler) : Prop :=
  Run DeviceStep start (.openFile true :: .getline (some packet) :: events) h

theorem received_iff :
    Received packet events h ↔
      Run DeviceStep (dispatch true ⟨.getline, packet, false⟩) events h := by
  constructor
  · intro run
    cases run with
    | cons opened run =>
      cases run with
      | cons got run =>
        cases opened
        cases got
        exact run
  · intro run
    exact .cons rfl (.cons rfl run)

theorem dispatch_seek (rest : List UInt8) :
    dispatch true ⟨.getline, seektoPrefix ++ rest, false⟩ =
      match parseSeekto rest with
      | none => ⟨.free, seektoPrefix ++ rest, true⟩
      | some seekto => ⟨.ioctl seekto, seektoPrefix ++ rest, false⟩ := by
  have seek : seektoPrefix.isPrefixOf (seektoPrefix ++ rest) = true :=
    List.isPrefixOf_iff_prefix.mpr (List.prefix_append _ _)
  have behind : (seektoPrefix ++ rest).drop seektoPrefix.length = rest := List.drop_left
  rw [dispatch, seek, Bool.and_self, if_pos rfl, behind]
  cases parseSeekto rest with
  | none => rfl
  | some seekto => rfl

theorem received_seek (parsed : parseSeekto rest = some seekto) :
    Received (seektoPrefix ++ rest) events h ↔
      Run DeviceStep ⟨.ioctl seekto, seektoPrefix ++ rest, false⟩ events h := by
  rw [received_iff, dispatch_seek, parsed]

theorem received_refused (refused : parseSeekto rest = none) :
    Received (seektoPrefix ++ rest) events h ↔
      Run DeviceStep ⟨.free, seektoPrefix ++ rest, true⟩ events h := by
  rw [received_iff, dispatch_seek, refused]

/-! The thread after it gave up on its packet. -/

/-- How many calls the thread has left when it cleans up. -/
def callsLeft : Pc → Nat
  | .free => 3
  | .closeFd => 2
  | .closeConn => 1
  | _ => 0

structure Aborting (h : ConnHandler) : Prop where
  abort : h.abort = true
  pc : h.pc = .free ∨ h.pc = .closeFd ∨ h.pc = .closeConn ∨ h.pc = .exited

theorem Aborting.step (aborting : Aborting h) (step : DeviceStep h event h') :
    Aborting h' ∧ callsLeft h'.pc < callsLeft h.pc := by
  obtain ⟨abort, pc⟩ := aborting
  cases step_moves step with
  | free now => exact ⟨⟨abort, .inr (.inl rfl)⟩, by simp [now, callsLeft]⟩
  | closeFd now ok =>
    exact ⟨⟨by simp [abort], .inr (.inr (.inl rfl))⟩, by simp [now, callsLeft]⟩
  | closeConn now ok =>
    exact ⟨⟨by simp [abort], .inr (.inr (.inr rfl))⟩, by simp [now, callsLeft]⟩
  | _ => simp_all

theorem Aborting.progress (aborting : Aborting h) (running : h.pc ≠ .exited) :
    ∃ event h', DeviceStep h event h' := by
  rcases aborting.pc with pc | pc | pc | pc
  · exact ⟨.free, { h with pc := .closeFd }, by simp [DeviceStep, ConnHandler.step, pc]⟩
  · exact ⟨.closeFd true, { h with pc := .closeConn }, by simp [DeviceStep, ConnHandler.step, pc]⟩
  · exact ⟨.closeConn true, { h with pc := .exited }, by simp [DeviceStep, ConnHandler.step, pc]⟩
  · exact absurd pc running

/-- Only the receipt of a packet leads to the ioctl, and a thread receives one packet. -/
theorem step_past_getline (opened : h.pc ≠ .openFile) (got : h.pc ≠ .getline)
    (step : DeviceStep h event h') :
    h'.pc ≠ .openFile ∧ h'.pc ≠ .getline ∧ ∀ seekto, h'.pc ≠ .ioctl seekto := by
  cases step_moves step with
  | openFile pc | openFailed pc => exact absurd pc opened
  | getline pc | getlineFailed pc => exact absurd pc got
  | lock => rcases writePc_cases (.start h.packet) with ⟨-, pc⟩ | ⟨-, pc⟩ <;> simp [pc]
  | write chars _ bytesSent =>
    rcases writePc_cases (chars.advance bytesSent) with ⟨-, pc⟩ | ⟨-, pc⟩ <;> simp [pc]
  | send chars _ bytesSent =>
    rcases sendPc_cases (chars.advance bytesSent) with ⟨-, pc⟩ | ⟨-, pc⟩ <;> simp [pc]
  | _ => simp [cleanup]

theorem Received.ioctl_eq (run : Received (seektoPrefix ++ rest) events h)
    (pc : h.pc = .ioctl seekto) : parseSeekto rest = some seekto := by
  have never {h h' : ConnHandler} {events : List Event} (run : Run DeviceStep h events h')
      (here : h.pc ≠ .openFile ∧ h.pc ≠ .getline ∧ ∀ seekto, h.pc ≠ .ioctl seekto) :
      h'.pc ≠ .openFile ∧ h'.pc ≠ .getline ∧ ∀ seekto, h'.pc ≠ .ioctl seekto :=
    run.invariant
      (P := fun h => h.pc ≠ .openFile ∧ h.pc ≠ .getline ∧ ∀ seekto, h.pc ≠ .ioctl seekto)
      (fun _ _ _ here step => step_past_getline here.1 here.2.1 step) here
  cases parsed : parseSeekto rest with
  | none => exact absurd pc ((never ((received_refused parsed).mp run) (by simp)).2.2 seekto)
  | some found =>
    cases (received_seek parsed).mp run with
    | nil => rw [Pc.ioctl.inj pc]
    | cons first run =>
      have after := step_past_getline (by simp) (by simp) first
      exact absurd pc ((never run after).2.2 seekto)

/-- After a packet that `parseSeekto` refused the thread only cleans up. -/
theorem Received.aborting (refused : parseSeekto rest = none)
    (run : Received (seektoPrefix ++ rest) events h) : Aborting h ∧ events.length ≤ 3 := by
  rw [received_refused refused] at run
  have here : Aborting ⟨.free, seektoPrefix ++ rest, true⟩ := ⟨rfl, .inl rfl⟩
  have keeps : ∀ h event h', Aborting h → DeviceStep h event h' → Aborting h' :=
    fun _ _ _ aborting step => (aborting.step step).1
  have less : ∀ h event h', Aborting h → DeviceStep h event h' →
      callsLeft h'.pc < callsLeft h.pc := fun _ _ _ aborting step => (aborting.step step).2
  have bound := Run.length_le keeps less run here
  exact ⟨run.invariant keeps here, Nat.le_of_add_right_le bound⟩

/-- The thread treats a packet that starts as a seek command as the grammar says, in each of its
runs: for a command it issues the ioctl with the two numbers, and for anything else it issues none
and finishes with -1. -/
structure Obeys (rest : List UInt8) : Prop where
  issued : ∀ seekto h, SeekCommand rest seekto → Received (seektoPrefix ++ rest) [] h →
    h.pc = .ioctl seekto
  only : ∀ seekto events h, Received (seektoPrefix ++ rest) events h → h.pc = .ioctl seekto →
    SeekCommand rest seekto
  finishes : (∀ seekto, ¬ SeekCommand rest seekto) →
    ∀ events h, Received (seektoPrefix ++ rest) events h →
      events.length ≤ 3 ∧ (h.pc = .exited ∧ h.retval = -1 ∨ ∃ event h', DeviceStep h event h')

theorem obeys_of_command (command : SeekCommand rest seekto)
    (parsed : parseSeekto rest = some seekto) : Obeys rest where
  issued meant h command' run := by
    have parsed' := command'.parse
    rw [parsed] at parsed'
    split at parsed'
    · simp at parsed'
    · rw [((received_seek parsed).mp run).eq_of_nil, Option.some.inj parsed']
  only found events h run pc := by
    have parsed' := run.ioctl_eq pc
    rw [parsed] at parsed'
    exact Option.some.inj parsed' ▸ command
  finishes other := (other seekto command).elim

theorem obeys_of_refused (other : ∀ seekto, ¬ SeekCommand rest seekto)
    (refused : parseSeekto rest = none) : Obeys rest where
  issued seekto h command := (other seekto command).elim
  only seekto events h run pc := by
    have parsed := run.ioctl_eq pc
    rw [refused] at parsed
    exact absurd parsed.symm (Option.some_ne_none seekto)
  finishes _ events h run := by
    obtain ⟨aborting, short⟩ := run.aborting refused
    refine ⟨short, ?_⟩
    by_cases ended : h.pc = .exited
    · exact .inl ⟨ended, by rw [retval, aborting.abort]; rfl⟩
    · exact .inr (aborting.progress ended)

/-- The packets that the thread treats as the grammar says: the commands with numbers below
2^32 - 1, and of the others those in which it takes a number for `ULONG_MAX`. -/
theorem obeys_iff (rest : List UInt8) :
    Obeys rest ↔
      (∃ seekto, SeekCommand rest seekto ∧ seekto.writeCmd.toNat ≠ 2 ^ 32 - 1 ∧
        seekto.writeCmdOffset.toNat ≠ 2 ^ 32 - 1) ∨
      (∀ seekto, ¬ SeekCommand rest seekto) ∧ TakenForUlongMax rest := by
  constructor
  · intro obeys
    by_cases command : ∃ seekto, SeekCommand rest seekto
    · obtain ⟨seekto, command⟩ := command
      have parse := command.parse
      by_cases large : seekto.writeCmd.toNat = 2 ^ 32 - 1 ∨ seekto.writeCmdOffset.toNat = 2 ^ 32 - 1
      · rw [if_pos large] at parse
        have pc := obeys.issued seekto _ command ((received_refused parse).mpr (.nil _))
        simp at pc
      · exact .inl ⟨seekto, command, not_or.mp large⟩
    · refine .inr ⟨not_exists.mp command, parseSeekto_eq_none_iff.mp ?_⟩
      cases parsed : parseSeekto rest with
      | none => rfl
      | some seekto =>
        have accepted := obeys.only seekto [] _ ((received_seek parsed).mpr (.nil _)) rfl
        exact (command ⟨seekto, accepted⟩).elim
  · rintro (⟨seekto, command, small⟩ | ⟨other, taken⟩)
    · have parse := command.parse
      rw [if_neg (not_or.mpr small)] at parse
      exact obeys_of_command command parse
    · exact obeys_of_refused other (parseSeekto_eq_none_iff.mpr taken)

/-- Behind the first number any character will do: `1x2` is taken for `1,2`. -/
theorem not_obeys_other_separator :
    ¬ ∀ rest : List UInt8, rest.getLast? = some newline → 0 ∉ rest → Obeys rest := by
  intro always
  have obeys := always [49, 120, 50, newline] (by decide) (by decide)
  have parsed : parseSeekto [49, 120, 50, newline] = some ⟨1, 2⟩ := by decide +kernel
  obtain ⟨x, y, eq, -⟩ := obeys.only ⟨1, 2⟩ [] _ ((received_seek parsed).mpr (.nil _)) rfl
  have found : comma ∈ [49, 120, 50, newline] := by
    rw [eq]
    simp
  exact absurd found (by decide)

end ConnHandler

end Aesd.Server
