import Aesd.CInt
import Aesd.Driver.Char

/-! `strtoul` in base 10, and what `conn_handler` reads with it from a seek command. -/

namespace Aesd.Server

open Aesd.CInt Aesd.Driver

/-- `isspace`: a blank or one of `\t\n\v\f\r`. -/
def isspace (c : UInt8) : Bool := c == 32 || (9 ≤ c && c ≤ 13)

def isdigit (c : UInt8) : Bool := 48 ≤ c && c ≤ 57

/-- The number that some digits stand for. -/
def decimal (digits : List UInt8) : Nat :=
  digits.foldl (fun n c => 10 * n + (c.toNat - 48)) 0

def ulongMax : Nat := 2 ^ 64 - 1

/-- Whether a sign comes next, and whether it is a minus. -/
def sign : List UInt8 → Nat × Bool
  | c :: _ => if c = 45 then (1, true) else if c = 43 then (1, false) else (0, false)
  | [] => (0, false)

/-- `strtoul(nptr, &end, 10)` on the characters from `nptr` on: the value, and `end - nptr`. A
number past `ULONG_MAX` becomes `ULONG_MAX`, a minus sign negates the number as an `unsigned long`,
and without a digit the value is 0 and `end` is `nptr`. -/
def strtoul (nptr : List UInt8) : Nat × Nat :=
  let blanks := (nptr.takeWhile isspace).length
  let (signs, minus) := sign (nptr.drop blanks)
  let digits := (nptr.drop (blanks + signs)).takeWhile isdigit
  if digits = [] then (0, 0)
  else
    let value := if ulongMax < decimal digits then ulongMax
      else if minus then toSizeT (-decimal digits) else decimal digits
    (value, blanks + signs + digits.length)

/-- The two numbers that `conn_handler` reads behind the start of a seek command, through the `int`
`error`, or `none` when it takes one of them for `ULONG_MAX`. The character behind the first number
is skipped. -/
def parseSeekto (start : List UInt8) : Option AesdSeekto :=
  let (value, length) := strtoul start
  let error := toInt value
  if toSizeT error = ulongMax then none
  else
    let writeCmd := toUInt32 error
    let (value, _) := strtoul (start.drop (length + 1))
    let error := toInt value
    if toSizeT error = ulongMax then none
    else some ⟨writeCmd, toUInt32 error⟩

/-- A non-empty string of decimal digits. -/
structure Numeral (digits : List UInt8) : Prop where
  nonempty : digits ≠ []
  all : ∀ c ∈ digits, isdigit c

theorem not_isspace_of_isdigit {c : UInt8} (digit : isdigit c) : isspace c = false := by
  simp only [isdigit, Bool.and_eq_true, decide_eq_true_eq, UInt8.le_iff_toNat_le] at digit
  simp only [isspace, Bool.or_eq_false_iff, Bool.and_eq_false_iff, beq_eq_false_iff_ne, ne_eq,
    decide_eq_false_iff_not, UInt8.le_iff_toNat_le, ← UInt8.toNat_inj]
  have low : (48 : UInt8).toNat = 48 := rfl
  have blank : (32 : UInt8).toNat = 32 := rfl
  have high : (13 : UInt8).toNat = 13 := rfl
  omega

theorem sign_of_isdigit {c : UInt8} (digit : isdigit c) (rest : List UInt8) :
    sign (c :: rest) = (0, false) := by
  have minus : c ≠ 45 := by
    rintro rfl
    exact absurd digit (by decide)
  have plus : c ≠ 43 := by
    rintro rfl
    exact absurd digit (by decide)
  rw [sign, if_neg minus, if_neg plus]

theorem strtoul_numeral {digits : List UInt8} (rest : List UInt8) (num : Numeral digits)
    (stop : ∀ c ∈ rest.head?, isdigit c = false) :
    strtoul (digits ++ rest) = (min (decimal digits) ulongMax, digits.length) := by
  obtain ⟨c, others, rfl⟩ := List.exists_cons_of_ne_nil num.nonempty
  have first := num.all c (by simp)
  have blanks : ((c :: others) ++ rest).takeWhile isspace = [] := by
    simp [not_isspace_of_isdigit first]
  have maximal : rest.takeWhile isdigit = [] := by
    cases rest with
    | nil => rfl
    | cons r rest => simp [stop r (by simp)]
  have run : ((c :: others) ++ rest).takeWhile isdigit = c :: others := by
    rw [List.takeWhile_append_of_pos num.all, maximal, List.append_nil]
  have signs : sign ((c :: others) ++ rest) = (0, false) := sign_of_isdigit first _
  simp only [strtoul, blanks, List.length_nil, List.drop_zero, signs, Nat.add_zero, run,
    Bool.false_eq_true, if_false, reduceCtorEq, Nat.zero_add, Prod.mk.injEq, and_true]
  split <;> omega

def comma : UInt8 := 44

/-- From two numerals below 2^32 with a comma between them `conn_handler` reads their values, unless
one of them is 2^32 - 1, which it takes for `ULONG_MAX`. -/
theorem parseSeekto_numerals {x y : List UInt8} (numX : Numeral x) (numY : Numeral y)
    (smallX : decimal x < 2 ^ 32) (smallY : decimal y < 2 ^ 32) :
    ∃ result, parseSeekto (x ++ comma :: y ++ [newline]) = result ∧
      (result = none ↔ decimal x = 2 ^ 32 - 1 ∨ decimal y = 2 ^ 32 - 1) ∧
      ∀ seekto ∈ result, seekto.writeCmd.toNat = decimal x ∧
        seekto.writeCmdOffset.toNat = decimal y := by
  have max : ulongMax = 2 ^ 64 - 1 := rfl
  have readX := strtoul_numeral (comma :: y ++ [newline]) numX (by simp; decide)
  have readY := strtoul_numeral [newline] numY (by simp; decide)
  have skip : (x ++ (comma :: y ++ [newline])).drop (x.length + 1) = y ++ [newline] := by
    rw [← List.drop_drop, List.drop_left]
    rfl
  rw [Nat.min_eq_left (by omega)] at readX readY
  simp only [parseSeekto, List.append_assoc, readX, skip, readY, max, toSizeT_toInt_eq smallX,
    toSizeT_toInt_eq smallY]
  refine ⟨_, rfl, ?_, ?_⟩
  · by_cases lastX : decimal x = 2 ^ 32 - 1
    · rw [if_pos lastX]
      exact ⟨fun _ => .inl lastX, fun _ => rfl⟩
    · rw [if_neg lastX]
      by_cases lastY : decimal y = 2 ^ 32 - 1
      · rw [if_pos lastY]
        exact ⟨fun _ => .inr lastY, fun _ => rfl⟩
      · rw [if_neg lastY]
        exact ⟨nofun, fun last => (last.elim lastX lastY).elim⟩
  · intro seekto found
    split at found
    · simp at found
    · split at found
      · simp at found
      · obtain rfl : _ = seekto := by simpa using found
        exact ⟨toUInt32_toInt smallX, toUInt32_toInt smallY⟩

end Aesd.Server
