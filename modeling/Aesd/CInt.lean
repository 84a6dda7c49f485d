import Mathlib.Algebra.Order.Ring.Int

/-! The C integer types that the sources convert between, on a 64-bit Linux system: a value is
kept as the number it stands for, and a conversion to a type reduces it into the type's range. -/

namespace Aesd.CInt

/-- Conversion to `size_t` (64 bits, unsigned). -/
def toSizeT (n : Int) : Nat := (n % 2 ^ 64).toNat

/-- Conversion to `loff_t` or `ssize_t` (64 bits, signed). -/
def toLoffT (n : Int) : Int := (n + 2 ^ 63) % 2 ^ 64 - 2 ^ 63

/-- Conversion to `int` (32 bits, signed). -/
def toInt (n : Int) : Int := (n + 2 ^ 31) % 2 ^ 32 - 2 ^ 31

/-- Conversion to `uint32_t`. -/
def toUInt32 (n : Int) : UInt32 := UInt32.ofNat (n % 2 ^ 32).toNat

/-- The result of an operation on signed numbers is not in the range of their type, and the
behaviour of the program is undefined. -/
inductive SignedOverflow
  | overflow
  deriving DecidableEq, Repr

/-- The product of two values of type `int`. -/
def mulInt (m n : Int) : Except SignedOverflow Int :=
  if -2 ^ 31 ≤ m * n ∧ m * n < 2 ^ 31 then .ok (m * n) else .error .overflow

@[simp] theorem toSizeT_of_lt {n : Nat} (h : n < 2 ^ 64) : toSizeT n = n := by
  unfold toSizeT
  omega

theorem toLoffT_of_range {n : Int} (low : -2 ^ 63 ≤ n) (high : n < 2 ^ 63) : toLoffT n = n := by
  unfold toLoffT
  omega

/-- A `uint32_t` that goes through an `int` is not changed. -/
theorem toUInt32_toInt {n : Nat} (h : n < 2 ^ 32) : (toUInt32 (toInt n)).toNat = n := by
  have same : (toInt n % 2 ^ 32).toNat = n := by
    unfold toInt
    omega
  rw [toUInt32, same]
  exact UInt32.toNat_ofNat_of_lt' h

/-- A number that goes through an `int` to an `unsigned long` becomes the largest one exactly when
its low 32 bits are all set. -/
theorem toSizeT_toInt_eq_iff (n : Nat) :
    toSizeT (toInt n) = 2 ^ 64 - 1 ↔ n % 2 ^ 32 = 2 ^ 32 - 1 := by
  unfold toSizeT toInt
  omega

theorem toSizeT_toInt_eq {n : Nat} (h : n < 2 ^ 32) :
    toSizeT (toInt n) = 2 ^ 64 - 1 ↔ n = 2 ^ 32 - 1 := by
  rw [toSizeT_toInt_eq_iff, Nat.mod_eq_of_lt h]

theorem mulInt_eq_ok {m n k : Int} :
    mulInt m n = .ok k ↔ (-2 ^ 31 ≤ m * n ∧ m * n < 2 ^ 31) ∧ m * n = k := by
  unfold mulInt
  split <;> simp_all

end Aesd.CInt
