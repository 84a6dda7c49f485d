import Mathlib.Algebra.Order.BigOperators.Group.List
import Mathlib.Algebra.Order.Ring.Nat

/-! Texts made of numbers in decimal digits, each of a fixed width, with the same bytes between
them. Such texts are compared as lists of bytes the way the numbers are compared as lists. -/

namespace ProofKit

/-- The character of a decimal digit. -/
def digit (d : Nat) : UInt8 := UInt8.ofNat (48 + d)

/-- The last `width` decimal digits of `n`. -/
def numeral : Nat → Nat → List UInt8
  | 0, _ => []
  | width + 1, n => numeral width (n / 10) ++ [digit (n % 10)]

theorem toNat_digit {d : Nat} (small : d < 10) : (digit d).toNat = 48 + d := by
  apply UInt8.toNat_ofNat_of_lt'
  show 48 + d < 256
  omega

@[simp] theorem length_numeral (width n : Nat) : (numeral width n).length = width := by
  induction width generalizing n with
  | zero => rfl
  | succ width ih => rw [numeral, List.length_append, ih, List.length_singleton]

theorem mem_numeral {width n : Nat} {c : UInt8} (mem : c ∈ numeral width n) :
    48 ≤ c.toNat ∧ c.toNat < 58 := by
  induction width generalizing n with
  | zero => simp [numeral] at mem
  | succ width ih =>
    rcases List.mem_append.mp mem with front | last
    · exact ih front
    · have small : n % 10 < 10 := Nat.mod_lt n (by decide)
      rw [List.mem_singleton.mp last, toNat_digit small]
      omega

/-- Lists that begin with parts of the same length are compared by these parts first. -/
theorem append_lt_append_iff {a b c d : List UInt8} (same : a.length = c.length) :
    a ++ b < c ++ d ↔ a < c ∨ a = c ∧ b < d := by
  induction a generalizing c with
  | nil =>
    obtain rfl := List.length_eq_zero_iff.mp same.symm
    simp
  | cons x a ih =>
    cases c with
    | nil => contradiction
    | cons y c =>
      rw [List.cons_append, List.cons_append, List.cons_lt_cons_iff, List.cons_lt_cons_iff,
        ih (Nat.succ.inj same), List.cons.injEq]
      tauto

theorem numeral_inj {width m n : Nat} (hm : m < 10 ^ width) (hn : n < 10 ^ width) :
    numeral width m = numeral width n ↔ m = n := by
  refine ⟨fun same => ?_, fun same => same ▸ rfl⟩
  induction width generalizing m n with
  | zero =>
    rw [Nat.pow_zero] at hm hn
    omega
  | succ width ih =>
    rw [Nat.pow_succ] at hm hn
    obtain ⟨front, last⟩ := List.append_inj' same rfl
    have front := ih (by omega) (by omega) front
    have last := congrArg UInt8.toNat (List.singleton_inj.mp last)
    rw [toNat_digit (Nat.mod_lt _ (by decide)), toNat_digit (Nat.mod_lt _ (by decide))] at last
    omega

theorem numeral_lt_iff {width m n : Nat} (hm : m < 10 ^ width) (hn : n < 10 ^ width) :
    numeral width m < numeral width n ↔ m < n := by
  induction width generalizing m n with
  | zero =>
    rw [Nat.pow_zero] at hm hn
    simp only [numeral, List.lt_irrefl, false_iff]
    omega
  | succ width ih =>
    rw [Nat.pow_succ] at hm hn
    have last : [digit (m % 10)] < [digit (n % 10)] ↔ m % 10 < n % 10 := by
      rw [List.cons_lt_cons_iff, UInt8.lt_iff_toNat_lt, toNat_digit (Nat.mod_lt _ (by decide)),
        toNat_digit (Nat.mod_lt _ (by decide))]
      simp
    rw [numeral, numeral, append_lt_append_iff (by simp), ih (by omega) (by omega),
      numeral_inj (by omega) (by omega), last]
    omega

/-- A number in a text, with what comes before it. -/
structure FixedField (τ : Type) where
  before : List UInt8
  width : Nat
  value : τ → Nat

variable {τ : Type} {fields : List (FixedField τ)} {s t : τ}

/-- The fields of `t` one after the other, and then `tail`. -/
def render (fields : List (FixedField τ)) (tail : List UInt8) (t : τ) : List UInt8 :=
  (fields.flatMap fun field => field.before ++ numeral field.width (field.value t)) ++ tail

theorem length_render (tail : List UInt8) : (render fields tail t).length =
    (fields.map fun field => field.before.length + field.width).sum + tail.length := by
  simp [render, List.length_flatMap]

theorem render_cons (field : FixedField τ) (fields : List (FixedField τ)) (tail : List UInt8)
    (t : τ) : render (field :: fields) tail t =
      field.before ++ (numeral field.width (field.value t) ++ render fields tail t) := by
  simp [render]

/-- What does not come between the numbers, and is no digit, only comes behind them. -/
theorem not_mem_render {c : UInt8} {tail : List UInt8}
    (between : ∀ field ∈ fields, c ∉ field.before)
    (digit : c.toNat < 48 ∨ 58 ≤ c.toNat) (behind : c ∉ tail) : c ∉ render fields tail t := by
  induction fields with
  | nil => exact behind
  | cons field fields ih =>
    have rest := ih fun field mem => between field (List.mem_cons_of_mem _ mem)
    rw [render_cons, List.mem_append, List.mem_append]
    rintro (before | number | after)
    · exact between field (by simp) before
    · have := mem_numeral number
      omega
    · exact rest after

theorem render_inj (tail : List UInt8)
    (fits : ∀ field ∈ fields, field.value s < 10 ^ field.width ∧ field.value t < 10 ^ field.width) :
    render fields tail s = render fields tail t ↔
      fields.map (fun field => field.value s) = fields.map fun field => field.value t := by
  induction fields with
  | nil => simp [render]
  | cons field fields ih =>
    obtain ⟨hs, ht⟩ := fits field (by simp)
    have rest := ih fun field mem => fits field (List.mem_cons_of_mem _ mem)
    rw [render_cons, render_cons, List.append_cancel_left_eq, List.map_cons, List.map_cons,
      List.cons.injEq, ← numeral_inj hs ht, ← rest]
    exact ⟨fun same => List.append_inj same (by simp), fun same => by rw [same.1, same.2]⟩

theorem render_lt_iff (tail : List UInt8)
    (fits : ∀ field ∈ fields, field.value s < 10 ^ field.width ∧ field.value t < 10 ^ field.width) :
    render fields tail s < render fields tail t ↔
      fields.map (fun field => field.value s) < fields.map fun field => field.value t := by
  induction fields with
  | nil => simp [render]
  | cons field fields ih =>
    obtain ⟨hs, ht⟩ := fits field (by simp)
    have rest := ih fun field mem => fits field (List.mem_cons_of_mem _ mem)
    rw [render_cons, render_cons, append_lt_append_iff rfl, append_lt_append_iff (by simp),
      numeral_lt_iff hs ht, numeral_inj hs ht, rest, List.map_cons, List.map_cons,
      List.cons_lt_cons_iff]
    simp [List.lt_irrefl field.before]

end ProofKit
