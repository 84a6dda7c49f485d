import Mathlib.Algebra.BigOperators.Group.List.Basic
import Mathlib.Algebra.Order.Ring.Int

/-! Positions in a concatenation of segments: which segment an offset falls in, and at which
offset inside it. Empty segments may stand anywhere. -/

namespace ProofKit

variable {α β : Type} {size : β → Nat} {xs : List β} {x : β} {n o : Nat}

/-- The first of `xs` whose elements, laid end to end, reach past offset `n`, with the offset
inside it. -/
def locate (size : β → Nat) : List β → Nat → Option (β × Nat)
  | [], _ => none
  | x :: xs, n => if n < size x then some (x, n) else locate size xs (n - size x)

theorem locate_eq_none : locate size xs n = none ↔ (xs.map size).sum ≤ n := by
  induction xs generalizing n with
  | nil => simp [locate]
  | cons x xs ih =>
    simp only [locate, List.map_cons, List.sum_cons]
    split
    · simp only [reduceCtorEq, false_iff]
      omega
    · rw [ih]
      omega

/-- The segment found starts where the sizes before it end, and reaches past the offset. -/
theorem locate_eq_some : locate size xs n = some (x, o) ↔
    ∃ before after, xs = before ++ x :: after ∧ o < size x ∧ (before.map size).sum + o = n := by
  induction xs generalizing n with
  | nil => simp [locate]
  | cons y xs ih =>
    simp only [locate]
    split
    · rename_i inside
      constructor
      · rintro h
        cases h
        exact ⟨[], xs, rfl, inside, by simp⟩
      · rintro ⟨before, after, eq, bound, sum⟩
        cases before with
        | nil =>
          cases eq
          simp only [List.map_nil, List.sum_nil, Nat.zero_add] at sum
          rw [sum]
        | cons z before =>
          cases eq
          simp only [List.map_cons, List.sum_cons] at sum
          omega
    · rename_i past
      rw [ih]
      constructor
      · rintro ⟨before, after, rfl, bound, sum⟩
        exact ⟨y :: before, after, rfl, bound, by simp only [List.map_cons, List.sum_cons]; omega⟩
      · rintro ⟨before, after, eq, bound, sum⟩
        cases before with
        | nil =>
          cases eq
          simp only [List.map_nil, List.sum_nil] at sum
          omega
        | cons z before =>
          cases eq
          simp only [List.map_cons, List.sum_cons] at sum
          exact ⟨before, after, rfl, bound, by omega⟩

theorem locate_map (f : α → β) (xs : List α) :
    locate size (xs.map f) n = (locate (size ∘ f) xs n).map (Prod.map f id) := by
  induction xs generalizing n with
  | nil => rfl
  | cons x xs ih =>
    simp only [List.map_cons, locate, Function.comp_apply]
    split
    · rfl
    · exact ih

theorem locate_congr {size' : β → Nat} (same : ∀ x ∈ xs, size x = size' x) :
    locate size xs n = locate size' xs n := by
  induction xs generalizing n with
  | nil => rfl
  | cons x xs ih =>
    rw [locate, locate, same x (List.mem_cons_self ..),
      ih fun y hy => same y (List.mem_cons_of_mem _ hy)]

/-- Empty segments behind all others are never found. -/
theorem locate_append_empty {ys : List β} (empty : ∀ y ∈ ys, size y = 0) :
    locate size (xs ++ ys) n = locate size xs n := by
  induction xs generalizing n with
  | nil =>
    have zeros : (ys.map size).sum = 0 := List.sum_eq_zero fun m hm => by
      obtain ⟨y, hy, rfl⟩ := List.mem_map.mp hm
      exact empty y hy
    exact locate_eq_none.mpr (by rw [List.nil_append, zeros]; exact Nat.zero_le n)
  | cons x xs ih =>
    rw [List.cons_append, locate, locate, ih]

theorem sum_take_of_lt (size : β → Nat) {i j : Nat} (hx : xs[i]? = some x) (lt : i < j) :
    ((xs.take i).map size).sum + size x ≤ ((xs.take j).map size).sum := by
  obtain ⟨hi, rfl⟩ := List.getElem?_eq_some_iff.mp hx
  have cut := List.take_append_drop i (xs.take j)
  rw [List.take_take, Nat.min_eq_left (Nat.le_of_lt lt),
    List.drop_eq_getElem_cons (by simp; omega), List.getElem_take] at cut
  rw [← cut, List.map_append, List.map_cons, List.sum_append, List.sum_cons]
  omega

/-- No two segments, empty ones included, share an offset. -/
theorem index_unique (size : β → Nat) {y : β} {i j p : Nat} (hx : xs[i]? = some x)
    (hy : xs[j]? = some y) (inX : o < size x) (inY : p < size y)
    (same : ((xs.take i).map size).sum + o = ((xs.take j).map size).sum + p) : i = j ∧ o = p := by
  rcases Nat.lt_trichotomy i j with before | rfl | after
  · have := sum_take_of_lt size hx before
    omega
  · exact ⟨rfl, by omega⟩
  · have := sum_take_of_lt size hy after
    omega

theorem locate_eq_some_index : locate size xs n = some (x, o) ↔
    ∃ i, xs[i]? = some x ∧ o < size x ∧ ((xs.take i).map size).sum + o = n := by
  rw [locate_eq_some]
  constructor
  · rintro ⟨before, after, rfl, inside, sum⟩
    exact ⟨before.length, by simp, inside, by rwa [List.take_left]⟩
  · rintro ⟨i, hx, inside, sum⟩
    obtain ⟨hi, rfl⟩ := List.getElem?_eq_some_iff.mp hx
    refine ⟨xs.take i, xs.drop (i + 1), ?_, inside, sum⟩
    rw [← List.drop_eq_getElem_cons, List.take_append_drop]

theorem length_flatten_map {f : β → List α} (size_eq : ∀ y ∈ xs, (f y).length = size y) :
    (xs.map f).flatten.length = (xs.map size).sum := by
  rw [List.length_flatten, List.map_map]
  exact congrArg List.sum (List.map_congr_left size_eq)

/-- From the offset found on, the concatenation goes on with the rest of the segment found. -/
theorem flatten_drop_of_locate {f : β → List α} (size_eq : ∀ y ∈ xs, (f y).length = size y)
    (h : locate size xs n = some (x, o)) :
    ∃ after, (xs.map f).flatten.drop n = (f x).drop o ++ after := by
  obtain ⟨before, after, rfl, bound, rfl⟩ := locate_eq_some.mp h
  have reach : (before.map f).flatten.length = (before.map size).sum :=
    length_flatten_map fun y hy => size_eq y (by simp [hy])
  have inside : o ≤ (f x).length := by rw [size_eq x (by simp)]; omega
  refine ⟨(after.map f).flatten, ?_⟩
  rw [← reach, List.map_append, List.flatten_append, ← List.drop_drop, List.drop_left,
    List.map_cons, List.flatten_cons, List.drop_append_of_le_length inside]

/-- The element at the offset is the one at the offset inside the segment found. -/
theorem getElem?_flatten_of_locate {f : β → List α} (size_eq : ∀ y ∈ xs, (f y).length = size y)
    (h : locate size xs n = some (x, o)) : (xs.map f).flatten[n]? = (f x)[o]? := by
  obtain ⟨after, drop⟩ := flatten_drop_of_locate size_eq h
  obtain ⟨before, behind, split, inside, -⟩ := locate_eq_some.mp h
  have reach : o < (f x).length := by rwa [size_eq x (by simp [split])]
  calc (xs.map f).flatten[n]? = ((xs.map f).flatten.drop n)[0]? := by
        rw [List.getElem?_drop, Nat.add_zero]
    _ = ((f x).drop o)[0]? := by
        rw [drop, List.getElem?_append_left (by rw [List.length_drop]; omega)]
    _ = (f x)[o]? := by rw [List.getElem?_drop, Nat.add_zero]

end ProofKit
