import Mathlib.Data.List.Basic

/-! A bounded first-in first-out queue, seen from its history: of everything that was added,
`window cap` is what a queue of capacity `cap` still holds and `outdated cap` is what it gave up,
each in the order of the additions. -/

namespace ProofKit

variable {α β : Type} {cap : Nat} {xs : List α} {x : α}

/-- The last `cap` elements of a history. -/
def window (cap : Nat) (xs : List α) : List α := xs.drop (xs.length - cap)

/-- The elements of a history that are not among its last `cap`. -/
def outdated (cap : Nat) (xs : List α) : List α := xs.take (xs.length - cap)

theorem outdated_append_window (cap : Nat) (xs : List α) :
    outdated cap xs ++ window cap xs = xs := List.take_append_drop _ _

@[simp] theorem window_nil : window cap ([] : List α) = [] := by simp [window]

@[simp] theorem outdated_nil : outdated cap ([] : List α) = [] := by simp [outdated]

@[simp] theorem length_window : (window cap xs).length = min xs.length cap := by
  simp only [window, List.length_drop]
  omega

theorem window_of_le (h : xs.length ≤ cap) : window cap xs = xs := by
  simp [window, Nat.sub_eq_zero_of_le h]

theorem outdated_of_le (h : xs.length ≤ cap) : outdated cap xs = [] := by
  simp [outdated, Nat.sub_eq_zero_of_le h]

theorem window_sublist : (window cap xs).Sublist xs := List.drop_sublist _ _

theorem getElem_window {i : Nat} (hi : i < (window cap xs).length)
    (hi' : xs.length - cap + i < xs.length) :
    (window cap xs)[i] = xs[xs.length - cap + i] := by
  simp [window]

/-- Adding an element to a queue that is full gives up its oldest element. -/
theorem window_cons_snoc (h : xs.length + 1 = cap) (y : α) :
    window cap ((y :: xs) ++ [x]) = xs ++ [x] ∧ outdated cap ((y :: xs) ++ [x]) = [y] := by
  subst h
  simp [window, outdated]

/-- What a queue holds depends only on what it held before and on what was added since. -/
theorem window_window_append (ys : List α) :
    window cap (window cap xs ++ ys) = window cap (xs ++ ys) := by
  simp only [window, List.length_append, List.length_drop]
  by_cases h : xs.length ≤ cap
  · simp [Nat.sub_eq_zero_of_le h]
  · rw [← List.drop_append_of_le_length (by omega), List.drop_drop]
    congr 1
    omega

/-- A queue that is not yet full gives up nothing; a full one gives up the element that was added
`cap` additions ago. -/
theorem head?_outdated_push (pos : 0 < cap) :
    (outdated cap (window cap xs ++ [x])).head? =
      if xs.length < cap then none else xs[xs.length - cap]? := by
  split
  · rw [outdated_of_le (by simp; omega), List.head?_nil]
  · have one : (window cap xs ++ [x]).length - cap = 1 := by simp; omega
    have nonempty : 0 < (window cap xs).length := by simp; omega
    rw [outdated, one, List.head?_take, if_neg (by decide), List.head?_eq_getElem?,
      List.getElem?_append_left nonempty, window, List.getElem?_drop, Nat.add_zero]

theorem map_window (f : α → β) : (window cap xs).map f = window cap (xs.map f) := by
  simp [window, List.map_drop]

theorem map_outdated (f : α → β) : (outdated cap xs).map f = outdated cap (xs.map f) := by
  simp [outdated, List.map_take]

end ProofKit
