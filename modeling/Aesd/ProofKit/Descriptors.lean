import Mathlib.Data.List.Basic

/-! The table of open files of a process: what each descriptor refers to. A call that opens a file
gets the lowest descriptor that is free. -/

namespace ProofKit

/-- What the descriptors 0, 1, 2, and so on refer to. All others are free. -/
abbrev Descriptors (κ : Type) := List (Option κ)

namespace Descriptors

variable {κ : Type} (t : Descriptors κ) {n m : Nat} {k : κ}

/-- What descriptor `n` refers to. -/
def object (n : Nat) : Option κ := t[n]?.join

/-- The lowest free descriptor. -/
def lowest : Nat := t.findIdx Option.isNone

/-- The table in which descriptor `n` refers to `o`, or is free. -/
def put (n : Nat) (o : Option κ) : Descriptors κ :=
  (t ++ List.replicate (n + 1 - t.length) none).set n o

/-- The descriptor that is given to `k`, and the table afterwards. -/
def opens (k : κ) : Nat × Descriptors κ := (t.lowest, t.put t.lowest (some k))

/-- `close`, which fails on a descriptor that is free. -/
def close (n : Nat) : Option (Descriptors κ) :=
  if (t.object n).isSome then some (t.put n none) else none

/-- `dup2`, which closes descriptor `m` if need be, and fails if `n` is free. -/
def dup2 (n m : Nat) : Option (Descriptors κ) :=
  if (t.object n).isSome then some (t.put m (t.object n)) else none

variable {t} {o : Option κ}

@[simp] theorem object_put : (t.put n o).object m = if m = n then o else t.object m := by
  have room : n < (t ++ List.replicate (n + 1 - t.length) none).length := by
    rw [List.length_append, List.length_replicate]
    omega
  unfold put object
  by_cases same : m = n
  · rw [if_pos same, same, List.getElem?_set_self room]
    rfl
  · rw [if_neg same, List.getElem?_set_ne (Ne.symm same)]
    by_cases inside : m < t.length
    · rw [List.getElem?_append_left inside]
    · -- what the table is filled up with is free
      rw [List.getElem?_append_right (Nat.not_lt.mp inside), List.getElem?_replicate,
        List.getElem?_eq_none (Nat.not_lt.mp inside)]
      split <;> rfl

theorem object_lowest : t.object t.lowest = none := by
  unfold object
  cases found : t[t.lowest]? with
  | none => rfl
  | some o =>
    have free : o.isNone = true := List.findIdx_of_getElem?_eq_some found
    rw [Option.isNone_iff_eq_none.mp free]
    rfl

theorem lowest_le (free : t.object n = none) : t.lowest ≤ n := by
  by_contra below
  have short := Nat.lt_of_lt_of_le (Nat.not_le.mp below) List.findIdx_le_length
  have used := List.not_of_lt_findIdx (Nat.not_le.mp below)
  rw [object, List.getElem?_eq_getElem short] at free
  simp only [Option.join_some] at free
  simp [free] at used

theorem close_eq (used : t.object n = some k) : t.close n = some (t.put n none) := by
  simp [close, used]

/-- A descriptor that was in use is not the one given. -/
theorem ne_lowest (used : (t.object n).isSome) : n ≠ t.lowest := by
  rintro rfl
  simp [object_lowest] at used

theorem le_lowest_iff : m ≤ t.lowest ↔ ∀ n < m, (t.object n).isSome := by
  constructor
  · intro le n below
    by_contra free
    have first := lowest_le (Option.not_isSome_iff_eq_none.mp free)
    omega
  · intro used
    by_contra below
    have free := used t.lowest (Nat.not_le.mp below)
    simp [object_lowest] at free

/-- What is open after a file was opened. -/
theorem object_opens {j : κ} :
    (t.opens k).2.object n = some j ↔ t.object n = some j ∨ j = k ∧ n = t.lowest := by
  rw [opens, object_put]
  by_cases given : n = t.lowest
  · rw [if_pos given, given, object_lowest]
    simp [eq_comm]
  · simp [given]

theorem object_close {j : κ} (used : t.object m = some k) :
    (t.put m none).object n = some j ↔ t.object n = some j ∧ ¬(j = k ∧ n = m) := by
  rw [object_put]
  by_cases closed : n = m
  · rw [if_pos closed, closed, used]
    simp [eq_comm]
  · simp [closed]

/-- What is open is what was open from the start, and what the owners in the program hold. -/
def Owned (fixed : Descriptors κ) (holds : κ → Nat → Prop) (t : Descriptors κ) : Prop :=
  ∀ n k, t.object n = some k ↔ fixed.object n = some k ∨ holds k n

variable {fixed : Descriptors κ} {holds holds' : κ → Nat → Prop}

theorem Owned.object (owned : Owned fixed holds t) (mine : holds k n) : t.object n = some k :=
  (owned n k).mpr (.inr mine)

theorem Owned.congr (owned : Owned fixed holds t) (same : ∀ j n, holds' j n ↔ holds j n) :
    Owned fixed holds' t :=
  fun n j => (owned n j).trans (or_congr_right (same j n).symm)

theorem Owned.opens (owned : Owned fixed holds t)
    (more : ∀ j n, holds' j n ↔ holds j n ∨ j = k ∧ n = t.lowest) :
    Owned fixed holds' (t.opens k).2 := by
  intro n j
  rw [object_opens, owned n j, more, or_assoc]

theorem Owned.closes (owned : Owned fixed holds t) (mine : holds k m)
    (own : fixed.object m ≠ some k) (less : ∀ j n, holds' j n ↔ holds j n ∧ ¬(j = k ∧ n = m)) :
    Owned fixed holds' (t.put m none) := by
  intro n j
  rw [object_close (owned.object mine), owned n j, less, or_and_right]
  refine or_congr_left (and_iff_left_of_imp ?_)
  rintro kept ⟨rfl, rfl⟩
  exact own kept

end Descriptors

end ProofKit
