import Mathlib.Data.List.Basic

/-! Strings that end at the first terminator of a buffer, and copies of them into memory that is not
bounded: what a copy changes, and which string a buffer holds once part of it is overwritten. -/

namespace ProofKit

variable {α : Type} [DecidableEq α] {stop c x : α} {xs ys buffer : List α} {n : Nat}

/-- The string in a buffer: what stands in front of its first terminator. -/
def cstr (stop : α) (buffer : List α) : List α := buffer.takeWhile (· ≠ stop)

/-- `xs` up to its first `c`, which is included; all of it when there is none. -/
def upTo (c : α) (xs : List α) : List α := xs.take (xs.idxOf c + 1)

/-- The buffer once `xs` was written to its start. -/
def fill (buffer xs : List α) : List α := xs ++ buffer.drop xs.length

/-- The memory once `xs` was written from address `start` on. -/
def copyTo (memory : Nat → α) (start : Nat) (xs : List α) : Nat → α := fun i =>
  if start ≤ i then xs[i - start]?.getD (memory i) else memory i

theorem ne_of_mem_cstr (mem : x ∈ cstr stop buffer) : x ≠ stop := by
  induction buffer with
  | nil => simp [cstr] at mem
  | cons y buffer ih =>
    by_cases stops : y = stop
    · simp [cstr, stops] at mem
    · rcases (by simpa [cstr, stops] using mem : x = y ∨ x ∈ cstr stop buffer) with rfl | rest
      · exact stops
      · exact ih rest

theorem length_cstr_le (ended : buffer[n]? = some stop) : (cstr stop buffer).length ≤ n := by
  by_contra long
  have inside : n < (cstr stop buffer).length := Nat.lt_of_not_le long
  have same := (List.takeWhile_prefix _ : cstr stop buffer <+: buffer).getElem inside
  obtain ⟨hn, at_⟩ := List.getElem?_eq_some_iff.mp ended
  exact ne_of_mem_cstr (List.getElem_mem inside) (same.trans at_)

theorem cstr_set (inside : n ≤ (cstr stop buffer).length) (room : n < buffer.length) :
    cstr stop (buffer.set n stop) = (cstr stop buffer).take n := by
  induction buffer generalizing n with
  | nil => simp at room
  | cons y buffer ih =>
    cases n with
    | zero => simp [cstr]
    | succ n =>
      have keep : y ≠ stop := by
        rintro rfl
        simp [cstr] at inside
      simp only [cstr, List.takeWhile_cons, List.set_cons_succ, keep, ne_eq, not_false_eq_true,
        decide_true, ite_true, List.length_cons, Nat.add_le_add_iff_right, List.take_succ_cons]
        at inside room ⊢
      rw [← cstr, ih inside (by omega)]
      rfl

theorem cstr_append_of_not_mem (none : stop ∉ xs) : cstr stop (xs ++ ys) = xs ++ cstr stop ys := by
  rw [cstr, List.takeWhile_append_of_pos]
  · rfl
  · intro y hy
    simpa using fun eq : y = stop => none (eq ▸ hy)

theorem cstr_of_not_mem (none : stop ∉ xs) : cstr stop xs = xs := by
  simpa [cstr] using (cstr_append_of_not_mem none : cstr stop (xs ++ []) = _)

/-- A string is what comes before the first `stop`. -/
theorem cstr_append_stop (none : stop ∉ xs) : cstr stop (xs ++ stop :: ys) = xs := by
  rw [cstr_append_of_not_mem none]
  simp [cstr]

theorem cstr_append_of_mem (mem : stop ∈ xs) : cstr stop (xs ++ ys) = cstr stop xs := by
  obtain ⟨front, back, rfl, none⟩ := List.eq_append_cons_of_mem mem
  rw [List.append_assoc, List.cons_append, cstr_append_stop none, cstr_append_stop none]

theorem getElem?_cstr_end (mem : stop ∈ xs) : xs[(cstr stop xs).length]? = some stop := by
  obtain ⟨front, back, rfl, none⟩ := List.eq_append_cons_of_mem mem
  rw [cstr_append_stop none, List.getElem?_append_right (Nat.le_refl _), Nat.sub_self]
  rfl

theorem upTo_prefix : upTo c xs <+: xs := List.take_prefix _ _

theorem upTo_of_not_mem (none : c ∉ xs) : upTo c xs = xs := by
  rw [upTo, List.idxOf_eq_length none]
  exact List.take_of_length_le (Nat.le_succ _)

theorem length_upTo (mem : c ∈ xs) : (upTo c xs).length = xs.idxOf c + 1 := by
  rw [upTo, List.length_take, Nat.min_eq_left (List.idxOf_lt_length_of_mem mem)]

theorem upTo_append (none : c ∉ xs) : upTo c (xs ++ c :: ys) = xs ++ [c] := by
  have index : (xs ++ c :: ys).idxOf c = xs.length := by
    rw [List.idxOf_append_of_notMem none, List.idxOf_cons_self, Nat.add_zero]
  rw [upTo, index, List.take_append, List.take_of_length_le (Nat.le_succ _)]
  simp

theorem upTo_append_of_not_mem (none : c ∉ xs) : upTo c (xs ++ ys) = xs ++ upTo c ys := by
  rw [upTo, List.idxOf_append_of_notMem none, List.take_append,
    List.take_of_length_le (by omega), upTo]
  congr 2
  omega

/-- A string without a `c` is the same once the buffer is cut behind its first `c`. -/
theorem cstr_upTo (ends : c ≠ stop) (none : c ∉ cstr stop xs) :
    cstr stop (upTo c xs) = cstr stop xs := by
  by_cases mem : stop ∈ xs
  · obtain ⟨front, back, rfl, clean⟩ := List.eq_append_cons_of_mem mem
    rw [cstr_append_stop clean] at none ⊢
    rw [upTo_append_of_not_mem none]
    have next : upTo c (stop :: back) = stop :: upTo c back := by
      simp [upTo, ends.symm]
    rw [next, cstr_append_stop clean]
  · rw [cstr_of_not_mem mem] at none
    rw [upTo_of_not_mem none]

theorem upTo_eq_append (mem : c ∈ xs) : ∃ body, upTo c xs = body ++ [c] ∧ c ∉ body := by
  obtain ⟨body, rest, rfl, none⟩ := List.eq_append_cons_of_mem mem
  exact ⟨body, upTo_append none, none⟩

section Copy

omit [DecidableEq α]

variable {memory : Nat → α} {start i : Nat}

theorem copyTo_before (before : i < start) : copyTo memory start xs i = memory i :=
  if_neg (Nat.not_le.mpr before)

theorem copyTo_inside {j : Nat} (inside : j < xs.length) :
    copyTo memory start xs (start + j) = xs[j] := by
  rw [copyTo, if_pos (Nat.le_add_right _ _), Nat.add_sub_cancel_left,
    List.getElem?_eq_getElem inside, Option.getD_some]

theorem copyTo_behind {j : Nat} (behind : xs.length ≤ j) :
    copyTo memory start xs (start + j) = memory (start + j) := by
  rw [copyTo, if_pos (Nat.le_add_right _ _), Nat.add_sub_cancel_left,
    List.getElem?_eq_none behind, Option.getD_none]

end Copy

/-- A copy of the string in a buffer that starts with `xs` leaves `xs` in the memory exactly when
what stands in `xs` behind its first terminator was there before. -/
theorem copyTo_cstr_iff {memory : Nat → α} {start : Nat} :
    (∀ j (hj : j < xs.length),
      copyTo memory start (cstr stop (xs ++ ys) ++ [stop]) (start + j) = xs[j]) ↔
    ∀ j (hj : j < xs.length), (cstr stop xs).length < j → memory (start + j) = xs[j] := by
  by_cases mem : stop ∈ xs
  · rw [cstr_append_of_mem mem]
    constructor
    · intro copies j hj behind
      rw [← copies j hj, copyTo_behind (by simp; omega)]
    · intro stands j hj
      rcases Nat.lt_trichotomy j (cstr stop xs).length with inside | rfl | behind
      · rw [copyTo_inside (by simp; omega), List.getElem_append_left inside]
        exact (List.takeWhile_prefix _ : cstr stop xs <+: xs).getElem inside
      · obtain ⟨_, ends⟩ := List.getElem?_eq_some_iff.mp (getElem?_cstr_end mem)
        rw [copyTo_inside (by simp), List.getElem_append_right (Nat.le_refl _)]
        simpa using ends.symm
      · rw [copyTo_behind (by simp; omega), stands j hj behind]
  · refine iff_of_true (fun j hj => ?_) fun j hj behind => ?_
    · rw [cstr_append_of_not_mem mem, copyTo_inside (by simp; omega),
        List.getElem_append_left (by simp; omega), List.getElem_append_left hj]
    · rw [cstr_of_not_mem mem] at behind
      omega

/-- A buffer that starts with a line and shows its newline has no terminator in the line. -/
theorem upTo_cstr_line (ends : c ≠ stop) (none : c ∉ xs)
    (shown : c ∈ cstr stop ((xs ++ [c]) ++ ys)) :
    upTo c (cstr stop ((xs ++ [c]) ++ ys)) = xs ++ [c] ∧ stop ∉ xs ++ [c] := by
  by_cases mem : stop ∈ xs
  · rw [List.append_assoc, cstr_append_of_mem mem] at shown
    exact absurd ((List.takeWhile_prefix _ : cstr stop xs <+: xs).subset shown) none
  · have clean : stop ∉ xs ++ [c] := by simpa [mem] using ends.symm
    rw [cstr_append_of_not_mem clean, List.append_assoc]
    exact ⟨upTo_append none, clean⟩

/-- A buffer that starts with `xs`, and whose string shows a `c` when `xs` has one, shows the first
of `xs`. -/
theorem upTo_cstr_of_mem (ends : c ≠ stop) (mem : c ∈ xs) (shown : c ∈ cstr stop (xs ++ ys)) :
    upTo c (cstr stop (xs ++ ys)) = upTo c xs ∧ stop ∉ upTo c xs := by
  obtain ⟨front, back, rfl, none⟩ := List.eq_append_cons_of_mem mem
  have split : front ++ c :: back ++ ys = (front ++ [c]) ++ (back ++ ys) := by simp
  rw [split] at shown ⊢
  rw [upTo_append none]
  exact upTo_cstr_line ends none shown

end ProofKit
