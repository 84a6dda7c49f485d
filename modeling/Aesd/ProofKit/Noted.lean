import Mathlib.Logic.Basic

/-! Code that notes down what it does. A computation that may fail is run with a list of notes;
`Notes m x notes` says that `m` computes what `x` computes and adds `notes` when it does not
fail. -/

namespace ProofKit

variable {ε ν α β : Type}

/-- A computation that may fail and adds to a list of notes. -/
abbrev Noted (ε ν α : Type) := StateT (List ν) (Except ε) α

/-- Adds one note. -/
def note (x : ν) : Noted ε ν Unit := fun notes => .ok ((), notes ++ [x])

/-- A computation without notes. -/
def silent (x : Except ε α) : Noted ε ν α := fun notes => x.map (·, notes)

/-! The state of a noted computation after each of its steps. -/

@[simp] theorem pure_apply (a : α) (notes : List ν) :
    (Pure.pure a : Noted ε ν α) notes = .ok (a, notes) := rfl

@[simp] theorem note_bind_apply (x : ν) (f : Unit → Noted ε ν α) (notes : List ν) :
    (note x >>= f) notes = f () (notes ++ [x]) := rfl

@[simp] theorem note_map_apply (x : ν) (f : Unit → α) (notes : List ν) :
    (f <$> note x : Noted ε ν α) notes = .ok (f (), notes ++ [x]) := rfl

@[simp] theorem silent_ok_bind_apply (a : α) (f : α → Noted ε ν β) (notes : List ν) :
    (silent (.ok a) >>= f) notes = f a notes := rfl

@[simp] theorem silent_error_bind_apply (e : ε) (f : α → Noted ε ν β) (notes : List ν) :
    (silent (.error e) >>= f) notes = .error e := rfl

def Notes (m : Noted ε ν α) (x : Except ε α) (notes : List ν) : Prop :=
  ∀ before, m before = x.map (·, before ++ notes)

namespace Notes

variable {m : Noted ε ν α} {x : Except ε α} {f : α → Noted ε ν β} {g : α → Except ε β}
  {notes more : List ν}

theorem pure (a : α) : Notes (Pure.pure a : Noted ε ν α) (.ok a) [] := by
  intro before
  rw [List.append_nil]
  rfl

theorem silent (x : Except ε α) : Notes (silent x : Noted ε ν α) x [] := by
  intro before
  rw [List.append_nil]
  rfl

theorem bind (first : Notes m x notes) (next : ∀ a, x = .ok a → Notes (f a) (g a) more) :
    Notes (m >>= f) (x >>= g) (notes ++ more) := by
  intro before
  have ran := first before
  cases x with
  | error e =>
    change (m before).bind _ = _
    rw [ran]
    rfl
  | ok a =>
    change (m before).bind _ = _
    rw [ran, ← List.append_assoc]
    exact next a rfl (before ++ notes)

theorem note_bind (x : ν) {m : Unit → Noted ε ν α} {y : Except ε α}
    (next : Notes (m ()) y more) : Notes (note x >>= m) y (x :: more) := by
  intro before
  change m () (before ++ [x]) = _
  rw [next, List.append_assoc]
  rfl

theorem run (n : Notes m x notes) : m [] = x.map (·, notes) := n []

end Notes

end ProofKit
