import Mathlib.Data.List.Induction

/-! Runs of a labelled step relation: the states that a list of labels leads through, the rules
that lift what one step keeps to what a run keeps, and the split of a run at a label. -/

namespace ProofKit

/-- The labels `ls`, one step each, lead from `s` to `t`. -/
inductive Run {σ ι : Type} (step : σ → ι → σ → Prop) : σ → List ι → σ → Prop
  | nil (s : σ) : Run step s [] s
  | cons {s t u : σ} {l : ι} {ls : List ι} :
      step s l t → Run step t ls u → Run step s (l :: ls) u

namespace Run

variable {σ ι : Type} {step : σ → ι → σ → Prop} {s t u : σ} {l : ι} {ls ks : List ι}

theorem single (h : step s l t) : Run step s [l] t := .cons h (.nil t)

theorem eq_of_nil (run : Run step s [] t) : t = s := by
  cases run
  rfl

theorem append (first : Run step s ls t) (second : Run step t ks u) :
    Run step s (ls ++ ks) u := by
  induction first with
  | nil => exact second
  | cons h _ ih => exact .cons h (ih second)

theorem split (run : Run step s (ls ++ ks) u) : ∃ t, Run step s ls t ∧ Run step t ks u := by
  induction ls generalizing s with
  | nil => exact ⟨s, .nil s, run⟩
  | cons l ls ih =>
    cases run with
    | cons h rest =>
      obtain ⟨t, first, second⟩ := ih rest
      exact ⟨t, .cons h first, second⟩

theorem of_snoc (run : Run step s (ls ++ [l]) u) : ∃ t, Run step s ls t ∧ step t l u := by
  obtain ⟨t, first, last⟩ := run.split
  cases last with
  | cons h rest => cases rest; exact ⟨t, first, h⟩

/-- What holds with no label taken and is kept by each further label holds of every run. The
labels taken so far are part of the statement, so it may speak of the history. -/
theorem history {P : List ι → σ → Prop} (start : P [] s)
    (keeps : ∀ ls l t u, Run step s ls t → P ls t → step t l u → P (ls ++ [l]) u)
    (run : Run step s ls t) : P ls t := by
  induction ls using List.reverseRecOn generalizing t with
  | nil => cases run; exact start
  | append_singleton ls l ih =>
    obtain ⟨m, first, last⟩ := run.of_snoc
    exact keeps ls l m t first (ih first) last

theorem invariant {P : σ → Prop} (keeps : ∀ s l t, P s → step s l t → P t)
    (run : Run step s ls t) (start : P s) : P t := by
  induction run with
  | nil => exact start
  | cons h _ ih => exact ih (keeps _ _ _ start h)

/-- A reflexive and transitive relation that every step goes along, every run goes along. -/
theorem mono {R : σ → σ → Prop} (refl : ∀ s, R s s) (trans : ∀ {s t u}, R s t → R t u → R s u)
    (along : ∀ s l t, step s l t → R s t) (run : Run step s ls t) : R s t := by
  induction run with
  | nil => exact refl _
  | cons h _ ih => exact trans (along _ _ _ h) ih

/-- When each step keeps `P`, and is one step of another machine or none if only `view` is looked
at, then so is each run. -/
theorem project {τ κ : Type} {other : τ → κ → τ → Prop} {view : σ → τ} {label : ι → Option κ}
    {P : σ → Prop}
    (along : ∀ s l t, P s → step s l t → P t ∧ Run other (view s) (label l).toList (view t))
    (run : Run step s ls t) (start : P s) :
    P t ∧ Run other (view s) (ls.filterMap label) (view t) := by
  induction run with
  | nil => exact ⟨start, .nil _⟩
  | @cons s _ _ l ls h _ ih =>
    obtain ⟨kept, first⟩ := along _ _ _ start h
    obtain ⟨kept, rest⟩ := ih kept
    have split : (l :: ls).filterMap label = (label l).toList ++ ls.filterMap label := by
      cases seen : label l <;> simp [seen]
    exact ⟨kept, split ▸ first.append rest⟩

/-- When each label has at most one outcome, the labels of a run fix its last state. -/
theorem deterministic (unique : ∀ s l t u, step s l t → step s l u → t = u)
    (first : Run step s ls t) (second : Run step s ls u) : t = u := by
  induction first with
  | nil => cases second; rfl
  | cons h _ ih =>
    cases second with
    | cons k rest => exact ih (unique _ _ _ _ h k ▸ rest)

section Once

variable {q : ι → Bool} {P : σ → Prop} (leaves : ∀ s l t, step s l t → q l → P s ∧ ¬P t)
  (stays : ∀ s l t, step s l t → ¬P s → ¬P t)

include leaves stays

theorem countP_eq_zero (run : Run step s ls t) (outside : ¬P s) : ls.countP q = 0 := by
  induction run with
  | nil => rfl
  | @cons s t u l ls h _ ih =>
    have other : ¬q l = true := fun taken => outside (leaves s l t h taken).1
    rw [List.countP_cons, if_neg other, ih (stays s l t h outside)]

/-- A label that is only taken inside a region, and leads out of it for good, is taken at most
once. -/
theorem countP_le_one (run : Run step s ls t) : ls.countP q ≤ 1 := by
  induction run with
  | nil => simp
  | @cons s t u l ls h rest ih =>
    rw [List.countP_cons]
    by_cases taken : q l = true
    · have none := countP_eq_zero leaves stays rest (leaves s l t h taken).2
      simp [none, taken]
    · rwa [if_neg taken]

end Once

section Measure

variable {P : σ → Prop} {measure : σ → Nat} (keeps : ∀ s l t, P s → step s l t → P t)
  (less : ∀ s l t, P s → step s l t → measure t < measure s)

include keeps less

/-- A run has no more steps than its measure goes down. -/
theorem length_le (run : Run step s ls t) (start : P s) : ls.length + measure t ≤ measure s := by
  induction run with
  | nil => simp
  | cons h _ ih =>
    have step := less _ _ _ start h
    have rest := ih (keeps _ _ _ start h)
    rw [List.length_cons]
    omega

/-- When a step can be made until the end is reached, and the measure goes down, there is a run to
the end. -/
theorem exists_final {final : σ → Prop} (progress : ∀ s, P s → ¬ final s → ∃ l t, step s l t)
    (start : P s) : ∃ ls t, Run step s ls t ∧ final t := by
  induction n : measure s using Nat.strongRecOn generalizing s with
  | _ n ih =>
    by_cases ended : final s
    · exact ⟨[], s, .nil s, ended⟩
    · obtain ⟨l, t, h⟩ := progress s start ended
      obtain ⟨ls, u, rest, ended⟩ :=
        ih (measure t) (n ▸ less s l t start h) (keeps s l t start h) rfl
      exact ⟨l :: ls, u, .cons h rest, ended⟩

end Measure

/-- When each `a` takes one from the measure, and only a `b` adds to it, there are not many more of
the first. -/
theorem countP_add_le {measure : σ → Nat} {a b : ι → Bool} {n : Nat} (run : Run step s ls t)
    (along : ∀ s l t, l ∈ ls → step s l t →
      measure t + (if a l then 1 else 0) ≤ measure s + if b l then n else 0) :
    measure t + ls.countP a ≤ measure s + n * ls.countP b := by
  induction run with
  | nil => simp
  | @cons s m t l ls h _ ih =>
    have first := along s l m (by simp) h
    have rest := ih fun s l t mem => along s l t (List.mem_cons_of_mem _ mem)
    have split : n * (l :: ls).countP b = n * ls.countP b + if b l then n else 0 := by
      rw [List.countP_cons, Nat.mul_add]
      by_cases more : b l = true <;> simp [more]
    rw [split, List.countP_cons]
    omega

end Run

theorem forall_split_snoc {ι : Type} {P : List ι → ι → Prop} {ls : List ι} {l : ι} :
    (∀ before x after, ls ++ [l] = before ++ x :: after → P before x) ↔
      (∀ before x after, ls = before ++ x :: after → P before x) ∧ P ls l := by
  constructor
  · intro all
    refine ⟨fun before x after split => ?_, all ls l [] rfl⟩
    exact all before x (after ++ [l]) (by rw [split, List.append_assoc, List.cons_append])
  · rintro ⟨all, last⟩ before x after split
    rcases List.eq_nil_or_concat after with rfl | ⟨after, y, rfl⟩
    · obtain ⟨rfl, one⟩ := List.append_inj' split rfl
      obtain rfl : l = x := by simpa using one
      exact last
    · rw [List.concat_eq_append, ← List.cons_append, ← List.append_assoc] at split
      exact all before x after (List.append_inj' split rfl).1

/-! A step that can be computed, and runs found by computing them. -/

section Execute

variable {σ ι : Type} {f : σ → ι → Option σ} {p : σ → Bool} {step : σ → ι → σ → Prop} {s t u : σ}
  {ls ks : List ι}

/-- The state that the labels lead to, if `p` holds in every state on the way. -/
def execute (f : σ → ι → Option σ) (p : σ → Bool) : σ → List ι → Option σ
  | s, [] => if p s then some s else none
  | s, l :: ls => if p s then (f s l).bind fun t => execute f p t ls else none

theorem execute_cons_eq_some {l : ι} (executed : execute f p s (l :: ls) = some u) :
    p s = true ∧ ∃ t, f s l = some t ∧ execute f p t ls = some u := by
  rw [execute] at executed
  split at executed
  · rename_i good
    exact ⟨good, Option.bind_eq_some_iff.mp executed⟩
  · contradiction

theorem Run.of_execute (does : ∀ s l t, p s = true → f s l = some t → step s l t)
    (executed : execute f p s ls = some t) : Run step s ls t := by
  induction ls generalizing s with
  | nil =>
    rw [execute] at executed
    split at executed
    · cases executed
      exact .nil _
    · contradiction
  | cons l ls ih =>
    obtain ⟨good, m, first, rest⟩ := execute_cons_eq_some executed
    exact .cons (does s l m good first) (ih rest)

theorem Run.holds_of_execute (run : Run step s ls t)
    (unique : ∀ s l t, step s l t → f s l = some t)
    (executed : execute f p s (ls ++ ks) = some u) : p t = true := by
  induction run with
  | nil s =>
    cases ks with
    | nil =>
      rw [List.append_nil, execute] at executed
      split at executed
      · assumption
      · contradiction
    | cons k ks => exact (execute_cons_eq_some executed).1
  | cons h _ ih =>
    obtain ⟨-, m, first, rest⟩ := execute_cons_eq_some executed
    rw [unique _ _ _ h] at first
    exact ih (Option.some.inj first ▸ rest)

end Execute

end ProofKit
