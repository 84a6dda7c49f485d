import Aesd.ProofKit.Run
import Mathlib.Data.Finset.Basic

/-! What code does with resources that it has to give back: it acquires, uses and releases them.
`Custody` is a run of such acts from the resources held before to those held after, in which nothing
is acquired twice, and nothing is used or released that is not held. -/

namespace ProofKit

inductive Act (ρ : Type) where
  | acquire (r : ρ)
  | use (r : ρ)
  | release (r : ρ)
  deriving DecidableEq, Repr

namespace Act

variable {ρ : Type} [DecidableEq ρ]

def resource : Act ρ → ρ
  | acquire r | use r | release r => r

/-- The resources held after an act; there is none when it is out of order. -/
def apply (held : Finset ρ) : Act ρ → Option (Finset ρ)
  | acquire r => if r ∈ held then none else some (insert r held)
  | use r => if r ∈ held then some held else none
  | release r => if r ∈ held then some (held.erase r) else none

def Step (held : Finset ρ) (act : Act ρ) (held' : Finset ρ) : Prop := act.apply held = some held'

variable {held held' : Finset ρ} {r : ρ} {act : Act ρ}

theorem step_acquire : Step held (acquire r) held' ↔ r ∉ held ∧ held' = insert r held := by
  simp [Step, apply, eq_comm]

theorem step_use : Step held (use r) held' ↔ r ∈ held ∧ held' = held := by
  simp [Step, apply, eq_comm]

theorem step_release : Step held (release r) held' ↔ r ∈ held ∧ held' = held.erase r := by
  simp [Step, apply, eq_comm]

/-- Whether the resource is held, as a number. -/
def holds (held : Finset ρ) (r : ρ) : Nat := if r ∈ held then 1 else 0

/-- What is held before and what is acquired is what is released and what is held after. -/
theorem Step.balance (step : Step held act held') (r : ρ) :
    holds held r + [act].count (acquire r) = [act].count (release r) + holds held' r := by
  cases act with
  | acquire q =>
    obtain ⟨free, rfl⟩ := step_acquire.mp step
    by_cases same : q = r
    · subst same
      simp [holds, free]
    · simp [holds, same, Ne.symm same]
  | use q =>
    obtain ⟨-, rfl⟩ := step_use.mp step
    simp
  | release q =>
    obtain ⟨here, rfl⟩ := step_release.mp step
    by_cases same : q = r
    · subst same
      simp [holds, here]
    · simp [holds, same, Ne.symm same]

end Act

/-- The acts are in order, and lead from the resources `held` to `held'`. -/
abbrev Custody {ρ : Type} [DecidableEq ρ] (held : Finset ρ) (acts : List (Act ρ))
    (held' : Finset ρ) : Prop :=
  Run Act.Step held acts held'

namespace Custody

open Act

variable {ρ : Type} [DecidableEq ρ] {held held' : Finset ρ} {acts before after : List (Act ρ)}
  {act : Act ρ} {r : ρ}

theorem balance (custody : Custody held acts held') (r : ρ) :
    holds held r + acts.count (acquire r) = acts.count (release r) + holds held' r := by
  induction custody with
  | nil => simp
  | @cons s t u act acts step _ ih =>
    have first := step.balance r
    have split (a : Act ρ) : (act :: acts).count a = [act].count a + acts.count a := by
      rw [← List.count_append, List.singleton_append]
    rw [split, split]
    omega

/-- A resource that is neither acquired nor released is held after if it was held before. -/
theorem mem_iff (custody : Custody held acts held') (notAcquired : acquire r ∉ acts)
    (notReleased : release r ∉ acts) : r ∈ held' ↔ r ∈ held := by
  have kept := custody.balance r
  rw [List.count_eq_zero_of_not_mem notAcquired, List.count_eq_zero_of_not_mem notReleased] at kept
  by_cases before : r ∈ held <;> by_cases after : r ∈ held' <;>
    simp [holds, before, after] at kept ⊢

theorem of_execute (executed : execute apply (fun _ => true) held acts = some held') :
    Custody held acts held' :=
  Run.of_execute (fun _ _ _ _ applied => applied) executed

/-- A resource that is not held is not touched until it is acquired. -/
theorem untouched (custody : Custody held acts held') (gone : r ∉ held)
    (never : acquire r ∉ acts) : ∀ act ∈ acts, act.resource ≠ r := by
  induction custody with
  | nil => simp
  | @cons s t u act acts step _ ih =>
    rw [List.mem_cons, not_or] at never
    have here : act.resource ≠ r ∧ r ∉ t := by
      cases act with
      | acquire q =>
        obtain ⟨-, rfl⟩ := step_acquire.mp step
        have ne : q ≠ r := fun same => never.1 (same ▸ rfl)
        exact ⟨ne, by simp [gone, Ne.symm ne]⟩
      | use q =>
        obtain ⟨mine, rfl⟩ := step_use.mp step
        exact ⟨fun same => gone (same ▸ mine), gone⟩
      | release q =>
        obtain ⟨mine, rfl⟩ := step_release.mp step
        exact ⟨fun same => gone (same ▸ mine), fun mem => gone (Finset.mem_of_mem_erase mem)⟩
    intro a mem
    rcases List.mem_cons.mp mem with rfl | mem
    · exact here.1
    · exact ih here.2 never.2 a mem

/-- A resource that is held or acquired once at most is not touched after its release. -/
theorem after_release (custody : Custody held acts held')
    (once : holds held r + acts.count (acquire r) ≤ 1)
    (split : acts = before ++ release r :: after) : ∀ act ∈ after, act.resource ≠ r := by
  subst split
  obtain ⟨mid, front, back⟩ := custody.split
  cases back with
  | cons step rest =>
    obtain ⟨mine, rfl⟩ := step_release.mp step
    apply Custody.untouched rest (Finset.notMem_erase r mid)
    intro again
    have front := Custody.balance front r
    have more := List.count_pos_iff.mpr again
    simp only [List.count_append, List.count_cons] at once
    simp only [holds, mine, if_true] at front once
    omega

/-- A resource that is given back in the end is released as often as it was held or acquired. -/
theorem count_release (custody : Custody held acts held') (gone : r ∉ held') :
    acts.count (release r) = holds held r + acts.count (acquire r) := by
  rw [custody.balance r, holds, if_neg gone, Nat.add_zero]

/-- Once it is acquired, a resource that is given back in the end is released once more than it is
acquired again. -/
theorem release_follows (custody : Custody held acts held') (gone : r ∉ held')
    (split : acts = before ++ acquire r :: after) :
    after.count (release r) = 1 + after.count (acquire r) := by
  subst split
  obtain ⟨mid, -, back⟩ := custody.split
  cases back with
  | cons step rest =>
    obtain ⟨-, rfl⟩ := step_acquire.mp step
    simpa [holds] using Custody.count_release rest gone

end Custody

/-- When each step of a machine does acts that lead from what its state holds to what the next state
holds, so does each run. -/
theorem Run.custody {σ ι ρ : Type} [DecidableEq ρ] {step : σ → ι → σ → Prop} {s t : σ} {ls : List ι}
    {acts : ι → List (Act ρ)} {held : σ → Finset ρ}
    (along : ∀ s l t, step s l t → Custody (held s) (acts l) (held t)) (run : Run step s ls t) :
    Custody (held s) (ls.flatMap acts) (held t) := by
  induction run with
  | nil s => exact .nil _
  | cons h _ ih => exact (along _ _ _ h).append ih

end ProofKit
