import Aesd.ProofKit.Run
import Mathlib.Data.List.Forall2
import Mathlib.Logic.Function.Basic

/-! Writers that append records to one log, each record in as many parts as it takes, between taking
a lock and giving it back. As every part goes to the end of the log and only the owner of the lock
appends, the log is a sequence of whole records and of records that were given up half way, in the
order in which the lock was taken. -/

namespace ProofKit

/-- Where a writer stands: it has no business with the log, it appended `done` of its record, or it
is through with its record and still has the lock. -/
inductive Stage (α : Type)
  | outside
  | writing (record done : List α)
  | written

/-- Where a writer stands that appended `done` of its record. -/
def Stage.reached {α : Type} [DecidableEq α] (record done : List α) : Stage α :=
  if done = record then .written else .writing record done

/-- The log with its lock and its writers, and a history: who took the lock, and which records the
writers are through with, and whether they were appended whole. -/
structure LockedLog (τ α : Type) where
  log : List α
  owner : Option τ
  stage : τ → Stage α
  entered : List τ
  records : List (τ × List α × Bool)

namespace LockedLog

variable {τ α : Type}

inductive Step [DecidableEq τ] : LockedLog τ α → τ → LockedLog τ α → Prop
  | enter {s : LockedLog τ α} {t : τ} (record : List α) (free : s.owner = none) :
      Step s t { s with
        owner := some t
        stage := Function.update s.stage t (.writing record [])
        entered := s.entered ++ [t] }
  | append {s : LockedLog τ α} {t : τ} {record done : List α} (part : List α)
      (stage : s.stage t = .writing record done) (fits : done ++ part <+: record) :
      Step s t { s with
        log := s.log ++ part
        stage := Function.update s.stage t (.writing record (done ++ part)) }
  | finish {s : LockedLog τ α} {t : τ} {record : List α}
      (stage : s.stage t = .writing record record) :
      Step s t { s with
        stage := Function.update s.stage t .written
        records := s.records ++ [(t, record, true)] }
  | giveUp {s : LockedLog τ α} {t : τ} {record done : List α}
      (stage : s.stage t = .writing record done) (short : done ≠ record) :
      Step s t { s with
        stage := Function.update s.stage t .written
        records := s.records ++ [(t, record, false)] }
  | leave {s : LockedLog τ α} {t : τ} (stage : s.stage t = .written) :
      Step s t { s with
        owner := none
        stage := Function.update s.stage t .outside }

/-- The block that a record left in the log. -/
def Kept (record : τ × List α × Bool) (block : List α) : Prop :=
  if record.2.2 then block = record.2.1 else block <+: record.2.1 ∧ block ≠ record.2.1

/-- At most the owner of the lock is not outside, and what it has appended of its record is
`current`. -/
def Inside (s : LockedLog τ α) (current : List α) : Prop :=
  match s.owner with
  | none => current = [] ∧ s.entered = s.records.map Prod.fst ∧ ∀ t, s.stage t = .outside
  | some t => (∀ u, u ≠ t → s.stage u = .outside) ∧
    match s.stage t with
    | .outside => False
    | .writing record done =>
      current = done ∧ done <+: record ∧ s.entered = s.records.map Prod.fst ++ [t]
    | .written => current = [] ∧ s.entered = s.records.map Prod.fst

/-- The log is one block for each record that a writer is through with, and what the owner of the
lock has appended so far. -/
def Intact (first : List α) (s : LockedLog τ α) : Prop :=
  ∃ blocks current, s.log = first ++ blocks.flatten ++ current ∧
    List.Forall₂ Kept s.records blocks ∧ s.Inside current

variable {s s' : LockedLog τ α} {t : τ} {first current : List α} {ls : List τ}

theorem Inside.owner_eq (inside : s.Inside current) (busy : s.stage t ≠ .outside) :
    s.owner = some t := by
  unfold Inside at inside
  cases owner : s.owner with
  | none =>
    rw [owner] at inside
    exact absurd (inside.2.2 t) busy
  | some u =>
    rw [owner] at inside
    by_contra other
    exact busy (inside.1 t fun eq => other (eq ▸ rfl))

theorem Inside.outside_of_ne (inside : s.Inside current) (owner : s.owner = some t) :
    ∀ u, u ≠ t → s.stage u = .outside := by
  unfold Inside at inside
  rw [owner] at inside
  exact inside.1

theorem Inside.writing (inside : s.Inside current) {record done : List α}
    (stage : s.stage t = .writing record done) :
    current = done ∧ done <+: record ∧ s.entered = s.records.map Prod.fst ++ [t] := by
  have owner := inside.owner_eq (t := t) (by simp [stage])
  simp only [Inside, owner, stage] at inside
  exact inside.2

theorem Inside.written (inside : s.Inside current) (stage : s.stage t = .written) :
    current = [] ∧ s.entered = s.records.map Prod.fst := by
  have owner := inside.owner_eq (t := t) (by simp [stage])
  simp only [Inside, owner, stage] at inside
  exact inside.2

theorem Inside.free (inside : s.Inside current) (free : s.owner = none) :
    current = [] ∧ s.entered = s.records.map Prod.fst ∧ ∀ t, s.stage t = .outside := by
  simpa only [Inside, free] using inside

theorem Inside.owned (inside : s.Inside current) (owner : s.owner = some t) :
    (∃ record, s.stage t = .writing record current ∧ current <+: record ∧
      s.entered = s.records.map Prod.fst ++ [t]) ∨
    s.stage t = .written ∧ current = [] ∧ s.entered = s.records.map Prod.fst := by
  simp only [Inside, owner] at inside
  cases stage : s.stage t with
  | outside => simp [stage] at inside
  | writing record done =>
    simp only [stage] at inside
    obtain ⟨-, rfl, front, entered⟩ := inside
    exact .inl ⟨record, rfl, front, entered⟩
  | written =>
    simp only [stage] at inside
    exact .inr ⟨rfl, inside.2⟩

theorem Intact.step [DecidableEq τ] (intact : s.Intact first) (step : Step s t s') :
    s'.Intact first := by
  obtain ⟨blocks, current, log, kept, inside⟩ := intact
  -- the others stay outside
  have others {u : τ} {stage : Stage α} (owner : s.owner = some t) (ne : u ≠ t) :
      Function.update s.stage t stage u = .outside := by
    rw [Function.update_of_ne ne]
    exact inside.outside_of_ne owner u ne
  cases step with
  | enter record free =>
    obtain ⟨rfl, entered, outside⟩ := inside.free free
    refine ⟨blocks, [], log, kept, fun u ne => ?_, ?_⟩
    · simp only [Function.update_of_ne ne, outside u]
    · simp only [Function.update_self]
      exact ⟨trivial, List.nil_prefix, by rw [entered]⟩
  | append part stage fits =>
    obtain ⟨rfl, -, entered⟩ := inside.writing stage
    have owner := inside.owner_eq (t := t) (by simp [stage])
    refine ⟨blocks, current ++ part, by simp [log], kept, ?_⟩
    simp only [Inside, owner, Function.update_self]
    exact ⟨fun u ne => others owner ne, trivial, fits, entered⟩
  | @finish record stage =>
    obtain ⟨rfl, -, entered⟩ := inside.writing stage
    have owner := inside.owner_eq (t := t) (by simp [stage])
    have block : Kept (t, current, true) current := by simp [Kept]
    refine ⟨blocks ++ [current], [], by simp [log], List.rel_append kept (.cons block .nil), ?_⟩
    simp only [Inside, owner, Function.update_self]
    exact ⟨fun u ne => others owner ne, trivial, by simp [entered]⟩
  | @giveUp record done stage short =>
    obtain ⟨rfl, front, entered⟩ := inside.writing stage
    have owner := inside.owner_eq (t := t) (by simp [stage])
    have block : Kept (t, record, false) current := by
      rw [Kept, if_neg (by simp)]
      exact ⟨front, short⟩
    refine ⟨blocks ++ [current], [], by simp [log], List.rel_append kept (.cons block .nil), ?_⟩
    simp only [Inside, owner, Function.update_self]
    exact ⟨fun u ne => others owner ne, trivial, by simp [entered]⟩
  | leave stage =>
    obtain ⟨rfl, entered⟩ := inside.written stage
    have owner := inside.owner_eq (t := t) (by simp [stage])
    refine ⟨blocks, [], log, kept, rfl, entered, fun u => ?_⟩
    by_cases same : u = t
    · subst same
      exact Function.update_self _ _ _
    · exact others owner same

theorem Intact.run [DecidableEq τ] (run : Run Step s ls s') (intact : s.Intact first) :
    s'.Intact first :=
  run.invariant (fun _ _ _ intact step => intact.step step) intact

/-! A writer that stops as soon as its record is there takes both steps at once. -/

section Reached

variable [DecidableEq α]

/-- What it adds to the records that were appended whole. -/
def completes (t : τ) (record done : List α) : List (τ × List α × Bool) :=
  if done = record then [(t, record, true)] else []

variable [DecidableEq τ]

theorem run_finish {record done : List α} (stage : s.stage t = .writing record done) :
    ∃ ls, Run Step s ls { s with
      stage := Function.update s.stage t (.reached record done)
      records := s.records ++ completes t record done } := by
  by_cases whole : done = record
  · subst whole
    simp only [Stage.reached, completes, if_true]
    exact ⟨_, .single (.finish stage)⟩
  · refine ⟨[], ?_⟩
    simp only [Stage.reached, completes, whole, if_false, List.append_nil, ← stage,
      Function.update_eq_self]
    exact .nil s

theorem run_enter (record : List α) (free : s.owner = none) :
    ∃ ls, Run Step s ls { s with
      owner := some t
      stage := Function.update s.stage t (.reached record [])
      entered := s.entered ++ [t]
      records := s.records ++ completes t record [] } := by
  obtain ⟨ls, finish⟩ := run_finish (t := t) (s := { s with
    owner := some t
    stage := Function.update s.stage t (.writing record [])
    entered := s.entered ++ [t] }) (Function.update_self _ _ _)
  simp only [Function.update_idem] at finish
  exact ⟨_, .cons (.enter record free) finish⟩

theorem run_append {record done : List α} (part : List α)
    (stage : s.stage t = .writing record done) (fits : done ++ part <+: record) :
    ∃ ls, Run Step s ls { s with
      log := s.log ++ part
      stage := Function.update s.stage t (.reached record (done ++ part))
      records := s.records ++ completes t record (done ++ part) } := by
  obtain ⟨ls, finish⟩ := run_finish (t := t) (s := { s with
    log := s.log ++ part
    stage := Function.update s.stage t (.writing record (done ++ part)) })
    (Function.update_self _ _ _)
  simp only [Function.update_idem] at finish
  exact ⟨_, .cons (.append part stage fits) finish⟩

end Reached

theorem intact_start (first : List α) :
    (⟨first, none, fun _ => .outside, [], []⟩ : LockedLog τ α).Intact first :=
  ⟨[], [], by simp, .nil, rfl, rfl, fun _ => rfl⟩

end LockedLog

end ProofKit
