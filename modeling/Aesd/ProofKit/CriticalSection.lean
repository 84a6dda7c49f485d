import Aesd.ProofKit.Run
import Mathlib.Logic.Function.Basic

/-! Calls that run their code one statement at a time on a state that all threads share, between
taking a lock and giving it back. Only the owner of the lock touches the shared state, so what the
threads see is what they would see if each call were one action, made in the order in which the
lock is given back. -/

namespace ProofKit

/-- A program over a state. A statement changes the state, and the rest of the program may depend
on the state that the statement found. -/
inductive Steps (ε σ ρ : Type)
  | done (r : ρ)
  | fault (e : ε)
  | step (f : σ → σ) (rest : σ → Steps ε σ ρ)

namespace Steps

variable {ε σ ρ α β : Type}

def bind : Steps ε σ α → (α → Steps ε σ β) → Steps ε σ β
  | .done a, k => k a
  | .fault e, _ => .fault e
  | .step f rest, k => .step f fun s => (rest s).bind k

instance : Monad (Steps ε σ) where
  pure := .done
  bind := .bind

/-- A statement that only looks at the state. -/
def look (f : σ → α) : Steps ε σ α := .step id fun s => .done (f s)

/-- A statement that only changes the state. -/
def change (f : σ → σ) : Steps ε σ Unit := .step f fun _ => .done ()

/-- A statement that may fail. -/
def access (f : σ → Except ε (α × σ)) : Steps ε σ α :=
  .step
    (fun s => match f s with
      | .ok (_, s') => s'
      | .error _ => s)
    fun s => match f s with
      | .ok (a, _) => .done a
      | .error e => .fault e

/-- A program that only runs under a condition. -/
def when (c : Prop) [Decidable c] (p : Steps ε σ Unit) : Steps ε σ Unit :=
  if c then p else pure ()

/-- The program run alone. -/
def run : Steps ε σ ρ → σ → Except ε (ρ × σ)
  | .done r, s => .ok (r, s)
  | .fault e, _ => .error e
  | .step f rest, s => (rest s).run (f s)

/-- The number of statements that the program runs alone. -/
def cost : Steps ε σ ρ → σ → Nat
  | .step f rest, s => (rest s).cost (f s) + 1
  | _, _ => 0

variable {s : σ}

@[simp] theorem run_pure (r : ρ) : (pure r : Steps ε σ ρ).run s = .ok (r, s) := rfl

theorem run_bind (p : Steps ε σ α) (k : α → Steps ε σ β) (s : σ) :
    (p >>= k).run s = match p.run s with
      | .ok (a, s') => (k a).run s'
      | .error e => .error e := by
  induction p generalizing s with
  | done a => rfl
  | fault e => rfl
  | step f rest ih => exact ih s (f s)

@[simp] theorem run_look (f : σ → α) : (look f : Steps ε σ α).run s = .ok (f s, s) := rfl

@[simp] theorem run_change (f : σ → σ) : (change f : Steps ε σ Unit).run s = .ok ((), f s) := rfl

@[simp] theorem run_access (f : σ → Except ε (α × σ)) : (access f).run s = f s := by
  simp only [access, run]
  cases found : f s with
  | error e => rfl
  | ok x => rfl

/-- The program runs at most `n` statements, in whatever state it is started. -/
def AtMost (n : Nat) (p : Steps ε σ ρ) : Prop := ∀ s, p.cost s ≤ n

theorem atMost_pure (r : ρ) : (pure r : Steps ε σ ρ).AtMost 0 := fun _ => Nat.le_refl 0

theorem atMost_look (f : σ → α) : (look f : Steps ε σ α).AtMost 1 := fun _ => Nat.le_refl 1

theorem atMost_change (f : σ → σ) : (change f : Steps ε σ Unit).AtMost 1 := fun _ => Nat.le_refl 1

theorem atMost_access (f : σ → Except ε (α × σ)) : (access f).AtMost 1 := by
  intro s
  simp only [access, cost]
  cases f s with
  | error e => exact Nat.le_refl 1
  | ok x => exact Nat.le_refl 1

theorem AtMost.mono {p : Steps ε σ ρ} {m n : Nat} (le : m ≤ n) (bound : p.AtMost m) :
    p.AtMost n :=
  fun s => Nat.le_trans (bound s) le

theorem cost_bind_le {p : Steps ε σ α} {k : α → Steps ε σ β} {n : Nat}
    (rest : ∀ a, (k a).AtMost n) (s : σ) : (p >>= k).cost s ≤ p.cost s + n := by
  induction p generalizing s with
  | done a => exact Nat.le_trans (rest a s) (Nat.le_add_left _ _)
  | fault e => exact Nat.zero_le _
  | step f next ih =>
    have later := Nat.succ_le_succ (ih s (f s))
    rw [← Nat.succ_add] at later
    exact later

theorem AtMost.bind {p : Steps ε σ α} {k : α → Steps ε σ β} {m n : Nat} (first : p.AtMost m)
    (rest : ∀ a, (k a).AtMost n) : (p >>= k).AtMost (m + n) :=
  fun s => Nat.le_trans (cost_bind_le rest s) (Nat.add_le_add_right (first s) n)

theorem AtMost.ite {p q : Steps ε σ ρ} {n : Nat} (c : Prop) [Decidable c] (left : p.AtMost n)
    (right : q.AtMost n) : (if c then p else q).AtMost n := by
  split
  · exact left
  · exact right

theorem AtMost.when {p : Steps ε σ Unit} {n : Nat} (c : Prop) [Decidable c] (bound : p.AtMost n) :
    (when c p).AtMost n :=
  .ite c bound ((atMost_pure ()).mono (Nat.zero_le n))

end Steps

/-- A call with the state of its thread: it answers without the lock, or it takes the lock and runs
a program on the shared state and the thread's own. -/
inductive Critical (ε σ ℓ ρ : Type)
  | unlocked (f : ℓ → ρ × ℓ)
  | locked (body : Steps ε (σ × ℓ) ρ)

/-- The call as one action. -/
def Critical.run {ε σ ℓ ρ : Type} : Critical ε σ ℓ ρ → σ × ℓ → Except ε (ρ × σ × ℓ)
  | .unlocked f, (s, l) => .ok ((f l).1, s, (f l).2)
  | .locked body, s => body.run s

/-- Where a thread is in a call. -/
inductive Place (ε σ ℓ κ ρ : Type)
  | idle
  | called (k : κ)
  | inside (k : κ) (rest : Steps ε (σ × ℓ) ρ)
  | leaving (k : κ) (r : ρ)

/-- The threads, the state they share, and the owner of its lock. -/
structure Threads (ε σ ℓ κ ρ τ : Type) where
  shared : σ
  own : τ → ℓ
  owner : Option τ
  place : τ → Place ε σ ℓ κ ρ

/-- What a thread does: it makes a call, takes the lock, runs a statement, settles the call by
giving the lock back or by an answer without it, and returns to its caller. -/
inductive Action (κ ρ : Type)
  | call (k : κ)
  | enter
  | statement
  | settle (k : κ) (r : ρ)
  | return_ (k : κ) (r : ρ)

namespace Threads

variable {ε σ ℓ κ ρ τ : Type}

/-- All threads idle. -/
def start (shared : σ) (own : τ → ℓ) : Threads ε σ ℓ κ ρ τ := ⟨shared, own, none, fun _ => .idle⟩

variable [DecidableEq τ] (code : κ → Critical ε σ ℓ ρ)

inductive Step : Threads ε σ ℓ κ ρ τ → τ × Action κ ρ → Threads ε σ ℓ κ ρ τ → Prop
  | call {c : Threads ε σ ℓ κ ρ τ} {t : τ} (k : κ) (idle : c.place t = .idle) :
      Step c (t, .call k) { c with place := Function.update c.place t (.called k) }
  | answer {c : Threads ε σ ℓ κ ρ τ} {t : τ} {k : κ} {f : ℓ → ρ × ℓ}
      (place : c.place t = .called k) (unlocked : code k = .unlocked f) :
      Step c (t, .settle k (f (c.own t)).1) { c with
        own := Function.update c.own t (f (c.own t)).2
        place := Function.update c.place t (.leaving k (f (c.own t)).1) }
  | enter {c : Threads ε σ ℓ κ ρ τ} {t : τ} {k : κ} {body : Steps ε (σ × ℓ) ρ}
      (place : c.place t = .called k) (locked : code k = .locked body) (free : c.owner = none) :
      Step c (t, .enter) { c with
        owner := some t
        place := Function.update c.place t (.inside k body) }
  | statement {c : Threads ε σ ℓ κ ρ τ} {t : τ} {k : κ} {f : σ × ℓ → σ × ℓ}
      {rest : σ × ℓ → Steps ε (σ × ℓ) ρ} (place : c.place t = .inside k (.step f rest)) :
      Step c (t, .statement) { c with
        shared := (f (c.shared, c.own t)).1
        own := Function.update c.own t (f (c.shared, c.own t)).2
        place := Function.update c.place t (.inside k (rest (c.shared, c.own t))) }
  | leave {c : Threads ε σ ℓ κ ρ τ} {t : τ} {k : κ} {r : ρ}
      (place : c.place t = .inside k (.done r)) :
      Step c (t, .settle k r) { c with
        owner := none
        place := Function.update c.place t (.leaving k r) }
  | return_ {c : Threads ε σ ℓ κ ρ τ} {t : τ} {k : κ} {r : ρ} (place : c.place t = .leaving k r) :
      Step c (t, .return_ k r) { c with place := Function.update c.place t .idle }

/-- A call made as one action by a thread. -/
def Atomic (s : σ × (τ → ℓ)) (call : τ × κ × ρ) (s' : σ × (τ → ℓ)) : Prop :=
  ∃ shared own, (code call.2.1).run (s.1, s.2 call.1) = .ok (call.2.2, shared, own) ∧
    s' = (shared, Function.update s.2 call.1 own)

/-! The history of a run: the calls made, settled and returned. -/

/-- The calls settled in a run, in order. -/
def settled (ls : List (τ × Action κ ρ)) : List (τ × κ × ρ) :=
  ls.filterMap fun
    | (t, .settle k r) => some (t, k, r)
    | _ => none

/-- The calls of one thread. -/
def callsOf (t : τ) (order : List (τ × κ × ρ)) : List (κ × ρ) :=
  order.filterMap fun x => if x.1 = t then some x.2 else none

/-- The calls that a thread made in a run. -/
def called (t : τ) (ls : List (τ × Action κ ρ)) : List κ :=
  ls.filterMap fun
    | (u, .call k) => if u = t then some k else none
    | _ => none

/-- The calls that returned to a thread in a run, with their results. -/
def returned (t : τ) (ls : List (τ × Action κ ρ)) : List (κ × ρ) :=
  ls.filterMap fun
    | (u, .return_ k r) => if u = t then some (k, r) else none
    | _ => none

/-- The calls in `order`, made one at a time, are what the threads saw in the run `ls`: for each
thread the calls that returned, with their results, and at most calls that it made. A call that
returned before another one was made comes first. -/
structure Explains (ls : List (τ × Action κ ρ)) (order : List (τ × κ × ρ)) : Prop where
  program : ∀ t, returned t ls <+: callsOf t order ∧
    (callsOf t order).map Prod.fst <+: called t ls
  realTime : ∀ before after, ls = before ++ after → ∃ first rest, order = first ++ rest ∧
    ∀ t, returned t before <+: callsOf t first ∧
      (callsOf t first).map Prod.fst <+: called t before

end Threads

/-- The thread is not between taking the lock and giving it back. -/
def Place.Outside {ε σ ℓ κ ρ : Type} : Place ε σ ℓ κ ρ → Prop
  | .inside _ _ => False
  | _ => True

/-- The call that is made and not settled. -/
def Place.open_ {ε σ ℓ κ ρ : Type} : Place ε σ ℓ κ ρ → List κ
  | .called k | .inside k _ => [k]
  | _ => []

/-- The call that is settled and did not return. -/
def Place.answered {ε σ ℓ κ ρ : Type} : Place ε σ ℓ κ ρ → List (κ × ρ)
  | .leaving k r => [(k, r)]
  | _ => []

namespace Threads

variable {ε σ ℓ κ ρ τ : Type} {code : κ → Critical ε σ ℓ ρ} {c c' : Threads ε σ ℓ κ ρ τ}
  {a a' : σ × (τ → ℓ)} {ls ks : List (τ × Action κ ρ)} {t : τ} {l : τ × Action κ ρ}

@[simp] theorem settled_append : settled (ls ++ ks) = settled ls ++ settled ks :=
  List.filterMap_append

/-- The calls settled so far lead to `a` when they are made one at a time. Only the owner of the
lock is further on, and from where it is the rest of its program does to the state what the whole
program does to `a`. -/
def Follows (code : κ → Critical ε σ ℓ ρ) (c : Threads ε σ ℓ κ ρ τ) (a : σ × (τ → ℓ)) : Prop :=
  match c.owner with
  | none => c.shared = a.1 ∧ c.own = a.2 ∧ ∀ t, (c.place t).Outside
  | some t => (∀ u, u ≠ t → c.own u = a.2 u ∧ (c.place u).Outside) ∧
    ∃ k body rest, c.place t = .inside k rest ∧ code k = .locked body ∧
      rest.run (c.shared, c.own t) = body.run (a.1, a.2 t)

theorem follows_start (shared : σ) (own : τ → ℓ) :
    (start shared own).Follows code (shared, own) := ⟨rfl, rfl, fun _ => trivial⟩

theorem Follows.free (follows : c.Follows code a) (free : c.owner = none) :
    c.shared = a.1 ∧ c.own = a.2 ∧ ∀ t, (c.place t).Outside := by
  simpa only [Follows, free] using follows

theorem Follows.held (follows : c.Follows code a) (held : c.owner = some t) :
    (∀ u, u ≠ t → c.own u = a.2 u ∧ (c.place u).Outside) ∧
    ∃ k body rest, c.place t = .inside k rest ∧ code k = .locked body ∧
      rest.run (c.shared, c.own t) = body.run (a.1, a.2 t) := by
  simpa only [Follows, held] using follows

theorem Follows.owner_eq (follows : c.Follows code a) (inside : ¬(c.place t).Outside) :
    c.owner = some t := by
  cases owner : c.owner with
  | none => exact absurd ((follows.free owner).2.2 t) inside
  | some u =>
    by_contra other
    exact inside ((follows.held owner).1 t fun eq => other (eq ▸ rfl)).2

/-- A thread outside the lock has its own state as the calls settled so far leave it. -/
theorem Follows.own_eq (follows : c.Follows code a) (outside : (c.place t).Outside) :
    c.own t = a.2 t := by
  cases owner : c.owner with
  | none => rw [(follows.free owner).2.1]
  | some u =>
    obtain ⟨others, k, body, rest, place, -⟩ := follows.held owner
    refine (others t fun eq => ?_).1
    subst eq
    simp [place, Place.Outside] at outside

variable [DecidableEq τ]

@[simp] theorem called_append : called t (ls ++ ks) = called t ls ++ called t ks :=
  List.filterMap_append

@[simp] theorem returned_append : returned t (ls ++ ks) = returned t ls ++ returned t ks :=
  List.filterMap_append

@[simp] theorem callsOf_append {xs ys : List (τ × κ × ρ)} :
    callsOf t (xs ++ ys) = callsOf t xs ++ callsOf t ys :=
  List.filterMap_append

/-- Each call of a thread is returned, settled or open, in this order. -/
def Accounted (t : τ) (ls : List (τ × Action κ ρ)) (place : Place ε σ ℓ κ ρ) : Prop :=
  callsOf t (settled ls) = returned t ls ++ place.answered ∧
    called t ls = (callsOf t (settled ls)).map Prod.fst ++ place.open_

theorem Step.accounted (step : Step code c l c') (old : Accounted t ls (c.place t)) :
    Accounted t (ls ++ [l]) (c'.place t) := by
  obtain ⟨settledBy, calledBy⟩ := old
  rw [settledBy] at calledBy
  unfold Accounted
  rw [settled_append, callsOf_append, returned_append, called_append, settledBy, calledBy]
  generalize returned t ls = before
  cases step with
  | @call u k place | @answer u k f place | @enter u k body place | @statement u k f rest place
  | @leave u k r place | @return_ u k r place =>
    by_cases same : u = t
    · subst same
      simp [settled, callsOf, returned, called, place, Place.answered, Place.open_]
    · simp [settled, callsOf, returned, called, same, Function.update_of_ne (Ne.symm same)]

theorem accounted {shared : σ} {own : τ → ℓ} (run : Run (Step code) (start shared own) ls c)
    (t : τ) : Accounted t ls (c.place t) :=
  run.history (P := fun ls c => Accounted t ls (c.place t)) ⟨rfl, rfl⟩
    fun _ _ _ _ _ old step => step.accounted old

/-- The calls settled, in order, explain the run. -/
theorem explains {shared : σ} {own : τ → ℓ} (run : Run (Step code) (start shared own) ls c) :
    Explains ls (settled ls) := by
  have seen {before : List (τ × Action κ ρ)} {m : Threads ε σ ℓ κ ρ τ}
      (run : Run (Step code) (start shared own) before m) (t : τ) :
      returned t before <+: callsOf t (settled before) ∧
        (callsOf t (settled before)).map Prod.fst <+: called t before := by
    obtain ⟨settledBy, calledBy⟩ := accounted run t
    exact ⟨settledBy ▸ List.prefix_append _ _, calledBy ▸ List.prefix_append _ _⟩
  refine ⟨seen run, fun before after split => ?_⟩
  subst split
  obtain ⟨m, first, -⟩ := run.split
  exact ⟨settled before, settled after, settled_append, seen first⟩

/-- A thread moves from one place outside the lock to another and gets a new own state. -/
theorem Follows.move (follows : c.Follows code a) (from_ : (c.place t).Outside)
    (place : Place ε σ ℓ κ ρ) (into : place.Outside) (own : ℓ) :
    ({ c with
      own := Function.update c.own t own
      place := Function.update c.place t place } : Threads ε σ ℓ κ ρ τ).Follows code
      (a.1, Function.update a.2 t own) := by
  have outside (u : τ) (old : (c.place u).Outside) :
      (Function.update c.place t place u).Outside := by
    by_cases same : u = t
    · subst same
      rwa [Function.update_self]
    · rwa [Function.update_of_ne same]
  unfold Follows
  cases owner : c.owner with
  | none =>
    obtain ⟨shared, own_, all⟩ := follows.free owner
    exact ⟨shared, by rw [own_], fun u => outside u (all u)⟩
  | some u =>
    obtain ⟨others, k, body, rest, inside, locked, same⟩ := follows.held owner
    have ne : u ≠ t := fun eq => by
      subst eq
      simp [inside, Place.Outside] at from_
    refine ⟨fun v hv => ⟨?_, outside v (others v hv).2⟩, k, body, rest, ?_, locked, ?_⟩
    · by_cases same : v = t
      · subst same
        simp only [Function.update_self]
      · simp only [Function.update_of_ne same, (others v hv).1]
    · simp only [Function.update_of_ne ne, inside]
    · simp only [Function.update_of_ne ne, same]

/-- What one action does: a call that it settles is made as one action, and nothing else happens
to the state that the threads follow. -/
theorem Follows.step (follows : c.Follows code a) (step : Step code c l c') :
    ∃ a', Run (Atomic code) a (settled [l]) a' ∧ c'.Follows code a' := by
  cases step with
  | @call t k idle =>
    have outside : (c.place t).Outside := by simp [idle, Place.Outside]
    have moved := follows.move outside (.called k) trivial (c.own t)
    rw [Function.update_eq_self, follows.own_eq outside, Function.update_eq_self] at moved
    exact ⟨a, .nil a, moved⟩
  | @answer t k f place unlocked =>
    have outside : (c.place t).Outside := by simp [place, Place.Outside]
    refine ⟨_, .single ⟨a.1, (f (c.own t)).2, ?_, rfl⟩,
      follows.move outside (.leaving k _) trivial _⟩
    rw [unlocked, follows.own_eq outside]
    rfl
  | @enter t k body place locked free =>
    obtain ⟨shared, own, all⟩ := follows.free free
    refine ⟨a, .nil a, fun u ne => ⟨by rw [own], ?_⟩, k, body, body, ?_, locked, ?_⟩
    · simp only [Function.update_of_ne ne, all u]
    · exact Function.update_self _ _ _
    · rw [shared, own]
  | @statement t k f rest place =>
    have owner := follows.owner_eq (t := t) (by simp [place, Place.Outside])
    obtain ⟨others, k', body, rest', inside, locked, same⟩ := follows.held owner
    obtain ⟨rfl, rfl⟩ : k = k' ∧ Steps.step f rest = rest' := by
      simpa using place.symm.trans inside
    refine ⟨a, .nil a, ?_⟩
    simp only [Follows, owner]
    refine ⟨fun u ne => ?_, k, body, _, Function.update_self _ _ _, locked, ?_⟩
    · simp only [Function.update_of_ne ne]
      exact others u ne
    · rw [Function.update_self]
      exact same
  | @leave t k r place =>
    have owner := follows.owner_eq (t := t) (by simp [place, Place.Outside])
    obtain ⟨others, k', body, rest', inside, locked, same⟩ := follows.held owner
    obtain ⟨rfl, rfl⟩ : k = k' ∧ Steps.done r = rest' := by
      simpa using place.symm.trans inside
    refine ⟨(c.shared, Function.update a.2 t (c.own t)),
      .single ⟨c.shared, c.own t, ?_, rfl⟩, rfl, ?_, fun u => ?_⟩
    · show (code k).run (a.1, a.2 t) = _
      rw [locked]
      exact same.symm
    · funext u
      by_cases eq : u = t
      · subst eq
        exact (Function.update_self u (c.own u) a.2).symm
      · exact (others u eq).1.trans (Function.update_of_ne eq _ _).symm
    · by_cases eq : u = t
      · subst eq
        simp [Place.Outside]
      · simp only [Function.update_of_ne eq, (others u eq).2]
  | @return_ t k r place =>
    have outside : (c.place t).Outside := by simp [place, Place.Outside]
    have moved := follows.move outside .idle trivial (c.own t)
    rw [Function.update_eq_self, follows.own_eq outside, Function.update_eq_self] at moved
    exact ⟨a, .nil a, moved⟩

/-- Whatever the threads do, the calls settled so far, made one at a time and in that order, lead
to a state that the threads follow. -/
theorem Follows.run (follows : c.Follows code a) (run : Run (Step code) c ls c') :
    ∃ a', Run (Atomic code) a (settled ls) a' ∧ c'.Follows code a' := by
  induction run generalizing a with
  | nil => exact ⟨a, .nil a, follows⟩
  | @cons c m c' l ls first _ ih =>
    obtain ⟨b, one, follows⟩ := follows.step first
    obtain ⟨a', more, follows⟩ := ih follows
    have split : settled ([l] ++ ls) = settled [l] ++ settled ls := settled_append
    exact ⟨a', split ▸ one.append more, follows⟩

/-! When no call that is made fails as one action, no thread gets to a failing statement, the
threads never wait for each other in a circle, and the lock is given back. -/

/-- No call with `P` fails when it is made as one action in `a`. -/
def Total (code : κ → Critical ε σ ℓ ρ) (P : κ → Prop) (a : σ × (τ → ℓ)) : Prop :=
  ∀ t k body, P k → code k = .locked body → ∃ result, body.run (a.1, a.2 t) = .ok result

/-- All open calls have `P`. -/
def Only (P : κ → Prop) (c : Threads ε σ ℓ κ ρ τ) : Prop := ∀ t, ∀ k ∈ (c.place t).open_, P k

theorem only_of_called {P : κ → Prop} {shared : σ} {own : τ → ℓ}
    (run : Run (Step code) (start shared own) ls c) (made : ∀ t k, (t, .call k) ∈ ls → P k) :
    c.Only P := by
  intro t k opened
  have calls : k ∈ called t ls := by
    rw [(accounted run t).2]
    exact List.mem_append_right _ opened
  simp only [called, List.mem_filterMap] at calls
  obtain ⟨⟨u, act⟩, mem, of_call⟩ := calls
  cases act with
  | call k' =>
    simp only [Option.ite_none_right_eq_some, Option.some.injEq] at of_call
    obtain ⟨-, rfl⟩ := of_call
    exact made u k' mem
  | _ => contradiction

section Total

variable {P : κ → Prop}

omit [DecidableEq τ]

theorem Follows.no_fault (follows : c.Follows code a) (total : Total code P a) (only : c.Only P)
    {k : κ} {e : ε} : c.place t ≠ .inside k (.fault e) := by
  intro place
  obtain ⟨-, k', body, rest, inside, locked, same⟩ :=
    follows.held (follows.owner_eq (t := t) (by simp [place, Place.Outside]))
  obtain ⟨rfl, rfl⟩ : k = k' ∧ Steps.fault e = rest := by simpa using place.symm.trans inside
  obtain ⟨result, ok⟩ := total t k body (only t k (by simp [place, Place.open_])) locked
  rw [ok] at same
  contradiction

variable [DecidableEq τ]

/-- The owner of the lock can go on. -/
theorem Follows.owner_moves (follows : c.Follows code a) (total : Total code P a)
    (only : c.Only P) (held : c.owner = some t) : ∃ act c', Step code c (t, act) c' := by
  obtain ⟨-, k, body, rest, inside, -⟩ := follows.held held
  cases rest with
  | done r => exact ⟨_, _, .leave inside⟩
  | fault e => exact absurd inside (follows.no_fault total only)
  | step f rest => exact ⟨_, _, .statement inside⟩

/-- A thread with a call can go on, or it waits for the lock and its owner can. -/
theorem Follows.progress (follows : c.Follows code a) (total : Total code P a) (only : c.Only P)
    (busy : c.place t ≠ .idle) : ∃ u act c', (u = t ∨ c.owner = some u) ∧
      Step code c (u, act) c' := by
  cases place : c.place t with
  | idle => exact absurd place busy
  | called k =>
    cases call : code k with
    | unlocked f => exact ⟨t, _, _, .inl rfl, .answer place call⟩
    | locked body =>
      cases owner : c.owner with
      | none => exact ⟨t, _, _, .inl rfl, .enter place call owner⟩
      | some u =>
        obtain ⟨act, c', step⟩ := follows.owner_moves total only owner
        exact ⟨u, act, c', .inr rfl, step⟩
  | inside k rest =>
    have owner := follows.owner_eq (t := t) (by simp [place, Place.Outside])
    obtain ⟨act, c', step⟩ := follows.owner_moves total only owner
    exact ⟨t, act, c', .inl rfl, step⟩
  | leaving k r => exact ⟨t, _, _, .inl rfl, .return_ place⟩

end Total

/-- The number of statements that a thread has left in front of it, if it has the lock. -/
def left (c : Threads ε σ ℓ κ ρ τ) (t : τ) : Nat :=
  match c.place t with
  | .inside _ rest => rest.cost (c.shared, c.own t)
  | _ => 0

/-- The number of statements of a thread in a run. -/
def statements (t : τ) (ls : List (τ × Action κ ρ)) : Nat :=
  ls.countP fun
    | (u, .statement) => u = t
    | _ => false

theorem Follows.step_left (follows : c.Follows code a) (held : c.owner = some t)
    (step : Step code c l c') (keeps : ∀ k r, l ≠ (t, .settle k r)) :
    c'.owner = some t ∧ statements t [l] + c'.left t = c.left t := by
  obtain ⟨others, k', body, rest', inside, -⟩ := follows.held held
  cases step with
  | @call u k place | @answer u k f place | @return_ u k r place =>
    have ne : t ≠ u := fun eq => by
      subst eq
      simp [inside] at place
    simp [held, statements, left, Function.update_of_ne ne]
  | @enter u k body place locked free => simp [held] at free
  | @statement u k f rest place =>
    obtain rfl : u = t := Option.some.inj
      ((follows.owner_eq (t := u) (by simp [place, Place.Outside])).symm.trans held)
    refine ⟨held, ?_⟩
    simp only [left, place, Function.update_self, Steps.cost, statements, List.countP_singleton,
      decide_true, if_true]
    exact Nat.add_comm 1 _
  | @leave u k r place =>
    obtain rfl : u = t := Option.some.inj
      ((follows.owner_eq (t := u) (by simp [place, Place.Outside])).symm.trans held)
    exact absurd rfl (keeps k r)

/-- As long as a thread does not give the lock back it stays the owner, and each of its statements
is one of those that it had left: what the other threads do makes its way no longer. -/
theorem Follows.run_left (follows : c.Follows code a) (held : c.owner = some t)
    (run : Run (Step code) c ls c') (keeps : ∀ k r, (t, .settle k r) ∉ ls) :
    c'.owner = some t ∧ statements t ls + c'.left t = c.left t := by
  induction run generalizing a with
  | nil => exact ⟨held, Nat.zero_add _⟩
  | @cons c m c' l ls first _ ih =>
    obtain ⟨b, -, next⟩ := follows.step first
    obtain ⟨owner, one⟩ := follows.step_left held first fun k r eq =>
      keeps k r (eq ▸ List.mem_cons_self ..)
    obtain ⟨last, more⟩ := ih next owner fun k r mem => keeps k r (List.mem_cons_of_mem _ mem)
    refine ⟨last, ?_⟩
    have split : statements t ([l] ++ ls) = statements t [l] + statements t ls :=
      List.countP_append
    rw [List.singleton_append] at split
    omega

end Threads

end ProofKit
