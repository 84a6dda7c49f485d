import Aesd.Server.ConnectionList
import Mathlib.Algebra.Order.Ring.Int

/-! The sweep next to the threads it waits for. A thread ends with two stores to its entry, and it
may make them between any two steps of the loop, so the loop may find the first of them without the
second. Each step of the loop touches one thing that a thread can change. -/

namespace Aesd.Server

open ProofKit Slist

/-- How far a thread is with the last lines of `conn_handler`: it clears `is_active`, stores its
result in `descriptor`, and exits. -/
inductive Ending
  | running
  | cleared
  | exited
  deriving DecidableEq, Repr

/-- How many stores a thread has left; `none` stands for no thread. -/
def Ending.left : Option Ending → Nat
  | some .running => 2
  | some .cleared => 1
  | some .exited | none => 0

/-- An entry after the stores that its thread has made. -/
def ClEntry.after (x : ClEntry) (retval : Int) : Option Ending → ClEntry
  | none | some .running => x
  | some .cleared => { x with isActive := false }
  | some .exited => { x with isActive := false, descriptor := retval }

/-- The next step of the loop: to look at an entry, to wait for its thread and read the result, or
to remove the entry. The loop crashes when it or a thread touches a freed entry. -/
inductive SweepPc
  | look
  | join
  | remove
  | crashed
  deriving DecidableEq, Repr

/-- What the loop does with the entry at an address: the value of `is_active` that it sees, and the
result that it takes from the thread. -/
inductive SweepEvent
  | look (p : Nat) (isActive : Bool)
  | join (p : Nat) (retval : Int)
  | free (p : Nat)
  deriving DecidableEq, Repr

/-- The loop and the threads. A thread is known by the address of its entry, `connection` in
`conn_handler`. -/
structure Sweep where
  heap : ClHeap
  head : Option Nat
  ending : Nat → Option Ending
  pc : SweepPc
  previous : Option Nat
  current : Option Nat
  log : List SweepEvent

/-- A step of the loop, or a store of the thread of an entry. -/
inductive SweepAct
  | main
  | thread (p : Nat)
  deriving DecidableEq, Repr

namespace Sweep

/-- The loop at the start, with the threads at any point. -/
def start (heap : ClHeap) (head : Option Nat) (ending : Nat → Option Ending) : Sweep :=
  ⟨heap, head, ending, .look, none, head, []⟩

/-- The loop looks at an entry and goes on to the next one, or is to join the thread. -/
def look (s : Sweep) (p : Nat) : Option Sweep := do
  let node ← s.heap.lookup p
  let log := s.log ++ [.look p node.data.isActive]
  return if node.data.isActive then { s with previous := some p, current := node.next, log }
    else { s with pc := .join, log }

/-- `pthread_join` returned, and `retval` points to `descriptor`. -/
def join (s : Sweep) (p : Nat) : Option Sweep := do
  let node ← s.heap.lookup p
  return { s with pc := .remove, log := s.log ++ [.join p node.data.descriptor] }

/-- The loop removes an entry and frees it. -/
def remove (s : Sweep) (p : Nat) : Option Sweep := do
  let (heap, head) ← Slist.remove s.heap s.head p
  let heap ← heap.free p
  let current ← match s.previous with
    | some previous => Slist.next heap previous
    | none => some head
  return { s with heap, head, pc := .look, current, log := s.log ++ [.free p] }

/-- A store of the thread of the entry at `p`. -/
def store (s : Sweep) (p : Nat) (ending : Ending) (f : ClEntry → ClEntry) : Option Sweep := do
  let heap ← s.heap.modify p fun node => some { node with data := f node.data }
  return { s with heap, ending := Function.update s.ending p (some ending) }

/-- The result of a step, which has none when it touches a freed entry. -/
def orCrash (s : Sweep) (result : Option Sweep) : Sweep := result.getD { s with pc := .crashed }

/-- A step of the loop or of a thread, when it can make one; `retval` is what the threads leave. -/
def step (retval : Nat → Int) (s : Sweep) : SweepAct → Option Sweep
  | .main =>
    match s.pc, s.current with
    | .look, some p => some (s.orCrash (s.look p))
    -- `pthread_join` waits until the thread has exited
    | .join, some p => if s.ending p = some .exited then some (s.orCrash (s.join p)) else none
    | .remove, some p => some (s.orCrash (s.remove p))
    | _, _ => none
  | .thread p =>
    match s.ending p with
    | some .running =>
      some (s.orCrash (s.store p .cleared fun x => { x with isActive := false }))
    | some .cleared =>
      some (s.orCrash (s.store p .exited fun x => { x with descriptor := retval p }))
    | some .exited | none => none

def Step (retval : Nat → Int) (s : Sweep) (act : SweepAct) (s' : Sweep) : Prop :=
  s.step retval act = some s'

def Finished (s : Sweep) : Prop := s.pc = .look ∧ s.current = none

/-- The entries with the stores that were made so far. -/
def now (retval : Nat → Int) (ending : Nat → Option Ending) (xs : List (Nat × ClEntry)) :
    List (Nat × ClEntry) :=
  xs.map fun x => (x.1, x.2.after (retval x.1) (ending x.1))

/-- What the loop does with an entry, by what it saw of `is_active`. -/
def visit (retval : Nat → Int) (x : (Nat × ClEntry) × Bool) : List SweepEvent :=
  if x.2 then [.look x.1.1 true]
  else [.look x.1.1 false, .join x.1.1 (retval x.1.1), .free x.1.1]

def storesLeft (entries : List (Nat × ClEntry)) (ending : Nat → Option Ending) : Nat :=
  (entries.map fun x => Ending.left (ending x.1)).sum

/-- The entries that were seen active. -/
def kept (looked : List ((Nat × ClEntry) × Bool)) : List (Nat × ClEntry) :=
  (looked.filter Prod.snd).map Prod.fst

/-- A list of entries with their threads: each entry was made with `is_active` set, and a thread
works on an entry of the list. -/
structure WellFormed (retval : Nat → Int) (heap : ClHeap) (head : Option Nat)
    (ending : Nat → Option Ending) (entries : List (Nat × ClEntry)) : Prop where
  list : IsList heap head (now retval ending entries)
  nodup : (entries.map Prod.fst).Nodup
  active : ∀ x ∈ entries, x.2.isActive = true
  threads : ∀ p, ending p ≠ none → p ∈ entries.map Prod.fst

variable {retval : Nat → Int} {ending : Nat → Option Ending} {s s' : Sweep} {act : SweepAct}
  {acts : List SweepAct} {looked : List ((Nat × ClEntry) × Bool)}
  {entries here todo xs ys : List (Nat × ClEntry)} {x : Nat × ClEntry} {p : Nat}

theorem ending_of_inactive {e : Option Ending} {result : Int} (active : x.2.isActive = true)
    (inactive : (x.2.after result e).isActive = false) :
    e = some .cleared ∨ e = some .exited := by
  match e with
  | none | some .running =>
    rw [ClEntry.after, active] at inactive
    contradiction
  | some .cleared => exact .inl rfl
  | some .exited => exact .inr rfl

@[simp] theorem now_append : now retval ending (xs ++ ys) =
    now retval ending xs ++ now retval ending ys := List.map_append

@[simp] theorem now_cons : now retval ending (x :: xs) =
    (x.1, x.2.after (retval x.1) (ending x.1)) :: now retval ending xs := rfl

@[simp] theorem map_fst_now : (now retval ending xs).map Prod.fst = xs.map Prod.fst := by
  simp [now, Function.comp_def]

theorem now_update (out : p ∉ xs.map Prod.fst) (e : Option Ending) :
    now retval (Function.update ending p e) xs = now retval ending xs := by
  apply List.map_congr_left
  intro x hx
  have ne : x.1 ≠ p := by
    rintro rfl
    exact out (List.mem_map_of_mem hx)
  rw [Function.update_of_ne ne]

@[simp] theorem kept_append (looked : List ((Nat × ClEntry) × Bool)) (x : Nat × ClEntry)
    (isActive : Bool) :
    kept (looked ++ [(x, isActive)]) = kept looked ++ if isActive then [x] else [] := by
  cases isActive <;> simp [kept]

theorem kept_sublist (looked : List ((Nat × ClEntry) × Bool)) :
    (kept looked).Sublist (looked.map Prod.fst) :=
  List.filter_sublist.map _

theorem length_visit_le (retval : Nat → Int) (looked : List ((Nat × ClEntry) × Bool)) :
    (looked.flatMap (visit retval)).length ≤ 3 * looked.length := by
  induction looked with
  | nil => simp
  | cons x looked ih =>
    have one : (visit retval x).length ≤ 3 := by
      unfold visit
      split <;> simp
    simp only [List.flatMap_cons, List.length_append, List.length_cons]
    omega

/-- Where the loop is: behind the entries `looked`, with the entry `here` to be joined or removed,
if there is one, and before the entries `todo`. -/
inductive Phase (retval : Nat → Int) (s : Sweep) (looked : List ((Nat × ClEntry) × Bool)) :
    List (Nat × ClEntry) → List (Nat × ClEntry) → Prop
  | look {todo : List (Nat × ClEntry)} (pc : s.pc = .look)
      (current : s.current = todo.head?.map Prod.fst)
      (log : s.log = looked.flatMap (visit retval)) : Phase retval s looked [] todo
  | join {x : Nat × ClEntry} {todo : List (Nat × ClEntry)} (pc : s.pc = .join)
      (current : s.current = some x.1)
      (ending : s.ending x.1 = some .cleared ∨ s.ending x.1 = some .exited)
      (log : s.log = looked.flatMap (visit retval) ++ [.look x.1 false]) :
      Phase retval s looked [x] todo
  | remove {x : Nat × ClEntry} {todo : List (Nat × ClEntry)} (pc : s.pc = .remove)
      (current : s.current = some x.1) (ending : s.ending x.1 = some .exited)
      (log : s.log =
        looked.flatMap (visit retval) ++ [.look x.1 false, .join x.1 (retval x.1)]) :
      Phase retval s looked [x] todo

/-- The invariant: the list holds the entries that were seen active and those not yet removed, and
the thread of an entry that is gone has exited. -/
structure Sweeping (retval : Nat → Int) (entries : List (Nat × ClEntry)) (s : Sweep)
    (looked : List ((Nat × ClEntry) × Bool)) (here todo : List (Nat × ClEntry)) : Prop where
  phase : Phase retval s looked here todo
  split : entries = looked.map Prod.fst ++ (here ++ todo)
  list : IsList s.heap s.head (now retval s.ending (kept looked ++ (here ++ todo)))
  previous : s.previous = (kept looked).getLast?.map Prod.fst
  removed : ∀ y ∈ looked, y.2 = false → s.ending y.1.1 = some .exited
  threads : ∀ p, s.ending p ≠ none → p ∈ entries.map Prod.fst

def Underway (retval : Nat → Int) (entries : List (Nat × ClEntry)) (s : Sweep) : Prop :=
  ∃ looked here todo, Sweeping retval entries s looked here todo

theorem WellFormed.sweeping {heap : ClHeap} {head : Option Nat}
    (well : WellFormed retval heap head ending entries) :
    Sweeping retval entries (start heap head ending) [] [] entries where
  phase := by
    refine .look rfl (well.list.first_eq.trans ?_) rfl
    simp [now, Function.comp_def]
  split := rfl
  list := well.list
  previous := rfl
  removed := by simp
  threads := well.threads

theorem store_eq {e : Ending} {f : ClEntry → ClEntry}
    (list : IsList s.heap s.head (now retval s.ending xs)) (nodup : (xs.map Prod.fst).Nodup)
    (hx : x ∈ xs)
    (data : f (x.2.after (retval x.1) (s.ending x.1)) = x.2.after (retval x.1) (some e)) :
    ∃ heap, s.store x.1 e f =
        some { s with heap, ending := Function.update s.ending x.1 (some e) } ∧
      IsList heap s.head (now retval (Function.update s.ending x.1 (some e)) xs) := by
  obtain ⟨before, behind, rfl⟩ := List.append_of_mem hx
  obtain ⟨outBefore, outBehind, -⟩ := nodup_split nodup
  rw [now_append, now_cons] at list
  obtain ⟨next, live⟩ := list.live (List.mem_append_right _ List.mem_cons_self)
  refine ⟨s.heap.insert x.1 ⟨x.2.after (retval x.1) (some e), next⟩, ?_, ?_⟩
  · simp [store, Heap.modify, live, data]
  · rw [now_append, now_cons, now_update outBefore, now_update outBehind, Function.update_self]
    exact list.setData (by simpa using nodup) live _

theorem live_of_list (list : IsList s.heap s.head (now retval s.ending (xs ++ x :: ys))) :
    s.heap.lookup x.1 =
      some ⟨x.2.after (retval x.1) (s.ending x.1), ys.head?.map Prod.fst⟩ := by
  rw [now_append, now_cons] at list
  obtain ⟨mid, -, -, next, live, rest⟩ := IsSeg.append_iff.mp list
  rw [live, IsList.first_eq rest]
  simp [now, Function.comp_def]

theorem look_of_active {node : Node Nat ClEntry} (live : s.heap.lookup p = some node)
    (active : node.data.isActive = true) :
    s.look p =
      some { s with
        previous := some p
        current := node.next
        log := s.log ++ [.look p true] } := by
  simp [look, live, active]

theorem look_of_inactive {node : Node Nat ClEntry} (live : s.heap.lookup p = some node)
    (inactive : node.data.isActive = false) :
    s.look p = some { s with pc := .join, log := s.log ++ [.look p false] } := by
  simp [look, live, inactive]

theorem join_of_live {node : Node Nat ClEntry} (live : s.heap.lookup p = some node) :
    s.join p = some { s with pc := .remove, log := s.log ++ [.join p node.data.descriptor] } := by
  simp [join, live]

/-- An entry of the list is removed, and the loop goes on to the one that followed it. -/
theorem remove_of_list (list : IsList s.heap s.head (now retval s.ending (xs ++ x :: ys)))
    (nodup : ((xs ++ x :: ys).map Prod.fst).Nodup)
    (previous : s.previous = xs.getLast?.map Prod.fst) :
    ∃ heap head, s.remove x.1 =
        some { s with
          heap, head
          pc := .look
          current := ys.head?.map Prod.fst
          log := s.log ++ [.free x.1] } ∧
      IsList heap head (now retval s.ending (xs ++ ys)) := by
  rw [now_append, now_cons] at list
  obtain ⟨h, head, removed, free, list', -⟩ := remove_free_eq list (by simpa using nodup)
  refine ⟨h.erase x.1, head, ?_, by rwa [now_append]⟩
  have next := next_of_previous list'
  have last : (now retval s.ending xs).getLast?.map Prod.fst = s.previous := by
    rw [previous]
    simp [now, List.getLast?_map, Function.comp_def]
  have first : (now retval s.ending ys).head?.map Prod.fst = ys.head?.map Prod.fst := by
    simp [now, Function.comp_def]
  rw [last, first] at next
  cases front : s.previous with
  | none =>
    rw [front] at next
    simp [remove, removed, free, front, Option.some.inj next]
  | some q =>
    rw [front] at next
    simp [remove, removed, free, front, next]

theorem storesLeft_update (ending : Nat → Option Ending) (nodup : (xs.map Prod.fst).Nodup)
    (hx : x ∈ xs) (e : Option Ending) :
    storesLeft xs (Function.update ending x.1 e) + Ending.left (ending x.1) =
      storesLeft xs ending + Ending.left e := by
  obtain ⟨before, behind, rfl⟩ := List.append_of_mem hx
  obtain ⟨outBefore, outBehind, -⟩ := nodup_split nodup
  have others : ∀ ys : List (Nat × ClEntry), x.1 ∉ ys.map Prod.fst →
      storesLeft ys (Function.update ending x.1 e) = storesLeft ys ending := by
    intro ys out
    refine congrArg List.sum (List.map_congr_left ?_)
    intro y hy
    have ne : y.1 ≠ x.1 := by
      intro eq
      exact out (eq ▸ List.mem_map_of_mem hy)
    rw [Function.update_of_ne ne]
  have before_eq := others before outBefore
  have behind_eq := others behind outBehind
  simp only [storesLeft, List.map_append, List.map_cons, List.sum_append, List.sum_cons,
    Function.update_self] at before_eq behind_eq ⊢
  omega

namespace Sweeping

theorem sublist (sweeping : Sweeping retval entries s looked here todo) :
    (kept looked ++ (here ++ todo)).Sublist entries := by
  rw [sweeping.split]
  exact (kept_sublist looked).append_right _

theorem nodup_list (sweeping : Sweeping retval entries s looked here todo)
    (nodup : (entries.map Prod.fst).Nodup) :
    ((kept looked ++ (here ++ todo)).map Prod.fst).Nodup :=
  nodup.sublist (sweeping.sublist.map _)

theorem mem_list (sweeping : Sweeping retval entries s looked here todo) (hx : x ∈ entries)
    (busy : s.ending x.1 ≠ some .exited) : x ∈ kept looked ++ (here ++ todo) := by
  rw [sweeping.split, List.mem_append] at hx
  rcases hx with hx | hx
  · obtain ⟨⟨y, isActive⟩, hy, rfl⟩ := List.mem_map.mp hx
    cases isActive with
    | true => exact List.mem_append_left _ (List.mem_map_of_mem (List.mem_filter.mpr ⟨hy, rfl⟩))
    | false => exact absurd (sweeping.removed _ hy rfl) busy
  · exact List.mem_append_right _ hx

/-- A thread never stores to a freed entry, and the list stays as it is but for the store. -/
theorem store {e : Ending} {f : ClEntry → ClEntry}
    (sweeping : Sweeping retval entries s looked here todo) (nodup : (entries.map Prod.fst).Nodup)
    (hx : x ∈ entries) (busy : s.ending x.1 ≠ some .exited) (ends : e ≠ .running)
    (data : f (x.2.after (retval x.1) (s.ending x.1)) = x.2.after (retval x.1) (some e)) :
    ∃ heap, s.store x.1 e f =
        some { s with heap, ending := Function.update s.ending x.1 (some e) } ∧
      Sweeping retval entries { s with heap, ending := Function.update s.ending x.1 (some e) }
        looked here todo := by
  obtain ⟨heap, stored, list⟩ := store_eq sweeping.list (sweeping.nodup_list nodup)
    (sweeping.mem_list hx busy) data
  have exited : ∀ p, s.ending p = some .exited →
      Function.update s.ending x.1 (some e) p = some .exited := by
    intro p ended
    have ne : p ≠ x.1 := by
      rintro rfl
      exact busy ended
    rw [Function.update_of_ne ne, ended]
  have ended : ∀ p, s.ending p = some .cleared ∨ s.ending p = some .exited →
      Function.update s.ending x.1 (some e) p = some .cleared ∨
        Function.update s.ending x.1 (some e) p = some .exited := by
    intro p ended
    by_cases same : p = x.1
    · rw [same, Function.update_self]
      cases e with
      | running => exact absurd rfl ends
      | cleared => exact .inl rfl
      | exited => exact .inr rfl
    · rwa [Function.update_of_ne same]
  have threads : ∀ p, Function.update s.ending x.1 (some e) p ≠ none →
      p ∈ entries.map Prod.fst := by
    intro p made
    by_cases same : p = x.1
    · rw [same]
      exact List.mem_map_of_mem hx
    · rw [Function.update_of_ne same] at made
      exact sweeping.threads p made
  refine ⟨heap, stored, ?_, sweeping.split, list, sweeping.previous,
    fun y hy gone => exited _ (sweeping.removed y hy gone), threads⟩
  cases sweeping.phase with
  | look pc current log => exact .look pc current log
  | join pc current ending log => exact .join pc current (ended _ ending) log
  | remove pc current ending log => exact .remove pc current (exited _ ending) log

theorem thread (sweeping : Sweeping retval entries s looked here todo)
    (nodup : (entries.map Prod.fst).Nodup) (step : Step retval s (.thread p) s') :
    Sweeping retval entries s' looked here todo ∧ s'.log = s.log ∧
      storesLeft entries s'.ending < storesLeft entries s.ending := by
  have busy : s.ending p ≠ none := by
    intro none
    simp [Step, Sweep.step, none] at step
  obtain ⟨x, hx, rfl⟩ := List.mem_map.mp (sweeping.threads p busy)
  unfold Step Sweep.step at step
  cases ending : s.ending x.1 with
  | none => exact absurd ending busy
  | some e =>
    cases e with
    | running =>
      obtain ⟨heap, stored, sweeping'⟩ := sweeping.store nodup hx (e := .cleared)
        (f := fun x => { x with isActive := false }) (by simp [ending]) (by simp)
        (by rw [ending]; rfl)
      have less := storesLeft_update s.ending nodup hx (some .cleared)
      simp only [ending, stored, orCrash, Option.getD_some, Option.some.injEq] at step
      subst step
      refine ⟨sweeping', rfl, ?_⟩
      simp only [ending, Ending.left] at less ⊢
      omega
    | cleared =>
      obtain ⟨heap, stored, sweeping'⟩ := sweeping.store nodup hx (e := .exited)
        (f := fun y => { y with descriptor := retval x.1 }) (by simp [ending]) (by simp)
        (by rw [ending]; rfl)
      have less := storesLeft_update s.ending nodup hx (some .exited)
      simp only [ending, stored, orCrash, Option.getD_some, Option.some.injEq] at step
      subst step
      refine ⟨sweeping', rfl, ?_⟩
      simp only [ending, Ending.left] at less ⊢
      omega
    | exited => simp [ending] at step

theorem look (sweeping : Sweeping retval entries s looked [] (x :: todo))
    (active : x.2.isActive = true) (pc : s.pc = .look) (current : s.current = some x.1)
    (log : s.log = looked.flatMap (visit retval)) :
    ∃ s' isActive looked' here todo', s.look x.1 = some s' ∧ s'.ending = s.ending ∧
      s'.log = s.log ++ [.look x.1 isActive] ∧
      Sweeping retval entries s' looked' here todo' := by
  have live := live_of_list sweeping.list
  cases seen : (x.2.after (retval x.1) (s.ending x.1)).isActive with
  | true =>
    refine ⟨_, true, looked ++ [(x, true)], [], todo, look_of_active live seen, rfl, rfl, ?_⟩
    exact {
      phase := .look pc rfl (by simp [log, visit])
      split := by simp [sweeping.split]
      list := by simpa using sweeping.list
      previous := by simp
      removed := by
        intro y hy gone
        rcases List.mem_append.mp hy with hy | hy
        · exact sweeping.removed y hy gone
        · simp [List.mem_singleton.mp hy] at gone
      threads := sweeping.threads }
  | false =>
    refine ⟨_, false, looked, [x], todo, look_of_inactive live seen, rfl, rfl, ?_⟩
    exact {
      phase := .join rfl current (ending_of_inactive active seen) (by rw [log])
      split := sweeping.split
      list := sweeping.list
      previous := sweeping.previous
      removed := sweeping.removed
      threads := sweeping.threads }

/-- The loop joins the thread of an entry that it saw inactive, and takes the result that the thread
stored last. -/
theorem join (sweeping : Sweeping retval entries s looked [x] todo) (current : s.current = some x.1)
    (ending : s.ending x.1 = some .exited)
    (log : s.log = looked.flatMap (visit retval) ++ [.look x.1 false]) :
    ∃ s', s.join x.1 = some s' ∧ s'.ending = s.ending ∧
      s'.log = s.log ++ [.join x.1 (retval x.1)] ∧
      Sweeping retval entries s' looked [x] todo := by
  have live := live_of_list sweeping.list
  rw [ending] at live
  refine ⟨_, join_of_live live, rfl, rfl, ?_⟩
  exact {
    phase := .remove rfl current ending (by simp [log, ClEntry.after])
    split := sweeping.split
    list := sweeping.list
    previous := sweeping.previous
    removed := sweeping.removed
    threads := sweeping.threads }

/-- The loop removes the entry of a thread that it joined. -/
theorem remove (sweeping : Sweeping retval entries s looked [x] todo)
    (nodup : (entries.map Prod.fst).Nodup) (ending : s.ending x.1 = some .exited)
    (log : s.log =
      looked.flatMap (visit retval) ++ [.look x.1 false, .join x.1 (retval x.1)]) :
    ∃ s', s.remove x.1 = some s' ∧ s'.ending = s.ending ∧ s'.log = s.log ++ [.free x.1] ∧
      Sweeping retval entries s' (looked ++ [(x, false)]) [] todo := by
  obtain ⟨heap, head, removed, list⟩ :=
    remove_of_list sweeping.list (sweeping.nodup_list nodup) sweeping.previous
  refine ⟨_, removed, rfl, rfl, ?_⟩
  exact {
    phase := .look rfl rfl (by simp [log, visit])
    split := by simp [sweeping.split]
    list := by simpa using list
    previous := by simpa using sweeping.previous
    removed := by
      intro y hy gone
      rcases List.mem_append.mp hy with hy | hy
      · exact sweeping.removed y hy gone
      · rw [List.mem_singleton.mp hy]
        exact ending
    threads := sweeping.threads }

theorem main (sweeping : Sweeping retval entries s looked here todo)
    (nodup : (entries.map Prod.fst).Nodup) (active : ∀ x ∈ entries, x.2.isActive = true)
    (step : Step retval s .main s') :
    Underway retval entries s' ∧ s'.ending = s.ending ∧
      ∃ event, s'.log = s.log ++ [event] := by
  unfold Step Sweep.step at step
  cases sweeping.phase with
  | look pc current log =>
    cases todo with
    | nil => simp [pc, current] at step
    | cons x todo =>
      have made := active x (by simp [sweeping.split])
      obtain ⟨next, isActive, looked', here', todo', looks, ending, log', sweeping'⟩ :=
        sweeping.look made pc current log
      simp only [pc, current, List.head?_cons, Option.map_some, looks, orCrash, Option.getD_some,
        Option.some.injEq] at step
      subst step
      exact ⟨⟨_, _, _, sweeping'⟩, ending, _, log'⟩
  | join pc current ended log =>
    simp only [pc, current] at step
    split at step
    · rename_i exited
      obtain ⟨next, joins, ending, log', sweeping'⟩ := sweeping.join current exited log
      simp only [joins, orCrash, Option.getD_some, Option.some.injEq] at step
      subst step
      exact ⟨⟨_, _, _, sweeping'⟩, ending, _, log'⟩
    · contradiction
  | remove pc current exited log =>
    obtain ⟨next, removes, ending, log', sweeping'⟩ := sweeping.remove nodup exited log
    simp only [pc, current, removes, orCrash, Option.getD_some, Option.some.injEq] at step
    subst step
    exact ⟨⟨_, _, _, sweeping'⟩, ending, _, log'⟩

/-- The loop makes at most three steps for each entry. -/
theorem length_log_le (sweeping : Sweeping retval entries s looked here todo) :
    s.log.length ≤ 3 * entries.length := by
  have bound := length_visit_le retval looked
  have split := congrArg List.length sweeping.split
  simp only [List.length_append, List.length_map] at split
  cases sweeping.phase with
  | look pc current log =>
    rw [log]
    omega
  | join pc current ending log =>
    simp only [log, List.length_append, List.length_cons, List.length_nil] at split ⊢
    omega
  | remove pc current ending log =>
    simp only [log, List.length_append, List.length_cons, List.length_nil] at split ⊢
    omega

theorem step (sweeping : Sweeping retval entries s looked here todo)
    (nodup : (entries.map Prod.fst).Nodup) (active : ∀ x ∈ entries, x.2.isActive = true)
    (step : Step retval s act s') :
    Underway retval entries s' ∧
      3 * entries.length - s'.log.length + storesLeft entries s'.ending <
        3 * entries.length - s.log.length + storesLeft entries s.ending := by
  cases act with
  | main =>
    obtain ⟨⟨looked', here', todo', sweeping'⟩, ending, event, log⟩ :=
      sweeping.main nodup active step
    have bound := sweeping'.length_log_le
    rw [log, List.length_append, List.length_singleton] at bound
    refine ⟨⟨_, _, _, sweeping'⟩, ?_⟩
    rw [ending, log, List.length_append, List.length_singleton]
    omega
  | thread p =>
    obtain ⟨sweeping', log, less⟩ := sweeping.thread nodup step
    refine ⟨⟨_, _, _, sweeping'⟩, ?_⟩
    rw [log]
    omega

/-- The loop only waits for a thread that is about to make its last store. -/
theorem progress (sweeping : Sweeping retval entries s looked here todo) (running : ¬ s.Finished) :
    ∃ act s', Step retval s act s' := by
  cases sweeping.phase with
  | look pc current log =>
    cases todo with
    | nil => exact absurd ⟨pc, current⟩ running
    | cons x todo => exact ⟨.main, s.orCrash (s.look x.1), by simp [Step, Sweep.step, pc, current]⟩
  | @join x _ pc current ending log =>
    rcases ending with cleared | exited
    · exact ⟨.thread x.1,
        s.orCrash (s.store x.1 .exited fun y => { y with descriptor := retval x.1 }),
        by simp [Step, Sweep.step, cleared]⟩
    · exact ⟨.main, s.orCrash (s.join x.1), by simp [Step, Sweep.step, pc, current, exited]⟩
  | @remove x _ pc current ending log =>
    exact ⟨.main, s.orCrash (s.remove x.1), by simp [Step, Sweep.step, pc, current]⟩

theorem not_crashed (sweeping : Sweeping retval entries s looked here todo) : s.pc ≠ .crashed := by
  cases sweeping.phase with
  | look pc | join pc | remove pc => simp [pc]

theorem finished (sweeping : Sweeping retval entries s looked here todo) (finished : s.Finished) :
    looked.map Prod.fst = entries ∧ s.log = looked.flatMap (visit retval) ∧
      IsList s.heap s.head (now retval s.ending (kept looked)) := by
  obtain ⟨pc, current⟩ := finished
  cases sweeping.phase with
  | look _ current' log =>
    cases todo with
    | nil => exact ⟨by simp [sweeping.split], log, by simpa using sweeping.list⟩
    | cons x todo => simp [current] at current'
  | join pc' => simp [pc] at pc'
  | remove pc' => simp [pc] at pc'

end Sweeping

theorem storesLeft_le (entries : List (Nat × ClEntry)) (ending : Nat → Option Ending) :
    storesLeft entries ending ≤ 2 * entries.length := by
  induction entries with
  | nil => simp [storesLeft]
  | cons x entries ih =>
    have one : Ending.left (ending x.1) ≤ 2 := by
      unfold Ending.left
      split <;> omega
    simp only [storesLeft, List.map_cons, List.sum_cons, List.length_cons] at ih ⊢
    omega

theorem WellFormed.run {heap : ClHeap} {head : Option Nat}
    (well : WellFormed retval heap head ending entries)
    (run : Run (Step retval) (start heap head ending) acts s) :
    acts.length ≤ 5 * entries.length ∧ Underway retval entries s := by
  have atStart : Underway retval entries (start heap head ending) := ⟨_, _, _, well.sweeping⟩
  have keeps : ∀ s act s', Underway retval entries s → Step retval s act s' →
      Underway retval entries s' := by
    rintro s act s' ⟨looked, here, todo, sweeping⟩ step
    exact (sweeping.step well.nodup well.active step).1
  have less : ∀ s act s', Underway retval entries s → Step retval s act s' →
      3 * entries.length - s'.log.length + storesLeft entries s'.ending <
        3 * entries.length - s.log.length + storesLeft entries s.ending := by
    rintro s act s' ⟨looked, here, todo, sweeping⟩ step
    exact (sweeping.step well.nodup well.active step).2
  have bound := Run.length_le keeps less run atStart
  have stores : storesLeft entries (start heap head ending).ending ≤ 2 * entries.length :=
    storesLeft_le entries ending
  exact ⟨by omega, run.invariant keeps atStart⟩

/-- Whenever the threads make their stores, the sweep touches no freed entry and comes to an end, in
which it has looked at every entry once, in the order of the list: an entry that it saw active is
kept, and the thread of any other one is joined, once and before the entry is freed, with the result
that the thread stored last. The entries that are kept are still in order. -/
theorem sweep_filters {heap : ClHeap} {head : Option Nat}
    (well : WellFormed retval heap head ending entries)
    (run : Run (Step retval) (start heap head ending) acts s) :
    s.pc ≠ .crashed ∧ acts.length ≤ 5 * entries.length ∧
      (s.Finished ∨ ∃ act s', Step retval s act s') ∧
      (s.Finished → ∃ looked, looked.map Prod.fst = entries ∧
        s.log = looked.flatMap (visit retval) ∧
        IsList s.heap s.head (now retval s.ending (kept looked))) := by
  obtain ⟨short, looked, here, todo, sweeping⟩ := well.run run
  refine ⟨sweeping.not_crashed, short, ?_, fun finished => ⟨looked, sweeping.finished finished⟩⟩
  by_cases finished : s.Finished
  · exact .inl finished
  · exact .inr (sweeping.progress finished)

/-- Three connections: the thread of the first is found between its two stores, that of the second
keeps running, and that of the third ends before the loop gets to it. -/
theorem sweep_filters_three :
    ∃ heap ending s,
      WellFormed (fun _ => -1) heap (some 1) ending
        [(1, ⟨4, true, some 0⟩), (2, ⟨5, true, some 1⟩), (3, ⟨6, true, some 2⟩)] ∧
      Run (Step fun _ => -1) (start heap (some 1) ending)
        [.main, .thread 1, .main, .main, .main, .thread 3, .thread 3, .main, .main, .main] s ∧
      ∃ looked : List ((Nat × ClEntry) × Bool),
        looked.map Prod.fst =
          [(1, ⟨4, true, some 0⟩), (2, ⟨5, true, some 1⟩), (3, ⟨6, true, some 2⟩)] ∧
        s.log = looked.flatMap (visit fun _ => -1) ∧
        s.log = [.look 1 false, .join 1 (-1), .free 1, .look 2 true, .look 3 false, .join 3 (-1),
          .free 3] := by
  let heap : ClHeap := (((∅ : ClHeap).insert 3 ⟨⟨6, true, some 2⟩, none⟩).insert 2
    ⟨⟨5, true, some 1⟩, some 3⟩).insert 1 ⟨⟨4, false, some 0⟩, some 2⟩
  let ending : Nat → Option Ending := fun p =>
    if p = 1 then some .cleared else if p = 2 ∨ p = 3 then some .running else none
  have well : WellFormed (fun _ => -1) heap (some 1) ending
      [(1, ⟨4, true, some 0⟩), (2, ⟨5, true, some 1⟩), (3, ⟨6, true, some 2⟩)] := {
    list := ⟨rfl, some 2, rfl, rfl, some 3, rfl, rfl, none, rfl, rfl⟩
    nodup := by decide
    active := by simp
    threads := by
      intro p made
      by_contra out
      simp only [List.map_cons, List.map_nil, List.mem_cons, List.not_mem_nil, or_false,
        not_or] at out
      simp [ending, out] at made }
  have executed : (execute (Sweep.step fun _ => -1) (fun _ => true) (start heap (some 1) ending)
      [.main, .thread 1, .main, .main, .main, .thread 3, .thread 3, .main, .main, .main]).map
        (fun s => (s.pc, s.current, s.log)) = some (.look, none, [.look 1 false, .join 1 (-1),
          .free 1, .look 2 true, .look 3 false, .join 3 (-1), .free 3]) := by decide +kernel
  obtain ⟨s, executed, seen⟩ := Option.map_eq_some_iff.mp executed
  simp only [Prod.mk.injEq] at seen
  have run : Run (Step fun _ => -1) (start heap (some 1) ending) _ s :=
    Run.of_execute (fun _ _ _ _ step => step) executed
  obtain ⟨looked, all, log, -⟩ := (sweep_filters well run).2.2.2 ⟨seen.1, seen.2.1⟩
  exact ⟨heap, ending, s, well, run, looked, all, log, seen.2.2⟩

/-! The sweep of `MainLoop`, which finds each thread either running or exited. -/

/-- The joins of the loop: the addresses of the entries, and the results. -/
def joins (log : List SweepEvent) : List (Nat × Int) :=
  log.filterMap fun
    | .join p retval => some (p, retval)
    | .look _ _ | .free _ => none

theorem look_mem_iff (p : Nat) :
    SweepEvent.look p false ∈ looked.flatMap (visit retval) ↔
      ∃ y ∈ looked, y.1.1 = p ∧ y.2 = false := by
  rw [List.mem_flatMap]
  refine exists_congr fun y => and_congr_right fun _ => ?_
  cases seen : y.2 <;> simp [visit, seen, eq_comm]

theorem joins_visits (retval : Nat → Int) (looked : List ((Nat × ClEntry) × Bool)) :
    joins (looked.flatMap (visit retval)) =
      (looked.filter fun y => !y.2).map fun y => (y.1.1, retval y.1.1) := by
  induction looked with
  | nil => rfl
  | cons y looked ih =>
    rw [List.flatMap_cons, joins, List.filterMap_append]
    cases seen : y.2 with
    | true => simpa [joins, visit, seen] using ih
    | false => simpa [joins, visit, seen] using ih

/-- What the loop does next to the threads is what the sweep of `MainLoop` does when it finds exited
the threads whose entries were seen inactive: both keep and join the same. -/
theorem refines_sweep {heap : ClHeap} {head : Option Nat} {m : MainLoop} {it : Iteration}
    (well : WellFormed retval heap head ending entries)
    (run : Run (Step retval) (start heap head ending) acts s) (finished : s.Finished)
    (list : IsList m.heap m.head entries) (threads : ∀ x ∈ entries, x.2.thread.isSome)
    (same : ∀ p, it.ended p = true ↔ .look p false ∈ s.log) :
    ∃ m', ∃ stay gone : List (Nat × ClEntry),
      MainLoop.sweep it m.heap.keys.length m none m.head = some m' ∧
      IsList m'.heap m'.head stay ∧ IsList s.heap s.head (now retval s.ending stay) ∧
      m'.joined = m.joined ++ gone.map (·.2.thread) ∧
      joins s.log = gone.map fun x => (x.1, retval x.1) := by
  obtain ⟨-, looked, here, todo, sweeping⟩ := well.run run
  obtain ⟨rfl, log, left⟩ := sweeping.finished finished
  have nodup := well.nodup
  have gone_iff : ∀ y ∈ looked, it.gone y.1 = !y.2 := by
    intro y hy
    have thread := threads y.1 (List.mem_map_of_mem hy)
    rw [Iteration.gone, thread, Bool.and_true, Bool.eq_iff_iff, same, log, look_mem_iff]
    constructor
    · rintro ⟨z, hz, eq, seen⟩
      rw [List.map_map] at nodup
      rw [← List.inj_on_of_nodup_map nodup hz hy eq, seen]
      rfl
    · intro seen
      exact ⟨y, hy, rfl, by simpa using seen⟩
  have stays : (looked.map Prod.fst).filter (fun x => !it.gone x) = kept looked := by
    rw [kept, List.filter_map]
    refine congrArg _ (List.filter_congr ?_)
    intro y hy
    simp [gone_iff y hy]
  have goes : (looked.map Prod.fst).filter it.gone =
      (looked.filter fun y => !y.2).map Prod.fst := by
    rw [List.filter_map]
    exact congrArg _ (List.filter_congr gone_iff)
  have list' : IsList m.heap m.head ([] ++ looked.map Prod.fst) := list
  obtain ⟨m', swept, list'', joined, -⟩ :
      ∃ m', MainLoop.sweep it _ m none _ = some m' ∧ _ :=
    sweep_eq list' nodup well.active (list.length_le nodup)
  rw [stays] at list''
  rw [goes] at joined
  refine ⟨m', kept looked, (looked.filter fun y => !y.2).map Prod.fst, ?_, list'', left, joined, ?_⟩
  · rw [← swept, list.first_eq]
  · rw [log, joins_visits, List.map_map]
    rfl

end Sweep

end Aesd.Server
