import Aesd.Server.ConnectionList
import Aesd.Server.Releases

/-! Connections whose thread could not be created. `pthread_create` reports a failure by a positive
number, which the loop of `main` takes for success: it puts the connection in the list, joins a
thread that does not exist, and nobody closes the connection. -/

namespace Aesd.Server

open ProofKit Slist

/-- Every live entry has a thread of the kind `P`. -/
abbrev Threads (P : Option Nat → Prop) (h : ClHeap) : Prop := Every (fun entry => P entry.thread) h

namespace Threads

variable {P : Option Nat → Prop} {h h' : ClHeap} {head head' tail : Option Nat} {p : Nat}

theorem link (threads : Threads P h)
    (linked : MainLoop.link h head tail p = some (h', head')) : Threads P h' := by
  cases tail with
  | none => exact threads.insertHead linked
  | some tail =>
    obtain ⟨h1, inserted, eq⟩ := Option.map_eq_some_iff.mp linked
    cases eq
    exact threads.insertAfter inserted

theorem threadEnds (threads : Threads P h) (p : Nat) (retval : Int) :
    Threads P (threadEnds h p retval) := by
  unfold Server.threadEnds
  cases live : h.lookup p with
  | none => exact threads
  | some node =>
    simp only
    split
    · exact threads.insert (threads p node live)
    · exact threads

end Threads

namespace MainLoop

variable {P : Option Nat → Prop} {s s' : MainLoop} {it : Iteration} {n : Nat}
  {previous current : Option Nat} {retval : Nat → Int}

/-- Every live entry, and every thread that was joined, is of the kind `P`. -/
def Names (P : Option Nat → Prop) (s : MainLoop) : Prop :=
  Threads P s.heap ∧ ∀ thread ∈ s.joined, P thread

theorem Names.mono {Q : Option Nat → Prop} (names : Names P s) (weaker : ∀ t, P t → Q t) :
    Names Q s :=
  ⟨fun p node live => weaker _ (names.1 p node live), fun t mem => weaker t (names.2 t mem)⟩

theorem Names.join (names : Names P s) {thread : Option Nat} (new : P thread) :
    ∀ t ∈ s.joined ++ [thread], P t := by
  rw [List.forall_mem_append, List.forall_mem_singleton]
  exact ⟨names.2, new⟩

theorem Names.accept (names : Names P s) (accepted : s.accept it = some s')
    (new : 0 < it.connFd → P (if it.error = 0 then some s.accepted else none)) :
    Names P s' ∧ s'.accepted = s.accepted + (if 0 < it.connFd then 1 else 0) := by
  unfold MainLoop.accept at accepted
  split at accepted
  · rename_i some_
    simp only [Option.bind_eq_bind, Option.bind_eq_some_iff] at accepted
    obtain ⟨h1, alloc, ⟨h2, head⟩, linked, eq⟩ := accepted
    cases eq
    exact ⟨⟨Threads.link (names.1.alloc alloc (new some_)) linked, names.2⟩, by simp [some_]⟩
  · rename_i none
    cases accepted
    exact ⟨names, by simp [none]⟩

theorem Names.sweep (names : Names P s) (swept : sweep it n s previous current = some s') :
    Names P s' ∧ s'.accepted = s.accepted := by
  induction n generalizing s previous current with
  | zero =>
    cases current with
    | none => cases swept; exact ⟨names, rfl⟩
    | some p => contradiction
  | succ n ih =>
    cases current with
    | none => cases swept; exact ⟨names, rfl⟩
    | some p =>
      simp only [MainLoop.sweep, Option.bind_eq_bind, Option.bind_eq_some_iff] at swept
      obtain ⟨node, live, swept⟩ := swept
      have heap : Threads P
          (if it.ended p then threadEnds s.heap p (it.retval p) else s.heap) := by
        split
        · exact names.1.threadEnds p _
        · exact names.1
      split at swept
      · obtain ⟨next, -, swept⟩ := Option.bind_eq_some_iff.mp swept
        have done := ih (by exact ⟨heap, names.2⟩) swept
        exact done
      · simp only [Option.bind_eq_some_iff] at swept
        obtain ⟨⟨h1, head⟩, removed, h2, freed, swept⟩ := swept
        have rest := (heap.remove removed).free freed
        have joined := names.join (heap p node live)
        cases previous with
        | none =>
          have done := ih ⟨rest, joined⟩ swept
          exact done
        | some previous =>
          obtain ⟨next, -, swept⟩ := Option.bind_eq_some_iff.mp swept
          have done := ih ⟨rest, joined⟩ swept
          exact done

theorem Names.iterate (names : Names P s) (step : s.iterate it = some s')
    (new : 0 < it.connFd → P (if it.error = 0 then some s.accepted else none)) :
    Names P s' ∧ s'.accepted = s.accepted + (if 0 < it.connFd then 1 else 0) := by
  unfold MainLoop.iterate at step
  split at step
  · rename_i failed
    cases step
    exact ⟨names, by simp [Int.not_lt.mpr (Int.le_of_lt failed.1)]⟩
  · obtain ⟨m, accepted, swept⟩ := Option.bind_eq_some_iff.mp step
    obtain ⟨names, count⟩ := names.accept accepted new
    obtain ⟨names, same⟩ := names.sweep swept
    exact ⟨names, same.trans count⟩

theorem Names.drainFrom (names : Names P s) (drained : s.drain retval = some s') : Names P s' := by
  unfold MainLoop.drain at drained
  generalize s.heap.keys.length = n at drained
  induction n generalizing s with
  | zero =>
    unfold drainFrom at drained
    split at drained
    · cases drained; exact names
    · contradiction
    · contradiction
  | succ n ih =>
    unfold drainFrom at drained
    split at drained
    · cases drained; exact names
    · contradiction
    · rename_i p n' _ eq
      cases eq
      simp only [Option.bind_eq_bind, Option.bind_eq_some_iff] at drained
      obtain ⟨node, live, head, -, h, freed, drained⟩ := drained
      have heap := names.1.threadEnds p (retval p)
      exact ih ⟨heap.free freed, names.join (heap p node live)⟩ drained

/-- The list from the head on. `tail` need not point to its last entry, but then it points to none
of its entries. -/
structure Linked (s : MainLoop) (entries : List (Nat × ClEntry)) : Prop where
  list : IsList s.heap s.head entries
  nodup : (entries.map Prod.fst).Nodup
  active : ∀ x ∈ entries, x.2.isActive = true
  tail : TailOk s entries ∨ ∃ p, s.tail = some p ∧ p ∉ entries.map Prod.fst

theorem linked_start : Linked .start [] := ⟨rfl, List.nodup_nil, by simp, .inl rfl⟩

variable {entries : List (Nat × ClEntry)}

theorem Linked.accept (linked : Linked s entries) (accepted : s.accept it = some s') :
    ∃ entries', Linked s' entries' := by
  unfold MainLoop.accept at accepted
  split at accepted
  swap
  · cases accepted
    exact ⟨entries, linked⟩
  simp only [Option.bind_eq_bind, Option.bind_eq_some_iff] at accepted
  obtain ⟨h1, alloc, ⟨h2, head⟩, link, eq⟩ := accepted
  cases eq
  have free := Heap.not_mem_of_alloc alloc
  have out := linked.list.fresh free
  rw [Heap.alloc, if_neg free] at alloc
  cases alloc
  rcases linked.tail with last | ⟨p, tail, outside⟩
  · obtain ⟨h', head', done, list⟩ := link_eq linked.list linked.nodup last free _
    rw [link] at done
    cases done
    refine ⟨_, list, ?_, ?_, .inl (by simp [TailOk])⟩
    · rw [List.map_append, List.nodup_append']
      exact ⟨linked.nodup, by simp, by simpa using out⟩
    · rw [List.forall_mem_append, List.forall_mem_singleton]
      exact ⟨linked.active, rfl⟩
  · rw [tail, MainLoop.link, Option.map_eq_some_iff] at link
    obtain ⟨h', inserted, eq⟩ := link
    cases eq
    have list := insertAfter_outside (linked.list.insert out _) inserted outside out
    exact ⟨entries, list, linked.nodup, linked.active, .inr ⟨it.addr, rfl, out⟩⟩

theorem Linked.sweep (linked : Linked s entries)
    (swept : MainLoop.sweep it s.heap.keys.length s none s.head = some s') :
    ∃ entries', Linked s' entries' := by
  have list : IsList s.heap s.head ([] ++ entries) := linked.list
  obtain ⟨t, done, list', -, tail, -, -⟩ :=
    sweep_eq list linked.nodup linked.active (linked.list.length_le linked.nodup)
  rw [← linked.list.first_eq] at done
  obtain rfl : s' = t := Option.some.inj (swept.symm.trans done)
  have sub : (entries.filter fun x => !it.gone x).Sublist entries := List.filter_sublist
  refine ⟨_, list', linked.nodup.sublist (sub.map _), fun x hx => linked.active x (sub.mem hx), ?_⟩
  unfold TailOk
  rw [tail]
  rcases linked.tail with last | ⟨p, here, outside⟩
  · rw [TailOk] at last
    cases entries using List.reverseRecOn with
    | nil => exact .inl last
    | append_singleton front x =>
      cases gone : it.gone x with
      | false =>
        left
        rw [last]
        simp [gone]
      | true =>
        right
        have nodup := linked.nodup
        rw [List.map_append, List.nodup_append'] at nodup
        refine ⟨x.1, by simpa using last, ?_⟩
        intro mem
        obtain ⟨y, hy, same⟩ := List.mem_map.mp mem
        have early : y ∈ front ∧ it.gone y = false := by simpa [gone] using hy
        exact nodup.2.2 (List.mem_map_of_mem early.1) (by simp [same])
  · exact .inr ⟨p, here, fun mem => outside ((sub.map Prod.fst).mem mem)⟩

theorem Linked.iterate (linked : Linked s entries) (step : s.iterate it = some s') :
    ∃ entries', Linked s' entries' := by
  unfold MainLoop.iterate at step
  split at step
  · cases step
    exact ⟨entries, linked.list, linked.nodup, linked.active, linked.tail⟩
  · obtain ⟨m, accepted, swept⟩ := Option.bind_eq_some_iff.mp step
    obtain ⟨_, linked⟩ := linked.accept accepted
    exact linked.sweep swept

/-- All entries can be joined. -/
theorem Linked.drains (linked : Linked s entries) (retval : Nat → Int) :
    ∃ s', s.drain retval = some s' := by
  obtain ⟨s', drained, -, -⟩ := drainFrom_eq linked.list linked.nodup
    (linked.list.length_le linked.nodup) retval
  exact ⟨s', drained⟩

/-- The entry is reached from the head of the list. -/
def Listed (s : MainLoop) (x : Nat × ClEntry) : Prop :=
  ∃ before last, IsSeg s.heap s.head (before ++ [x]) last

theorem Names.listed (names : Names P s) {x : Nat × ClEntry} (listed : s.Listed x) :
    P x.2.thread := by
  obtain ⟨before, last, seg⟩ := listed
  obtain ⟨next, live⟩ := seg.live (x := x) (by simp)
  exact names.1 _ _ live

end MainLoop

/-- A connection that `main` accepted: its thread, `none` when `pthread_create` failed, and whether
its descriptor was closed. -/
structure Connection where
  handler : Option ConnHandler
  closed : Bool

/-- `main` and the threads of the connections, in the order in which they were accepted. -/
structure Program where
  main : MainLoop
  connections : List Connection

/-- An iteration of the loop of `main`, or a call of the thread of a connection. -/
inductive ProgramLabel
  | main (it : Iteration)
  | conn (i : Nat) (event : Event)

namespace Program

def start : Program := ⟨.start, []⟩

/-- The threads close the connections, and `main` closes none. -/
def step (useAesdCharDevice : Bool) (s : Program) : ProgramLabel → Option Program
  | .main it =>
    if s.main.abort then none
    else do
      let main ← s.main.iterate it
      let handler := if it.error = 0 then some ConnHandler.start else none
      return ⟨main, s.connections ++ if 0 < it.connFd then [⟨handler, false⟩] else []⟩
  | .conn i event => do
    let connection ← s.connections[i]?
    let h ← connection.handler
    let h ← h.step useAesdCharDevice event
    let closes := decide (.release .descriptor ∈ event.acts useAesdCharDevice)
    return { s with connections := s.connections.set i ⟨some h, connection.closed || closes⟩ }

def Step (useAesdCharDevice : Bool) (s : Program) (label : ProgramLabel) (s' : Program) : Prop :=
  s.step useAesdCharDevice label = some s'

/-- The thread was created. -/
def Created (s : Program) (thread : Option Nat) : Prop :=
  ∃ i connection h, thread = some i ∧ s.connections[i]? = some connection ∧
    connection.handler = some h

/-- No creation of a thread failed. -/
def AllCreated (labels : List ProgramLabel) : Prop :=
  ∀ it, .main it ∈ labels → 0 < it.connFd → it.error = 0

variable {useAesdCharDevice : Bool} {s s' : Program} {label : ProgramLabel}
  {labels : List ProgramLabel}

/-- What a step does to the connections. -/
inductive Moves (useAesdCharDevice : Bool) (s : Program) : ProgramLabel → Program → Prop
  | accepts (it : Iteration) (main : MainLoop) (step : s.main.iterate it = some main)
      (new : 0 < it.connFd) : Moves useAesdCharDevice s (.main it) ⟨main, s.connections ++
        [⟨if it.error = 0 then some ConnHandler.start else none, false⟩]⟩
  | sweeps (it : Iteration) (main : MainLoop) (step : s.main.iterate it = some main)
      (none : ¬0 < it.connFd) : Moves useAesdCharDevice s (.main it) ⟨main, s.connections⟩
  | conn (i : Nat) (event : Event) (connection : Connection) (h h' : ConnHandler) (closed : Bool)
      (at_ : s.connections[i]? = some connection) (handler : connection.handler = some h)
      (step : h.step useAesdCharDevice event = some h') :
      Moves useAesdCharDevice s (.conn i event)
        { s with connections := s.connections.set i ⟨some h', closed⟩ }

theorem step_moves (step : Step useAesdCharDevice s label s') :
    Moves useAesdCharDevice s label s' := by
  unfold Step at step
  cases label with
  | main it =>
    simp only [Program.step, Option.bind_eq_bind] at step
    split at step
    · contradiction
    · obtain ⟨main, iterated, eq⟩ := Option.bind_eq_some_iff.mp step
      cases eq
      by_cases new : 0 < it.connFd
      · rw [if_pos new]
        exact .accepts it main iterated new
      · rw [if_neg new, List.append_nil]
        exact .sweeps it main iterated new
  | conn i event =>
    simp only [Program.step, Option.bind_eq_bind, Option.bind_eq_some_iff] at step
    obtain ⟨connection, at_, h, handler, h', stepped, eq⟩ := step
    cases eq
    exact .conn i event connection h h' _ at_ handler stepped

/-- A thread that was created stays so. -/
theorem Moves.created (moves : Moves useAesdCharDevice s label s') {thread : Option Nat}
    (created : s.Created thread) : s'.Created thread := by
  obtain ⟨j, connection, h, eq, at_, handler⟩ := created
  cases moves with
  | accepts it main =>
    refine ⟨j, connection, h, eq, ?_, handler⟩
    rw [List.getElem?_append_left (List.getElem?_eq_some_iff.mp at_).1, at_]
  | sweeps it main => exact ⟨j, connection, h, eq, at_, handler⟩
  | conn i event old g g' closed =>
    by_cases same : i = j
    · subst same
      refine ⟨i, ⟨some g', closed⟩, g', eq, ?_, rfl⟩
      exact List.getElem?_set_self (List.getElem?_eq_some_iff.mp at_).1
    · exact ⟨j, connection, h, eq, by rw [List.getElem?_set_ne same, at_], handler⟩

theorem created_last {main : MainLoop} {connections : List Connection} {h : ConnHandler}
    {closed : Bool} :
    Created ⟨main, connections ++ [⟨some h, closed⟩]⟩ (some connections.length) :=
  ⟨connections.length, ⟨some h, closed⟩, h, rfl, List.getElem?_concat_length, rfl⟩

/-- Every thread that an entry names, or that was joined, was created, and so was that of every
connection. -/
structure Fine (s : Program) : Prop where
  length : s.connections.length = s.main.accepted
  names : s.main.Names s.Created
  handlers : ∀ connection ∈ s.connections, connection.handler ≠ none

theorem Fine.step (fine : Fine s) (moves : Moves useAesdCharDevice s label s')
    (ok : ∀ it, label = .main it → 0 < it.connFd → it.error = 0) : Fine s' := by
  have names := fine.names.mono fun _ => moves.created
  cases moves with
  | accepts it main step new =>
    have created := ok it rfl new
    rw [if_pos created] at names ⊢
    obtain ⟨names, count⟩ := names.iterate step fun _ => by
      rw [if_pos created, ← fine.length]
      exact created_last
    refine ⟨?_, names, ?_⟩
    · rw [count, if_pos new, List.length_append, fine.length]
      rfl
    · rw [List.forall_mem_append, List.forall_mem_singleton]
      exact ⟨fine.handlers, Option.some_ne_none _⟩
  | sweeps it main step none =>
    obtain ⟨names, count⟩ := names.iterate step fun new => absurd new none
    exact ⟨by rw [count, if_neg none, Nat.add_zero]; exact fine.length, names, fine.handlers⟩
  | conn i event connection h h' closed at_ handler step =>
    refine ⟨by rw [List.length_set]; exact fine.length, names, ?_⟩
    intro other mem
    rcases List.mem_or_eq_of_mem_set mem with old | rfl
    · exact fine.handlers other old
    · exact Option.some_ne_none _

theorem Fine.run (run : Run (Step useAesdCharDevice) .start labels s) (ok : AllCreated labels) :
    Fine s := by
  refine run.history (P := fun labels s => AllCreated labels → Fine s) (fun _ => ?_) ?_ ok
  · refine ⟨rfl, ⟨?_, by simp [start, MainLoop.start]⟩, by simp [start]⟩
    intro p node live
    simp [start, MainLoop.start] at live
  · intro labels label s s' _ fine step ok
    refine (fine fun it mem => ok it (by simp [mem])).step (step_moves step) ?_
    rintro it rfl
    exact ok it (by simp)

/-- A connection without a thread is never closed. -/
theorem unclosed (run : Run (Step useAesdCharDevice) .start labels s) :
    ∀ connection ∈ s.connections, connection.handler = none → connection.closed = false := by
  refine run.invariant (P := fun s : Program => ∀ connection ∈ s.connections,
    connection.handler = none → connection.closed = false) ?_ (by simp [start])
  intro s label s' unclosed step connection mem missing
  cases step_moves step with
  | accepts it main =>
    rcases List.mem_append.mp mem with old | last
    · exact unclosed connection old missing
    · rw [List.mem_singleton.mp last]
  | sweeps it main => exact unclosed connection mem missing
  | conn i event old h h' closed =>
    rcases List.mem_or_eq_of_mem_set mem with old | rfl
    · exact unclosed connection old missing
    · exact absurd missing (Option.some_ne_none _)

/-- A failed creation leaves a connection without a thread. -/
theorem missing_of_failed (run : Run (Step useAesdCharDevice) .start labels s) {it : Iteration}
    (mem : .main it ∈ labels) (new : 0 < it.connFd) (failed : it.error ≠ 0) :
    ∃ connection ∈ s.connections, connection.handler = none := by
  refine run.history (P := fun labels s => .main it ∈ labels →
    ∃ connection ∈ s.connections, connection.handler = none) (by simp) ?_ mem
  intro labels label s s' _ ih step mem
  have last : label = .main it ∨ ∃ connection ∈ s.connections, connection.handler = none := by
    rcases List.mem_append.mp mem with old | last
    · exact .inr (ih old)
    · exact .inl (List.mem_singleton.mp last).symm
  cases step_moves step with
  | accepts it' main =>
    rcases last with eq | ⟨connection, mem, missing⟩
    · cases eq
      exact ⟨_, List.mem_append_right _ (List.mem_singleton.mpr rfl), if_neg failed⟩
    · exact ⟨connection, List.mem_append_left _ mem, missing⟩
  | sweeps it' main step none =>
    rcases last with eq | found
    · cases eq
      exact absurd new none
    · exact found
  | conn i event old h h' closed at_ handler =>
    rcases last with eq | ⟨connection, mem, missing⟩
    · contradiction
    · obtain ⟨j, hj, rfl⟩ := List.mem_iff_getElem.mp mem
      have ne : i ≠ j := by
        rintro rfl
        rw [List.getElem?_eq_getElem hj] at at_
        cases at_
        exact Option.some_ne_none _ (handler.symm.trans missing)
      refine ⟨s.connections[j], List.mem_iff_getElem?.mpr ⟨j, ?_⟩, missing⟩
      rw [List.getElem?_set_ne ne, List.getElem?_eq_getElem hj]

/-- After any run of the loop, the threads of all entries in the list can be joined. -/
theorem drains (run : Run (Step useAesdCharDevice) .start labels s) (retval : Nat → Int) :
    ∃ ended, s.main.drain retval = some ended := by
  have linked : ∃ entries, s.main.Linked entries := by
    refine run.invariant (P := fun s : Program => ∃ entries, s.main.Linked entries) ?_
      ⟨[], MainLoop.linked_start⟩
    rintro s label s' ⟨entries, linked⟩ step
    cases step_moves step with
    | accepts it main iterated => exact linked.iterate iterated
    | sweeps it main iterated => exact linked.iterate iterated
    | conn => exact ⟨entries, linked⟩
  obtain ⟨entries, linked⟩ := linked
  exact linked.drains retval

/-- What is meant by a failed creation that leaves no trace, for a run of the loop and the joins at
the end of `main`. -/
structure LeavesNoTrace (useAesdCharDevice : Bool) (labels : List ProgramLabel) (s : Program)
    (ended : MainLoop) : Prop where
  listed : ∀ before after m, labels = before ++ after →
    Run (Step useAesdCharDevice) .start before m →
    ∀ x, m.main.Listed x → m.Created x.2.thread
  joined : ∀ thread ∈ ended.joined, s.Created thread
  closed : ∀ connection ∈ s.connections, connection.handler = none → connection.closed = true

/-- The joins at the end of `main` succeed after any run of its loop. Every entry that was in its
list, and every thread that it joined, belongs to a thread that was created, and every other
connection is closed, exactly when no creation failed. -/
theorem leaves_no_trace_iff (run : Run (Step useAesdCharDevice) .start labels s)
    (retval : Nat → Int) : ∃ ended, s.main.drain retval = some ended ∧
      (LeavesNoTrace useAesdCharDevice labels s ended ↔ AllCreated labels) := by
  obtain ⟨ended, drained⟩ := drains run retval
  refine ⟨ended, drained, ?_, ?_⟩
  · intro clean it mem new
    by_contra failed
    obtain ⟨connection, mem, missing⟩ := missing_of_failed run mem new failed
    have open_ := unclosed run connection mem missing
    rw [clean.closed connection mem missing] at open_
    contradiction
  · intro ok
    refine ⟨?_, (Fine.run run ok).names.drainFrom drained |>.2, ?_⟩
    · intro before after m split first x listed
      have fine := Fine.run first fun it mem => ok it (by simp [split, mem])
      exact fine.names.listed listed
    · intro connection mem missing
      exact absurd missing ((Fine.run run ok).handlers connection mem)

/-- The first of two connections ends while the second is open and is swept, and its entry is used
again for a third. -/
def threeConnections : List ProgramLabel :=
  [.main (Server.accepting 100), .conn 0 (.openFile true), .main (Server.accepting 200),
    .conn 1 (.openFile true), .conn 0 (.getline none), .conn 0 (.closeFd true),
    .conn 0 (.closeConn true), .main (Server.ending 100), .main (Server.accepting 100),
    .conn 2 (.openFile false), .conn 2 (.closeConn true)]

theorem leaves_no_trace_three : ∃ s ended, Run (Step false) .start threeConnections s ∧
    s.main.drain (fun _ => 0) = some ended ∧ ended.joined = [some 0, some 1, some 2] ∧
    LeavesNoTrace false threeConnections s ended := by
  have finished : ((execute (step false) (fun _ => true) start threeConnections).bind fun s =>
      (s.main.drain fun _ => 0).map MainLoop.joined) = some [some 0, some 1, some 2] := by
    decide +kernel
  obtain ⟨s, executed, drained⟩ := Option.bind_eq_some_iff.mp finished
  obtain ⟨ended, drained, joined⟩ := Option.map_eq_some_iff.mp drained
  have run : Run (Step false) .start threeConnections s :=
    Run.of_execute (fun _ _ _ _ step => step) executed
  obtain ⟨last, same, clean⟩ := leaves_no_trace_iff run fun _ => 0
  obtain rfl : last = ended := Option.some.inj (same.symm.trans drained)
  refine ⟨s, last, run, drained, joined, clean.mpr ?_⟩
  intro it mem new
  simp only [threeConnections, List.mem_cons, ProgramLabel.main.injEq, reduceCtorEq, false_or,
    List.not_mem_nil, or_false] at mem
  rcases mem with rfl | rfl | rfl | rfl <;> rfl

/-- An iteration that accepts a connection, where `pthread_create` returns `EAGAIN`. -/
def failing : Iteration := { Server.accepting 100 with error := eagain }

/-- `pthread_create` fails for the only connection: its entry is in the list all the same, `main`
joins a thread that was not created, and the connection stays open. -/
theorem failed_creation_leaves_trace : ¬∀ labels s ended retval,
    (∀ it, .main it ∈ labels → 0 ≤ it.error) → Run (Step false) .start labels s →
    s.main.drain retval = some ended → LeavesNoTrace false labels s ended := by
  intro clean
  obtain ⟨s, step⟩ : ∃ s, start.step false (.main failing) = some s := ⟨_, rfl⟩
  obtain ⟨ended, drained, joined⟩ : ∃ ended, s.main.drain (fun _ => 0) = some ended ∧
      ended.joined = [none] := by
    cases step
    exact Option.map_eq_some_iff.mp (by decide +kernel)
  have positive : ∀ it, .main it ∈ [ProgramLabel.main failing] → 0 ≤ it.error := by
    intro it mem
    cases List.mem_singleton.mp mem
    decide
  have trace := clean [.main failing] s ended (fun _ => 0) positive (.single step) drained
  obtain ⟨i, connection, h, eq, -⟩ := trace.joined none (by simp [joined])
  contradiction

end Program

end Aesd.Server
