import Aesd.Server.AcceptLoop
import Mathlib.Data.Option.Basic

/-! The list of connections. The sweep keeps the entries of the running threads in order, but it
never changes `tail`: once it has removed the last entry, `tail` points to a freed one. -/

namespace Aesd.Server

open ProofKit Slist

/-- The thread of the entry is found to have ended. -/
def Iteration.gone (it : Iteration) (x : Nat × ClEntry) : Bool :=
  it.ended x.1 && x.2.thread.isSome

variable {s s' : MainLoop} {it : Iteration} {done todo entries : List (Nat × ClEntry)}
  {x : Nat × ClEntry} {h : ClHeap} {head last : Option Nat} {n : Nat}

theorem threadEnds_eq (seg : IsSeg h head (done ++ x :: todo) last)
    (nodup : ((done ++ x :: todo).map Prod.fst).Nodup) (thread : x.2.thread.isSome) (retval : Int) :
    IsSeg (threadEnds h x.1 retval) head
        (done ++ (x.1, { x.2 with isActive := false, descriptor := retval }) :: todo) last ∧
      ∀ r, r ∈ threadEnds h x.1 retval ↔ r ∈ h := by
  obtain ⟨next, live⟩ := seg.live (x := x) (by simp)
  have stores : threadEnds h x.1 retval = h.insert x.1
      ⟨{ x.2 with isActive := false, descriptor := retval }, next⟩ := by
    simp [threadEnds, live, thread]
  rw [stores]
  exact ⟨seg.setData nodup live _, fun r => Heap.mem_insert_of_lookup live⟩

theorem threadEnds_of_none {next : Option Nat} (live : h.lookup x.1 = some ⟨x.2, next⟩)
    (thread : x.2.thread.isSome = false) (retval : Int) : threadEnds h x.1 retval = h := by
  simp [threadEnds, live, thread]

theorem next_of_previous (list : IsList h head (done ++ todo)) :
    (match done.getLast?.map Prod.fst with
      | some previous => Slist.next h previous
      | none => some head) = some (todo.head?.map Prod.fst) := by
  obtain ⟨mid, front, back⟩ := IsSeg.append_iff.mp list
  have mid_eq := IsList.first_eq back
  cases done using List.reverseRecOn with
  | nil =>
    obtain rfl : head = mid := front
    simp [mid_eq]
  | append_singleton done y =>
    simp [Slist.next, front.lookup_last, mid_eq]

/-- An entry whose thread has ended is removed, once the thread is joined. -/
theorem sweep_gone (list : IsList s.heap s.head (done ++ x :: todo))
    (nodup : ((done ++ x :: todo).map Prod.fst).Nodup) (gone : it.gone x = true) :
    ∃ heap head, MainLoop.sweep it (n + 1) s (done.getLast?.map Prod.fst) (some x.1) =
        MainLoop.sweep it n { s with
          heap, head
          abort := s.abort || it.joinError x.1 < 0 || it.retval x.1 < 0
          joined := s.joined ++ [x.2.thread] } (done.getLast?.map Prod.fst)
          (todo.head?.map Prod.fst) ∧
      IsList heap head (done ++ todo) ∧ ∀ r, r ∈ heap ↔ r ≠ x.1 ∧ r ∈ s.heap := by
  obtain ⟨ended, thread⟩ := Bool.and_eq_true_iff.mp gone
  obtain ⟨list1, mem1⟩ := threadEnds_eq list nodup thread (it.retval x.1)
  obtain ⟨next, live⟩ := list1.live (List.mem_append_right _ List.mem_cons_self)
  obtain ⟨h, head, removed, free, list2, mem2⟩ := remove_free_eq list1 (by simpa using nodup)
  refine ⟨h.erase x.1, head, ?_, list2, fun r => (mem2 r).trans (and_congr_right fun _ => mem1 r)⟩
  have next := next_of_previous list2
  simp only [MainLoop.sweep, ended, if_true, live, removed, free, Option.bind_eq_bind,
    Option.bind_some, Bool.false_eq_true, if_false]
  cases last : done.getLast? with
  | none => simp_all
  | some y => simp_all

/-- Any other entry is passed by. -/
theorem sweep_kept (list : IsList s.heap s.head (done ++ x :: todo)) (active : x.2.isActive = true)
    (stays : it.gone x = false) :
    MainLoop.sweep it (n + 1) s (done.getLast?.map Prod.fst) (some x.1) =
      MainLoop.sweep it n s (some x.1) (todo.head?.map Prod.fst) := by
  obtain ⟨mid, front, rfl, next, live, rest⟩ := IsSeg.append_iff.mp list
  have same : (if it.ended x.1 then threadEnds s.heap x.1 (it.retval x.1) else s.heap) =
      s.heap := by
    by_cases ended : it.ended x.1 = true
    · rw [if_pos ended]
      refine threadEnds_of_none live ?_ _
      simpa [Iteration.gone, ended] using stays
    · rw [if_neg ended]
  simp [MainLoop.sweep, same, live, active, Slist.next, IsList.first_eq rest]

/-- The sweep, from an entry on: the entries of the threads that have ended are removed and their
threads are joined, and the others stay. -/
theorem sweep_eq (list : IsList s.heap s.head (done ++ todo))
    (nodup : ((done ++ todo).map Prod.fst).Nodup) (active : ∀ x ∈ todo, x.2.isActive = true)
    (bound : todo.length ≤ n) :
    ∃ s', MainLoop.sweep it n s (done.getLast?.map Prod.fst) (todo.head?.map Prod.fst) = some s' ∧
      IsList s'.heap s'.head (done ++ todo.filter fun x => !it.gone x) ∧
      s'.joined = s.joined ++ (todo.filter it.gone).map (·.2.thread) ∧ s'.tail = s.tail ∧
      s'.accepted = s.accepted ∧
      ∀ r, r ∈ s'.heap ↔ r ∈ s.heap ∧ r ∉ (todo.filter it.gone).map Prod.fst := by
  induction todo generalizing done s n with
  | nil =>
    refine ⟨s, by simp [MainLoop.sweep], by simpa using list, by simp, rfl, rfl, by simp⟩
  | cons x todo ih =>
    obtain ⟨n, rfl⟩ : ∃ m, n = m + 1 := ⟨n - 1, by simp at bound; omega⟩
    have fuel : todo.length ≤ n := by simpa using bound
    have others : ∀ y ∈ todo, y.2.isActive = true :=
      fun y hy => active y (List.mem_cons_of_mem _ hy)
    cases gone : it.gone x with
    | true =>
      obtain ⟨heap, head, step, list1, mem1⟩ := sweep_gone list nodup gone (n := n)
      obtain ⟨-, -, nodup1⟩ := nodup_split nodup
      obtain ⟨s', swept, list', joined, tail, accepted, mem⟩ := ih (s := { s with
        heap, head
        abort := s.abort || it.joinError x.1 < 0 || it.retval x.1 < 0
        joined := s.joined ++ [x.2.thread] }) list1 nodup1 others fuel
      refine ⟨s', step.trans swept, by simpa [gone] using list', by simpa [gone] using joined, tail,
        accepted, ?_⟩
      intro r
      rw [mem, mem1]
      simp only [List.filter_cons, gone, if_true, List.map_cons, List.mem_cons, not_or]
      tauto
    | false =>
      have step := sweep_kept list (active x (by simp)) gone (n := n)
      have list1 : IsList s.heap s.head ((done ++ [x]) ++ todo) := by simpa using list
      have nodup1 : (((done ++ [x]) ++ todo).map Prod.fst).Nodup := by simpa using nodup
      obtain ⟨s', swept, list', joined, tail, accepted, mem⟩ := ih list1 nodup1 others fuel
      rw [List.getLast?_concat, Option.map_some] at swept
      have none : (x :: todo).filter it.gone = todo.filter it.gone := by simp [gone]
      exact ⟨s', step.trans swept, by simpa [gone] using list', by rwa [none], tail, accepted,
        by rwa [none]⟩

theorem drainFrom_eq (list : IsList s.heap s.head entries)
    (nodup : (entries.map Prod.fst).Nodup) (bound : entries.length ≤ n) (retval : Nat → Int) :
    ∃ s', MainLoop.drainFrom retval n s = some s' ∧
      s'.joined = s.joined ++ entries.map (·.2.thread) ∧ s'.accepted = s.accepted := by
  induction entries generalizing s n with
  | nil =>
    have empty : s.head = none := list
    refine ⟨s, ?_, by simp, rfl⟩
    unfold MainLoop.drainFrom
    rw [empty]
  | cons x entries ih =>
    obtain ⟨n, rfl⟩ : ∃ m, n = m + 1 := ⟨n - 1, by simp at bound; omega⟩
    -- what the thread stores to its entry does not change the list
    obtain ⟨b, list1, thread⟩ : ∃ b, IsList (threadEnds s.heap x.1 (retval x.1)) s.head
        ((x.1, b) :: entries) ∧ b.thread = x.2.thread := by
      obtain ⟨next, live⟩ := list.live (x := x) (by simp)
      cases thread : x.2.thread.isSome with
      | true =>
        have seg : IsSeg s.heap s.head ([] ++ x :: entries) none := list
        exact ⟨_, (threadEnds_eq seg nodup thread (retval x.1)).1, rfl⟩
      | false => exact ⟨x.2, (threadEnds_of_none live thread (retval x.1)).symm ▸ list, rfl⟩
    obtain ⟨first, next, live, rest⟩ := list1
    rw [List.map_cons, List.nodup_cons] at nodup
    have free : (threadEnds s.heap x.1 (retval x.1)).free x.1 =
        some ((threadEnds s.heap x.1 (retval x.1)).erase x.1) :=
      if_pos (Heap.mem_of_lookup live)
    have list2 : IsList ((threadEnds s.heap x.1 (retval x.1)).erase x.1) next entries := by
      apply rest.congr
      intro y hy
      apply AList.lookup_erase_ne
      intro eq
      exact nodup.1 (eq ▸ List.mem_map_of_mem hy)
    obtain ⟨s', drained, joined, accepted⟩ := ih (s := { s with
      heap := (threadEnds s.heap x.1 (retval x.1)).erase x.1
      head := next
      abort := s.abort || b.descriptor < 0
      joined := s.joined ++ [b.thread] }) list2 nodup.2 (by simpa using bound)
    refine ⟨s', ?_, by simpa [thread] using joined, accepted⟩
    rw [← drained]
    conv_lhs => unfold MainLoop.drainFrom
    rw [first]
    simp [live, free, removeHead, Slist.next]

/-- The values of the elements that are not picked are the others, when no two are the same. -/
theorem map_filter_not {α β : Type} [BEq β] [LawfulBEq β] {f : α → β} {p : α → Bool} {xs : List α}
    (distinct : (xs.map f).Nodup) :
    (xs.filter fun x => !p x).map f = (xs.map f).filter fun y => y ∉ (xs.filter p).map f := by
  rw [List.filter_map]
  refine congrArg _ (List.filter_congr ?_)
  intro x hx
  have picked : f x ∈ (xs.filter p).map f ↔ p x = true := by
    constructor
    · intro mem
      obtain ⟨y, hy, eq⟩ := List.mem_map.mp mem
      obtain ⟨hy, picked⟩ := List.mem_filter.mp hy
      rwa [← List.inj_on_of_nodup_map distinct hy hx eq]
    · intro picked
      exact List.mem_map_of_mem (List.mem_filter.mpr ⟨hx, picked⟩)
  rw [Bool.eq_iff_iff, Bool.not_eq_true', Function.comp_apply, decide_eq_true_iff, picked,
    Bool.not_eq_true]

/-- `tail` is `NULL` when the list is empty, and otherwise points to its last entry. -/
def TailOk (s : MainLoop) (entries : List (Nat × ClEntry)) : Prop :=
  s.tail = entries.getLast?.map Prod.fst

/-- A new entry goes to the end of the list. -/
theorem link_eq (list : IsList s.heap s.head entries) (nodup : (entries.map Prod.fst).Nodup)
    (tail : TailOk s entries) {p : Nat} (fresh : p ∉ s.heap) (b : ClEntry) :
    ∃ h' head', MainLoop.link (s.heap.insert p ⟨b, none⟩) s.head s.tail p = some (h', head') ∧
      IsList h' head' (entries ++ [(p, b)]) := by
  have out : p ∉ entries.map Prod.fst := list.fresh fresh
  have live : (s.heap.insert p ⟨b, none⟩).lookup p = some ⟨b, none⟩ := AList.lookup_insert s.heap
  have list : IsList (s.heap.insert p ⟨b, none⟩) s.head entries := list.insert out _
  cases entries using List.reverseRecOn with
  | nil =>
    have empty : s.tail = none := tail
    obtain ⟨h', inserted, list', -⟩ := insertHead_eq list live out
    exact ⟨h', some p, by simp [MainLoop.link, empty, inserted], list'⟩
  | append_singleton front x =>
    have last : s.tail = some x.1 := by simpa [TailOk] using tail
    obtain ⟨h', inserted, list', -⟩ := insertAfter_last list nodup live out
    exact ⟨h', s.head, by simp [MainLoop.link, last, inserted], list'⟩

/-- The list of connections holds the connections that were not joined yet, in the order in which
they were accepted, and no thread was joined twice. -/
structure Chained (s : MainLoop) (entries : List (Nat × ClEntry)) : Prop where
  list : IsList s.heap s.head entries
  nodup : (entries.map Prod.fst).Nodup
  active : ∀ x ∈ entries, x.2.isActive = true
  threads : entries.map (·.2.thread) =
    ((List.range s.accepted).map some).filter fun thread => thread ∉ s.joined
  once : s.joined.Nodup
  real : ∀ thread ∈ s.joined, ∃ i < s.accepted, thread = some i

/-- `tail` after the connection of the iteration was accepted. -/
def MainLoop.tailFor (s : MainLoop) (it : Iteration) : Option Nat :=
  if 0 < it.connFd then some it.addr else s.tail

namespace Chained

theorem isSome (chained : Chained s entries) (hx : x ∈ entries) : x.2.thread.isSome := by
  have mem : x.2.thread ∈ entries.map (·.2.thread) := List.mem_map_of_mem hx
  rw [chained.threads] at mem
  obtain ⟨i, -, eq⟩ := List.mem_map.mp (List.mem_of_mem_filter mem)
  rw [← eq]
  rfl

theorem threads_nodup (chained : Chained s entries) : (entries.map (·.2.thread)).Nodup := by
  rw [chained.threads]
  exact ((List.nodup_range.map (Option.some_injective _)).filter _)

/-- Joining the threads of all entries joins every thread that was made, once. -/
theorem all_joined (chained : Chained s entries) :
    (s.joined ++ entries.map (·.2.thread)).Perm ((List.range s.accepted).map some) := by
  have distinct : ((List.range s.accepted).map some).Nodup :=
    List.nodup_range.map (Option.some_injective _)
  refine (List.perm_ext_iff_of_nodup ?_ distinct).mpr ?_
  · rw [List.nodup_append']
    refine ⟨chained.once, chained.threads_nodup, ?_⟩
    intro thread joined waiting
    rw [chained.threads] at waiting
    simpa [joined] using (List.mem_filter.mp waiting).2
  · intro thread
    rw [chained.threads, List.mem_append, List.mem_filter]
    constructor
    · rintro (joined | ⟨made, -⟩)
      · obtain ⟨i, hi, rfl⟩ := chained.real thread joined
        exact List.mem_map_of_mem (List.mem_range.mpr hi)
      · exact made
    · intro made
      by_cases joined : thread ∈ s.joined
      · exact .inl joined
      · exact .inr ⟨made, by simpa using joined⟩

theorem drain_all (chained : Chained s entries) (retval : Nat → Int) :
    ∃ s', s.drain retval = some s' ∧ s'.joined.Perm ((List.range s'.accepted).map some) := by
  obtain ⟨s', drained, joined, accepted⟩ := drainFrom_eq chained.list chained.nodup
    (chained.list.length_le chained.nodup) retval
  exact ⟨s', drained, by rw [joined, accepted]; exact chained.all_joined⟩

theorem accept (chained : Chained s entries) (tail : TailOk s entries) (created : it.error = 0)
    (fresh : 0 < it.connFd → it.addr ∉ s.heap) :
    ∃ s' entries', s.accept it = some s' ∧ Chained s' entries' ∧ TailOk s' entries' ∧
      s'.tail = s.tailFor it := by
  by_cases new : 0 < it.connFd
  swap
  · exact ⟨s, entries, by simp [MainLoop.accept, new], chained, tail,
      by simp [MainLoop.tailFor, new]⟩
  have free := fresh new
  obtain ⟨h', head', linked, list'⟩ :=
    link_eq chained.list chained.nodup tail free ⟨it.connFd, true, some s.accepted⟩
  have out : it.addr ∉ entries.map Prod.fst := chained.list.fresh free
  refine ⟨{ s with heap := h', head := head', tail := some it.addr, accepted := s.accepted + 1 },
    entries ++ [(it.addr, ⟨it.connFd, true, some s.accepted⟩)], ?_, ?_, by simp [TailOk],
    by simp [MainLoop.tailFor, new]⟩
  · simp [MainLoop.accept, new, created, Heap.alloc, free, linked]
  · have waiting : some s.accepted ∉ s.joined := by
      intro mem
      obtain ⟨i, lt, eq⟩ := chained.real _ mem
      cases eq
      omega
    exact {
      list := list'
      nodup := by
        rw [List.map_append, List.nodup_append']
        exact ⟨chained.nodup, by simp, by simpa using out⟩
      active := by
        rw [List.forall_mem_append, List.forall_mem_singleton]
        exact ⟨chained.active, rfl⟩
      threads := by
        simp [List.range_succ, chained.threads, waiting]
      once := chained.once
      real := by
        intro thread hthread
        obtain ⟨i, lt, eq⟩ := chained.real thread hthread
        exact ⟨i, Nat.lt_succ_of_lt lt, eq⟩ }

/-- A sweep joins the threads that have ended, and keeps the other entries in order. -/
theorem sweep (chained : Chained s entries) (it : Iteration) :
    ∃ s', MainLoop.sweep it s.heap.keys.length s none s.head = some s' ∧
      Chained s' (entries.filter fun x => !it.gone x) ∧ s'.tail = s.tail ∧
      ∀ x ∈ entries, it.gone x → x.1 ∉ s'.heap := by
  have list : IsList s.heap s.head ([] ++ entries) := chained.list
  obtain ⟨s', swept, list', joined, tail, accepted, mem⟩ :=
    sweep_eq list chained.nodup chained.active (chained.list.length_le chained.nodup)
  have first := chained.list.first_eq
  have waiting : ∀ x ∈ entries, x.2.thread ∉ s.joined := by
    intro x hx joined
    have thread : x.2.thread ∈ entries.map (·.2.thread) := List.mem_map_of_mem hx
    rw [chained.threads] at thread
    simpa [joined] using (List.mem_filter.mp thread).2
  refine ⟨s', by rw [← swept, first]; rfl, ?_, tail, ?_⟩
  · exact {
      list := list'
      nodup := chained.nodup.sublist (List.filter_sublist.map _)
      active := by
        intro x hx
        exact chained.active x (List.mem_of_mem_filter hx)
      threads := by
        rw [map_filter_not chained.threads_nodup, joined, accepted, chained.threads,
          List.filter_filter]
        apply List.filter_congr
        intro thread _
        rw [Bool.eq_iff_iff, Bool.and_eq_true, decide_eq_true_iff, decide_eq_true_iff,
          decide_eq_true_iff, List.mem_append, not_or]
        exact and_comm
      once := by
        rw [joined, List.nodup_append']
        refine ⟨chained.once, chained.threads_nodup.sublist (List.filter_sublist.map _), ?_⟩
        intro thread old new
        obtain ⟨x, hx, rfl⟩ := List.mem_map.mp new
        exact waiting x (List.mem_of_mem_filter hx) old
      real := by
        intro thread hthread
        rw [joined, List.mem_append] at hthread
        rcases hthread with hthread | hthread
        · rw [accepted]
          exact chained.real thread hthread
        · obtain ⟨x, hx, rfl⟩ := List.mem_map.mp hthread
          have thread : x.2.thread ∈ entries.map (·.2.thread) :=
            List.mem_map_of_mem (List.mem_of_mem_filter hx)
          rw [chained.threads] at thread
          obtain ⟨i, hi, eq⟩ := List.mem_map.mp (List.mem_of_mem_filter thread)
          exact ⟨i, by rw [accepted]; exact List.mem_range.mp hi, eq.symm⟩ }
  · intro x hx gone
    rw [mem]
    exact fun live => live.2 (List.mem_map_of_mem (List.mem_filter.mpr ⟨hx, gone⟩))

end Chained

/-- What the list should be at the head of every iteration. -/
def Sound (s : MainLoop) : Prop := ∃ entries, Chained s entries ∧ TailOk s entries

/-- The sweep of the iteration, if there is one, does not find that the thread of the last entry has
ended. -/
def Quiet (s : MainLoop) (it : Iteration) : Prop :=
  it.connFd < 0 ∧ it.again = false ∨ ∀ p, s.tailFor it = some p → it.ended p = false

/-- An iteration whose sweep leaves the last entry in the list. -/
def QuietStep (s : MainLoop) (it : Iteration) (s' : MainLoop) : Prop :=
  MainLoop.Step s it s' ∧ Quiet s it

/-- All entries can be joined, and then every thread that was made was joined once. -/
def Drains (s : MainLoop) : Prop :=
  ∀ retval, ∃ s', s.drain retval = some s' ∧ s'.joined.Perm ((List.range s'.accepted).map some)

theorem sound_start : Sound .start :=
  ⟨[], ⟨rfl, List.nodup_nil, by simp, rfl, List.nodup_nil, by simp [MainLoop.start]⟩, rfl⟩

theorem Sound.drains (sound : Sound s) : Drains s := by
  obtain ⟨entries, chained, -⟩ := sound
  exact chained.drain_all

/-- An iteration from a sound list touches only live entries. It leaves the list sound exactly when
its sweep leaves the last entry there, and the threads can be joined in either case. -/
theorem Sound.iterate (sound : Sound s) (created : it.error = 0)
    (fresh : 0 < it.connFd → it.addr ∉ s.heap) :
    ∃ s', s.iterate it = some s' ∧ (Sound s' ↔ Quiet s it) ∧ Drains s' := by
  obtain ⟨entries, chained, tailOk⟩ := sound
  by_cases failed : it.connFd < 0 ∧ it.again = false
  · have same : Sound { s with abort := true } :=
      ⟨entries, ⟨chained.list, chained.nodup, chained.active, chained.threads, chained.once,
        chained.real⟩, tailOk⟩
    refine ⟨{ s with abort := true }, by rw [MainLoop.iterate, if_pos failed], ?_, same.drains⟩
    exact iff_of_true same (.inl failed)
  obtain ⟨s1, entries1, accepted, chained1, tailOk1, tail1⟩ := chained.accept tailOk created fresh
  obtain ⟨s', swept, chained', tail', freed⟩ := chained1.sweep it
  refine ⟨s', by simp [MainLoop.iterate, failed, accepted, swept], ?_, chained'.drain_all⟩
  rw [tail1] at tail'
  unfold TailOk at tailOk1
  rw [tail1] at tailOk1
  constructor
  · rintro ⟨entries', list', tailOk'⟩
    right
    intro p last
    by_contra ended
    -- the entry that `tail` points to is in the list before the sweep, and is freed by it
    obtain ⟨x, hx, rfl⟩ : ∃ x, entries1.getLast? = some x ∧ x.1 = p := by
      rw [last] at tailOk1
      simpa [Option.map_eq_some_iff] using tailOk1.symm
    have mem := List.mem_of_getLast? hx
    have gone : it.gone x = true := by
      rw [Iteration.gone, chained1.isSome mem, Bool.and_true]
      simpa using ended
    refine freed x mem gone ?_
    -- but it is also the last entry after the sweep
    obtain ⟨y, hy, eq⟩ : ∃ y, entries'.getLast? = some y ∧ y.1 = x.1 := by
      unfold TailOk at tailOk'
      rw [tail', last] at tailOk'
      simpa [Option.map_eq_some_iff] using tailOk'.symm
    exact eq ▸ list'.list.mem (List.mem_of_getLast? hy)
  · intro quiet
    have running := quiet.resolve_left failed
    refine ⟨_, chained', ?_⟩
    unfold TailOk
    rw [tail', tailOk1]
    rw [tailOk1] at running
    cases entries1 using List.reverseRecOn with
    | nil => rfl
    | append_singleton front x =>
      have stays : it.gone x = false := by
        rw [Iteration.gone, running x.1 (by simp)]
        rfl
      simp [stays]

/-- As long as no sweep finds that the thread of the last entry has ended, the list is right at the
head of every iteration, no iteration touches a freed entry, and in the end every thread was joined
once. The first sweep that does find so leaves a wrong list. -/
theorem connection_list {its : List Iteration} (run : Run QuietStep .start its s)
    (created : ∀ it ∈ its, it.error = 0) :
    Sound s ∧ Drains s ∧
      ∀ it : Iteration, it.error = 0 → (0 < it.connFd → it.addr ∉ s.heap) →
        ∃ s', s.iterate it = some s' ∧ (Sound s' ↔ Quiet s it) ∧ Drains s' := by
  have sound : Sound s := by
    refine run.history (P := fun its s => (∀ it ∈ its, it.error = 0) → Sound s)
      (fun _ => sound_start) ?_ created
    intro its it t u _ sound ⟨⟨_, step⟩, quiet⟩ created
    have fresh : 0 < it.connFd → it.addr ∉ t.heap := by
      intro new live
      have done : ¬ it.connFd < 0 := by omega
      simp [MainLoop.iterate, MainLoop.accept, Heap.alloc, new, live, done] at step
    obtain ⟨u', step', iff, -⟩ := (sound fun it' hit => created it' (by simp [hit])).iterate
      (created it (by simp)) fresh
    rw [step] at step'
    cases step'
    exact iff.mpr quiet
  exact ⟨sound, sound.drains, fun it => sound.iterate⟩

/-- An iteration that accepts a connection as descriptor 4, with an entry at `addr`. -/
def accepting (addr : Nat) : Iteration where
  connFd := 4
  notStdin := by decide
  again := false
  addr := addr
  error := 0
  ended := fun _ => false
  retval := fun _ => 0
  joinError := fun _ => 0

/-- An iteration that accepts nothing and finds that the thread of the entry at `addr` has ended. -/
def ending (addr : Nat) : Iteration where
  connFd := -1
  notStdin := by decide
  again := true
  addr := 0
  error := 0
  ended := fun x => x == addr
  retval := fun _ => 0
  joinError := fun _ => 0

/-- An iteration that accepts nothing and finds that all threads have ended. -/
def sweeping : Iteration where
  connFd := -1
  notStdin := by decide
  again := true
  addr := 0
  error := 0
  ended := fun _ => true
  retval := fun _ => 0
  joinError := fun _ => 0

/-- Of two connections the first ends. Its entry is freed, and used again for the third connection,
which is put after the second. -/
theorem connection_list_reused :
    ∃ s, Run QuietStep .start [accepting 100, accepting 200, ending 100, accepting 100] s ∧
      Sound s ∧ Drains s ∧ s.head = some 200 ∧ s.tail = some 100 ∧ s.accepted = 3 ∧
      s.joined = [some 0] := by
  obtain ⟨s1, step1⟩ : ∃ s1, MainLoop.start.iterate (accepting 100) = some s1 := ⟨_, rfl⟩
  obtain ⟨s2, step2⟩ : ∃ s2, s1.iterate (accepting 200) = some s2 := by cases step1; exact ⟨_, rfl⟩
  obtain ⟨s3, step3⟩ : ∃ s3, s2.iterate (ending 100) = some s3 := by
    cases step1; cases step2; exact ⟨_, rfl⟩
  obtain ⟨s4, step4⟩ : ∃ s4, s3.iterate (accepting 100) = some s4 := by
    cases step1; cases step2; cases step3; exact ⟨_, rfl⟩
  have facts : s1.abort = false ∧ s2.abort = false ∧ s2.tail = some 200 ∧ s3.abort = false ∧
      s4.head = some 200 ∧ s4.tail = some 100 ∧ s4.accepted = 3 ∧ s4.joined = [some 0] := by
    cases step1
    cases step2
    cases step3
    cases step4
    decide +kernel
  obtain ⟨go1, go2, last, go3, state⟩ := facts
  have stays (p : Nat) (tail : s2.tailFor (ending 100) = some p) :
      (ending 100).ended p = false := by
    have same : s2.tail = some p := tail
    cases last.symm.trans same
    rfl
  have run : Run QuietStep .start [accepting 100, accepting 200, ending 100, accepting 100] s4 :=
    .cons ⟨⟨rfl, step1⟩, .inr fun _ _ => rfl⟩ <| .cons ⟨⟨go1, step2⟩, .inr fun _ _ => rfl⟩ <|
    .cons ⟨⟨go2, step3⟩, .inr stays⟩ <| .single ⟨⟨go3, step4⟩, .inr fun _ _ => rfl⟩
  obtain ⟨sound, drains, -⟩ := connection_list run (by decide)
  exact ⟨s4, run, sound, drains, state⟩

/-- The only connection ends and is removed. The next connection is put after the freed entry; when
it has the address of that entry it is not put in the list, and its thread is never joined. -/
theorem connection_list_dangles : ∃ s s', Run MainLoop.Step .start [accepting 100, sweeping] s ∧
    ¬ Sound s ∧ s.head = none ∧ s.tail = some 100 ∧ 100 ∉ s.heap ∧
    s.iterate (accepting 200) = none ∧ s.iterate (accepting 100) = some s' ∧ s'.accepted = 2 ∧
    (s'.drain fun _ => 0).map MainLoop.joined = some [some 0] := by
  obtain ⟨s1, step1⟩ : ∃ s1, MainLoop.start.iterate (accepting 100) = some s1 := ⟨_, rfl⟩
  obtain ⟨s2, step2⟩ : ∃ s2, s1.iterate sweeping = some s2 := by cases step1; exact ⟨_, rfl⟩
  obtain ⟨s3, step3⟩ : ∃ s3, s2.iterate (accepting 100) = some s3 := by
    cases step1; cases step2; exact ⟨_, rfl⟩
  have facts : s1.abort = false ∧ s2.head = none ∧ s2.tail = some 100 ∧ 100 ∉ s2.heap ∧
      s2.iterate (accepting 200) = none ∧ s3.accepted = 2 ∧
      (s3.drain fun _ => 0).map MainLoop.joined = some [some 0] := by
    cases step1
    cases step2
    cases step3
    decide +kernel
  obtain ⟨go, head, tail, freed, touched, accepted, drained⟩ := facts
  refine ⟨s2, s3, .cons ⟨rfl, step1⟩ (.single ⟨go, step2⟩), ?_, head, tail, freed, touched, step3,
    accepted, drained⟩
  rintro ⟨entries, chained, tailOk⟩
  have first := chained.list.first_eq
  rcases entries with - | ⟨x, entries⟩
  · cases tail.symm.trans tailOk
  · cases head.symm.trans first

end Aesd.Server
