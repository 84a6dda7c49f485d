import Aesd.ProofKit.Heap
import Mathlib.Data.List.Nodup
import Mathlib.Data.List.Perm.Subperm

/-! Singly linked lists in a heap, with the operations of `<sys/queue.h>`: a list is the address of
its first node, and each node holds a value and the address of the next node. An operation that
touches a node that is not live has no result. -/

namespace ProofKit

/-- A node: its value, and the address of the next node, `none` for `NULL`. -/
structure Node (α β : Type) where
  data : β
  next : Option α
  deriving DecidableEq, Repr

namespace Slist

variable {α β : Type}

theorem nodup_split {xs ys : List (α × β)} {x : α × β}
    (nodup : ((xs ++ x :: ys).map Prod.fst).Nodup) :
    x.1 ∉ xs.map Prod.fst ∧ x.1 ∉ ys.map Prod.fst ∧ ((xs ++ ys).map Prod.fst).Nodup := by
  rw [List.map_append, List.map_cons, List.nodup_middle, List.nodup_cons, List.mem_append,
    not_or] at nodup
  exact ⟨nodup.1.1, nodup.1.2, by rw [List.map_append]; exact nodup.2⟩

variable [DecidableEq α]

def next (h : Heap α (Node α β)) (p : α) : Option (Option α) := (h.lookup p).map Node.next

/-- The store to the `next` field of a node. -/
def setNext (h : Heap α (Node α β)) (p : α) (q : Option α) : Option (Heap α (Node α β)) :=
  h.modify p fun node => some { node with next := q }

/-- `SLIST_INSERT_HEAD`: the heap and the new first node. -/
def insertHead (h : Heap α (Node α β)) (first : Option α) (p : α) :
    Option (Heap α (Node α β) × Option α) := do
  let h ← setNext h p first
  return (h, some p)

def insertAfter (h : Heap α (Node α β)) (q p : α) : Option (Heap α (Node α β)) := do
  let after ← next h q
  let h ← setNext h p after
  setNext h q (some p)

/-- `SLIST_REMOVE_HEAD`: the new first node. -/
def removeHead (h : Heap α (Node α β)) (first : Option α) : Option (Option α) :=
  first.bind (next h)

/-- The loop of `SLIST_REMOVE`: from `cur` on, look for the node in front of `p` and unlink `p`. The
first argument bounds the number of nodes it may pass. -/
def removeFrom (h : Heap α (Node α β)) (p : α) : Nat → α → Option (Heap α (Node α β))
  | 0, _ => none
  | n + 1, cur => do
    match ← next h cur with
    | none => none
    | some q =>
      if q = p then
        let after ← next h p
        setNext h cur after
      else removeFrom h p n q

/-- `SLIST_REMOVE`: the heap and the new first node. -/
def remove (h : Heap α (Node α β)) (first : Option α) (p : α) :
    Option (Heap α (Node α β) × Option α) :=
  if first = some p then do
    let first ← removeHead h first
    return (h, first)
  else do
    let cur ← first
    let h ← removeFrom h p h.keys.length cur
    return (h, first)

/-- From `first` on, the nodes at the addresses of `xs` hold the values of `xs`, and the last of
them points to `last`. -/
def IsSeg (h : Heap α (Node α β)) : Option α → List (α × β) → Option α → Prop
  | first, [], last => first = last
  | first, x :: xs, last => first = some x.1 ∧ ∃ after, h.lookup x.1 = some ⟨x.2, after⟩ ∧
    IsSeg h after xs last

/-- The list from `first` on. -/
def IsList (h : Heap α (Node α β)) (first : Option α) (xs : List (α × β)) : Prop :=
  IsSeg h first xs none

variable {h h' : Heap α (Node α β)} {first last after : Option α} {xs ys : List (α × β)}
  {x y : α × β} {b : β} {p q : α} {n : Nat}

theorem setNext_eq {node : Node α β} (live : h.lookup p = some node) (q : Option α) :
    ∃ h', setNext h p q = some h' ∧ h'.lookup p = some { node with next := q } ∧
      (∀ r, r ≠ p → h'.lookup r = h.lookup r) ∧ ∀ r, r ∈ h' ↔ r ∈ h := by
  refine ⟨h.insert p { node with next := q }, by simp [setNext, Heap.modify, live], ?_, ?_, ?_⟩
  · exact AList.lookup_insert h
  · intro r ne
    exact AList.lookup_insert_ne ne
  · intro r
    exact Heap.mem_insert_of_lookup live

namespace IsSeg

theorem congr (seg : IsSeg h first xs last) (same : ∀ x ∈ xs, h'.lookup x.1 = h.lookup x.1) :
    IsSeg h' first xs last := by
  induction xs generalizing first with
  | nil => exact seg
  | cons x xs ih =>
    obtain ⟨rfl, after, live, rest⟩ := seg
    exact ⟨rfl, after, by rw [same x (by simp), live],
      ih rest fun y hy => same y (List.mem_cons_of_mem _ hy)⟩

theorem insert (seg : IsSeg h first xs last) (outside : p ∉ xs.map Prod.fst) (node : Node α β) :
    IsSeg (h.insert p node) first xs last := by
  apply seg.congr
  intro x hx
  apply AList.lookup_insert_ne
  rintro rfl
  exact outside (List.mem_map_of_mem hx)

theorem append_iff : IsSeg h first (xs ++ ys) last ↔
    ∃ mid, IsSeg h first xs mid ∧ IsSeg h mid ys last := by
  induction xs generalizing first with
  | nil =>
    constructor
    · intro seg
      exact ⟨first, rfl, seg⟩
    · rintro ⟨mid, rfl, seg⟩
      exact seg
  | cons x xs ih =>
    constructor
    · rintro ⟨rfl, after, live, rest⟩
      obtain ⟨mid, front, back⟩ := ih.mp rest
      exact ⟨mid, ⟨rfl, after, live, front⟩, back⟩
    · rintro ⟨mid, ⟨rfl, after, live, front⟩, back⟩
      exact ⟨rfl, after, live, ih.mpr ⟨mid, front, back⟩⟩

theorem live (seg : IsSeg h first xs last) (hx : x ∈ xs) :
    ∃ after, h.lookup x.1 = some ⟨x.2, after⟩ := by
  induction xs generalizing first with
  | nil => simp at hx
  | cons y xs ih =>
    obtain ⟨rfl, after, live, rest⟩ := seg
    rcases List.mem_cons.mp hx with rfl | hx
    · exact ⟨after, live⟩
    · exact ih rest hx

theorem mem (seg : IsSeg h first xs last) (hx : x ∈ xs) : x.1 ∈ h := by
  obtain ⟨after, live⟩ := seg.live hx
  exact Heap.mem_of_lookup live

theorem fresh (seg : IsSeg h first xs last) (free : p ∉ h) : p ∉ xs.map Prod.fst := by
  intro hp
  obtain ⟨x, hx, rfl⟩ := List.mem_map.mp hp
  exact free (seg.mem hx)

theorem first_eq (seg : IsSeg h first xs last) :
    first = (xs.head?.map Prod.fst).or last := by
  cases xs with
  | nil => exact seg
  | cons x xs => exact seg.1

theorem lookup_last (seg : IsSeg h first (xs ++ [x]) last) :
    h.lookup x.1 = some ⟨x.2, last⟩ := by
  obtain ⟨mid, -, -, after, live, rfl⟩ := append_iff.mp seg
  exact live

theorem setLast (seg : IsSeg h first (xs ++ [x]) last)
    (nodup : ((xs ++ [x]).map Prod.fst).Nodup) (now : h'.lookup x.1 = some ⟨x.2, after⟩)
    (same : ∀ r, r ≠ x.1 → h'.lookup r = h.lookup r) :
    IsSeg h' first (xs ++ [x]) after := by
  obtain ⟨mid, front, rfl, -, -, -⟩ := append_iff.mp seg
  refine append_iff.mpr ⟨some x.1, front.congr ?_, rfl, after, now, rfl⟩
  intro y hy
  refine same y.1 ?_
  intro eq
  rw [List.map_append, List.nodup_append'] at nodup
  exact nodup.2.2 (List.mem_map_of_mem hy) (by simp [eq])

end IsSeg

theorem IsSeg.setData (seg : IsSeg h first (xs ++ x :: ys) last)
    (nodup : ((xs ++ x :: ys).map Prod.fst).Nodup) (found : h.lookup x.1 = some ⟨x.2, after⟩)
    (b : β) : IsSeg (h.insert x.1 ⟨b, after⟩) first (xs ++ (x.1, b) :: ys) last := by
  obtain ⟨outFront, outBack, -⟩ := nodup_split nodup
  obtain ⟨-, front, rfl, next, live, back⟩ := append_iff.mp seg
  obtain rfl : after = next := by
    rw [found] at live
    exact (Node.mk.inj (Option.some.inj live)).2
  exact append_iff.mpr ⟨some x.1, front.insert outFront _, rfl, after, AList.lookup_insert h,
    back.insert outBack _⟩

theorem IsList.first_eq (list : IsList h first xs) : first = xs.head?.map Prod.fst := by
  rw [IsSeg.first_eq list, Option.or_none]

theorem IsList.length_le (list : IsList h first xs) (nodup : (xs.map Prod.fst).Nodup) :
    xs.length ≤ h.keys.length := by
  have sub : xs.map Prod.fst ⊆ h.keys := by
    intro p hp
    obtain ⟨x, hx, rfl⟩ := List.mem_map.mp hp
    exact list.mem hx
  simpa using (List.Nodup.subperm nodup sub).length_le

/-! What the operations do to a list. -/

theorem insertHead_eq (list : IsList h first xs) (new : h.lookup p = some ⟨b, after⟩)
    (fresh : p ∉ xs.map Prod.fst) :
    ∃ h', insertHead h first p = some (h', some p) ∧ IsList h' (some p) ((p, b) :: xs) ∧
      ∀ r, r ∈ h' ↔ r ∈ h := by
  obtain ⟨h', set, live, same, mem⟩ := setNext_eq new first
  refine ⟨h', by simp [insertHead, set], ⟨rfl, first, live, list.congr ?_⟩, mem⟩
  intro x hx
  refine same x.1 ?_
  rintro rfl
  exact fresh (List.mem_map_of_mem hx)

theorem insertAfter_last (list : IsList h first (xs ++ [x]))
    (nodup : ((xs ++ [x]).map Prod.fst).Nodup) (new : h.lookup p = some ⟨b, after⟩)
    (fresh : p ∉ (xs ++ [x]).map Prod.fst) :
    ∃ h', insertAfter h x.1 p = some h' ∧ IsList h' first (xs ++ [x] ++ [(p, b)]) ∧
      ∀ r, r ∈ h' ↔ r ∈ h := by
  have ne : x.1 ≠ p := by
    rintro rfl
    exact fresh (by simp)
  have end_ := list.lookup_last
  obtain ⟨h1, set1, live1, same1, mem1⟩ := setNext_eq new none
  have end1 := (same1 x.1 ne).trans end_
  obtain ⟨h2, set2, live2, same2, mem2⟩ := setNext_eq end1 (some p)
  have list1 : IsSeg h1 first (xs ++ [x]) none := by
    apply list.congr
    intro y hy
    refine same1 y.1 ?_
    rintro rfl
    exact fresh (List.mem_map_of_mem hy)
  refine ⟨h2, ?_, ?_, fun r => (mem2 r).trans (mem1 r)⟩
  · have none : next h x.1 = some none := by simp [next, end_]
    simp [insertAfter, none, set1, set2]
  · refine IsSeg.append_iff.mpr ⟨some p, list1.setLast nodup live2 same2, rfl, none, ?_, rfl⟩
    rw [same2 p ne.symm, live1]

/-- An insertion after a node outside the list does not change the list. -/
theorem insertAfter_outside (seg : IsSeg h first xs last) (inserted : insertAfter h q p = some h')
    (outside : q ∉ xs.map Prod.fst) (fresh : p ∉ xs.map Prod.fst) : IsSeg h' first xs last := by
  simp only [insertAfter, setNext, Heap.modify, Option.bind_eq_bind,
    Option.bind_eq_some_iff] at inserted
  obtain ⟨after, -, h1, ⟨node1, -, eq1⟩, node2, -, eq2⟩ := inserted
  cases eq1
  cases eq2
  exact (seg.insert fresh _).insert outside _

theorem removeFrom_eq (front : IsSeg h (some y.1) (y :: xs) (some p))
    (nodup : ((y :: xs).map Prod.fst).Nodup) (out : p ∉ (y :: xs).map Prod.fst)
    (found : h.lookup p = some ⟨b, after⟩) (bound : xs.length < n) :
    ∃ h', removeFrom h p n y.1 = some h' ∧ IsSeg h' (some y.1) (y :: xs) after ∧
      (∀ r, r ∉ (y :: xs).map Prod.fst → h'.lookup r = h.lookup r) ∧ ∀ r, r ∈ h' ↔ r ∈ h := by
  have unlinked : next h p = some after := by simp [next, found]
  induction n generalizing y xs with
  | zero => simp at bound
  | succ n ih =>
    cases xs with
    | nil =>
      obtain ⟨-, -, live, rfl⟩ := front
      obtain ⟨h', set, live', same, mem⟩ := setNext_eq live after
      have here : next h y.1 = some (some p) := by simp [next, live]
      refine ⟨h', by simp [removeFrom, here, unlinked, set], ⟨rfl, after, live', rfl⟩, ?_, mem⟩
      intro r hr
      exact same r (by simpa using hr)
    | cons z xs =>
      obtain ⟨-, -, live, rfl, rest⟩ := front
      rw [List.map_cons, List.nodup_cons] at nodup
      have here : next h y.1 = some (some z.1) := by simp [next, live]
      have ne : z.1 ≠ p := by
        rintro rfl
        exact out (by simp)
      have fromHere : IsSeg h (some z.1) (z :: xs) (some p) := ⟨rfl, rest⟩
      obtain ⟨h', removed, seg, same, mem⟩ := ih fromHere nodup.2
        (fun hp => out (List.mem_cons_of_mem _ hp)) (by simpa using bound)
      refine ⟨h', by simp [removeFrom, here, ne, removed], ⟨rfl, some z.1, ?_, seg⟩, ?_, mem⟩
      · rw [same y.1 nodup.1, live]
      · intro r hr
        exact same r fun hr' => hr (List.mem_cons_of_mem _ hr')

theorem remove_eq (list : IsList h first (xs ++ x :: ys))
    (nodup : ((xs ++ x :: ys).map Prod.fst).Nodup) :
    ∃ h' first', remove h first x.1 = some (h', first') ∧ IsList h' first' (xs ++ ys) ∧
      ∀ r, r ∈ h' ↔ r ∈ h := by
  obtain ⟨-, front, rfl, after, live, back⟩ := IsSeg.append_iff.mp list
  cases xs with
  | nil =>
    obtain rfl : first = some x.1 := front
    refine ⟨h, after, ?_, back, fun _ => Iff.rfl⟩
    simp [remove, removeHead, next, live]
  | cons y xs =>
    obtain rfl : first = some y.1 := front.1
    have bound := list.length_le nodup
    rw [List.map_append, List.nodup_append'] at nodup
    obtain ⟨nodupFront, nodupBack, apart⟩ := nodup
    have out : x.1 ∉ (y :: xs).map Prod.fst := fun hx => apart hx (by simp)
    have ne : y.1 ≠ x.1 := by
      intro eq
      exact out (by simp [eq])
    obtain ⟨h', removed, seg, same, mem⟩ := removeFrom_eq front nodupFront out live
      (n := h.keys.length) (by simp at bound; omega)
    refine ⟨h', some y.1, ?_, IsSeg.append_iff.mpr ⟨after, seg, back.congr ?_⟩, mem⟩
    · simp [remove, ne, removed]
    · intro z hz
      refine same z.1 ?_
      intro hz'
      exact apart hz' (List.mem_map_of_mem (List.mem_cons_of_mem _ hz))

theorem remove_free_eq (list : IsList h first (xs ++ x :: ys))
    (nodup : ((xs ++ x :: ys).map Prod.fst).Nodup) :
    ∃ h' first', remove h first x.1 = some (h', first') ∧ h'.free x.1 = some (h'.erase x.1) ∧
      IsList (h'.erase x.1) first' (xs ++ ys) ∧
      ∀ r, r ∈ h'.erase x.1 ↔ r ≠ x.1 ∧ r ∈ h := by
  obtain ⟨h', first', removed, list', mem⟩ := remove_eq list nodup
  have live : x.1 ∈ h' := (mem x.1).mpr (list.mem (List.mem_append_right _ List.mem_cons_self))
  obtain ⟨outFront, outBack, -⟩ := nodup_split nodup
  refine ⟨h', first', removed, if_pos live, list'.congr ?_, ?_⟩
  · intro y hy
    apply AList.lookup_erase_ne
    intro eq
    rcases List.mem_append.mp hy with hy | hy
    · exact outFront (eq ▸ List.mem_map_of_mem hy)
    · exact outBack (eq ▸ List.mem_map_of_mem hy)
  · intro r
    rw [AList.mem_erase, mem]

/-! What holds of the values of all nodes, in whatever lists they are. The operations keep it, since
they only store to the links. -/

/-- Every live node holds a value of the kind `P`. -/
def Every (P : β → Prop) (h : Heap α (Node α β)) : Prop :=
  ∀ p node, h.lookup p = some node → P node.data

namespace Every

variable {P : β → Prop} {node : Node α β}

theorem insert (every : Every P h) (new : P node.data) : Every P (h.insert p node) := by
  intro r found live
  by_cases same : r = p
  · subst same
    rw [AList.lookup_insert] at live
    exact Option.some.inj live ▸ new
  · rw [AList.lookup_insert_ne same] at live
    exact every r found live

theorem free (every : Every P h) (freed : h.free p = some h') : Every P h' := by
  unfold Heap.free at freed
  split at freed
  · cases freed
    intro r found live
    by_cases same : r = p
    · subst same
      rw [AList.lookup_erase] at live
      contradiction
    · rw [AList.lookup_erase_ne same] at live
      exact every r found live
  · contradiction

theorem alloc (every : Every P h) (allocated : h.alloc p node = some h') (new : P node.data) :
    Every P h' := by
  unfold Heap.alloc at allocated
  split at allocated
  · contradiction
  · cases allocated
    exact every.insert new

theorem setNext (every : Every P h) (set : setNext h p last = some h') : Every P h' := by
  unfold Slist.setNext Heap.modify at set
  obtain ⟨node, live, set⟩ := Option.bind_eq_some_iff.mp set
  cases set
  exact every.insert (every p node live)

theorem insertHead (every : Every P h) (inserted : insertHead h first p = some (h', last)) :
    Every P h' := by
  simp only [Slist.insertHead, Option.bind_eq_bind, Option.bind_eq_some_iff] at inserted
  obtain ⟨h1, set, eq⟩ := inserted
  cases eq
  exact every.setNext set

theorem insertAfter (every : Every P h) (inserted : insertAfter h q p = some h') : Every P h' := by
  simp only [Slist.insertAfter, Option.bind_eq_bind, Option.bind_eq_some_iff] at inserted
  obtain ⟨after, -, h1, linked, set⟩ := inserted
  exact (every.setNext linked).setNext set

theorem removeFrom (every : Every P h) (removed : removeFrom h p n q = some h') : Every P h' := by
  induction n generalizing q with
  | zero => contradiction
  | succ n ih =>
    simp only [Slist.removeFrom, Option.bind_eq_bind, Option.bind_eq_some_iff] at removed
    obtain ⟨next, -, removed⟩ := removed
    cases next with
    | none => contradiction
    | some r =>
      simp only at removed
      split at removed
      · obtain ⟨after, -, set⟩ := Option.bind_eq_some_iff.mp removed
        exact every.setNext set
      · exact ih removed

theorem remove (every : Every P h) (removed : remove h first p = some (h', last)) :
    Every P h' := by
  unfold Slist.remove at removed
  split at removed
  · simp only [Option.bind_eq_bind, Option.bind_eq_some_iff] at removed
    obtain ⟨first, -, eq⟩ := removed
    cases eq
    exact every
  · simp only [Option.bind_eq_bind, Option.bind_eq_some_iff] at removed
    obtain ⟨cur, -, h1, removed, eq⟩ := removed
    cases eq
    exact every.removeFrom removed

end Every

end Slist

end ProofKit
