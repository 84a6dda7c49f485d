import Aesd.Driver.CircularBuffer
import Aesd.ProofKit.Window
import Mathlib.Data.List.Induction

/-! The circular buffer is a bounded first-in first-out queue: after any additions, a walk from
`out_offs` meets the last ten entries added, oldest first, and `aesd_circular_buffer_add_entry`
returns the buffer of the entry that the queue gives up. -/

namespace Aesd.Driver

open Aesd.CInt ProofKit AesdCircularBuffer

/-- The entries of `queue`, oldest first, are the entries that a walk of `buffer` meets, and the
other positions are as `memset` left them. -/
structure Represents (buffer : AesdCircularBuffer) (queue : List AesdBufferEntry) : Prop where
  length_le : queue.length ≤ 10
  full_iff : buffer.full = true ↔ queue.length = 10
  offs : if buffer.full then buffer.outOffs = buffer.inOffs
    else buffer.outOffs = 0 ∧ (buffer.inOffs : Nat) = queue.length
  stored : ∀ i (hi : i < queue.length), buffer.entry (currentPos buffer.outOffs i) = queue[i]
  empty : ∀ i, queue.length ≤ i → i < 10 →
    buffer.entry (currentPos buffer.outOffs i) = .zero

variable {buffer : AesdCircularBuffer} {queue : List AesdBufferEntry} {e : AesdBufferEntry}

theorem val_currentPos (offset i : Nat) : (currentPos offset i : Nat) = (offset + i) % 10 := rfl

theorem currentPos_inj {offset i j : Nat} (hi : i < 10) (hj : j < 10)
    (h : currentPos offset i = currentPos offset j) : i = j := by
  have := congrArg Fin.val h
  simp only [val_currentPos] at this
  omega

theorem currentPos_zero (pos : Fin aesdcharMaxWriteOperationsSupported) :
    currentPos pos 0 = pos := by
  have := pos.isLt
  exact Fin.ext (Nat.mod_eq_of_lt this)

theorem init_represents : Represents aesdCircularBufferInit [] where
  length_le := by simp
  full_iff := by simp [aesdCircularBufferInit]
  offs := by simp [aesdCircularBufferInit]
  stored i hi := by simp at hi
  empty i _ _ := rfl

/-- The position that the next entry goes to: the first empty one, or the oldest. -/
theorem Represents.inOffs_eq (rep : Represents buffer queue) :
    buffer.inOffs = currentPos buffer.outOffs (if buffer.full then 0 else queue.length) := by
  have offs := rep.offs
  split at offs
  · rename_i full
    rw [if_pos full, offs, currentPos_zero]
  · rename_i room
    rw [if_neg room, offs.1, ← offs.2]
    exact Fin.ext (by simp [currentPos, Nat.mod_eq_of_lt buffer.inOffs.isLt])

theorem Represents.overwritten (rep : Represents buffer queue) :
    buffer.entry buffer.inOffs = ((outdated 10 (queue ++ [e])).head?).getD .zero := by
  rw [rep.inOffs_eq]
  by_cases full : buffer.full = true
  · have len := rep.full_iff.mp full
    obtain ⟨oldest, others, rfl⟩ : ∃ o os, queue = o :: os := by
      cases queue with
      | nil => simp at len
      | cons o os => exact ⟨o, os, rfl⟩
    rw [if_pos full, (window_cons_snoc (by simpa using len) oldest).2]
    exact rep.stored 0 (by simp)
  · have room : queue.length < 10 := by
      have := rep.length_le
      have := mt rep.full_iff.mpr full
      omega
    rw [if_neg full, outdated_of_le (by simp; omega)]
    exact rep.empty _ (Nat.le_refl _) room

/-! What an addition does to each field. -/

theorem val_nextOffs (inOffs : Fin aesdcharMaxWriteOperationsSupported) :
    (nextOffs inOffs : Nat) = (inOffs + 1) % 10 := by
  have bound : (inOffs : Nat) < 10 := inOffs.isLt
  unfold nextOffs
  split
  · rename_i last
    rw [show (inOffs : Nat) + 1 = 10 from last]
  · rename_i room
    change (inOffs : Nat) + 1 = _
    rw [Nat.mod_eq_of_lt (Nat.lt_of_le_of_ne bound room)]

theorem addEntry_removed (buffer : AesdCircularBuffer) (e : AesdBufferEntry) :
    (aesdCircularBufferAddEntry buffer e).1 = (buffer.entry buffer.inOffs).buffptr := rfl

theorem addEntry_entry (buffer : AesdCircularBuffer) (e : AesdBufferEntry) :
    (aesdCircularBufferAddEntry buffer e).2.entry =
      Function.update buffer.entry buffer.inOffs e := rfl

theorem addEntry_inOffs (buffer : AesdCircularBuffer) (e : AesdBufferEntry) :
    ((aesdCircularBufferAddEntry buffer e).2.inOffs : Nat) = (buffer.inOffs + 1) % 10 :=
  val_nextOffs _

theorem addEntry_full (buffer : AesdCircularBuffer) (e : AesdBufferEntry) :
    (aesdCircularBufferAddEntry buffer e).2.full = true ↔
      buffer.full = true ∨ (buffer.inOffs + 1 : Nat) = 10 := by
  simp only [aesdCircularBufferAddEntry, Bool.or_eq_true, beq_iff_eq]

theorem addEntry_outOffs (buffer : AesdCircularBuffer) (e : AesdBufferEntry) :
    (aesdCircularBufferAddEntry buffer e).2.outOffs =
      if (aesdCircularBufferAddEntry buffer e).2.full
      then ((aesdCircularBufferAddEntry buffer e).2.inOffs : Nat) else buffer.outOffs := rfl

theorem addEntry_get (buffer : AesdCircularBuffer) (e : AesdBufferEntry)
    (pos : Fin aesdcharMaxWriteOperationsSupported) :
    (aesdCircularBufferAddEntry buffer e).2.entry pos =
      if pos = buffer.inOffs then e else buffer.entry pos := by
  rw [addEntry_entry, Function.update_apply]

theorem Represents.add_room (rep : Represents buffer queue) (room : queue.length < 10)
    (e : AesdBufferEntry) :
    Represents (aesdCircularBufferAddEntry buffer e).2 (queue ++ [e]) := by
  have notFull : ¬buffer.full = true := fun full => by
    have := rep.full_iff.mp full
    omega
  obtain ⟨out, inOffs⟩ := (by simpa [notFull] using rep.offs :
    buffer.outOffs = 0 ∧ (buffer.inOffs : Nat) = queue.length)
  have full' : (aesdCircularBufferAddEntry buffer e).2.full = true ↔
      queue.length + 1 = 10 := by
    rw [addEntry_full, inOffs]
    simp [notFull]
  have in' : ((aesdCircularBufferAddEntry buffer e).2.inOffs : Nat) =
      (queue.length + 1) % 10 := by
    rw [addEntry_inOffs, inOffs]
  have out' : (aesdCircularBufferAddEntry buffer e).2.outOffs = 0 := by
    rw [addEntry_outOffs]
    split
    · rename_i full
      have := full'.mp full
      omega
    · exact out
  have target : ∀ i < 10, currentPos 0 i = buffer.inOffs ↔ i = queue.length := by
    intro i hi
    rw [Fin.ext_iff, val_currentPos, inOffs]
    omega
  refine ⟨by simp; omega, by rw [full', List.length_append, List.length_singleton], ?_,
    fun i hi => ?_, fun i low high => ?_⟩
  · split
    · rename_i full
      have := full'.mp full
      omega
    · rename_i notFull'
      rw [full'] at notFull'
      rw [List.length_append, List.length_singleton]
      exact ⟨out', by omega⟩
  · simp only [List.length_append, List.length_singleton] at hi
    simp only [out', addEntry_get, target i (by omega)]
    split
    · rename_i last
      subst last
      simp
    · rename_i old
      rw [List.getElem_append_left (by omega)]
      simpa [out] using rep.stored i (by omega)
  · simp only [List.length_append, List.length_singleton] at low
    simp only [out', addEntry_get, target i high]
    rw [if_neg (by omega)]
    simpa [out] using rep.empty i (by omega) high

/-- An addition to a full buffer, whose oldest entry is `oldest`. -/
theorem Represents.add_full {oldest : AesdBufferEntry} (rep : Represents buffer (oldest :: queue))
    (len : queue.length + 1 = 10) (e : AesdBufferEntry) :
    Represents (aesdCircularBufferAddEntry buffer e).2 (queue ++ [e]) := by
  have full : buffer.full = true := rep.full_iff.mpr len
  have offs : buffer.outOffs = buffer.inOffs := by simpa [full] using rep.offs
  have full' : (aesdCircularBufferAddEntry buffer e).2.full = true :=
    (addEntry_full buffer e).mpr (.inl full)
  have out' : (aesdCircularBufferAddEntry buffer e).2.outOffs =
      (aesdCircularBufferAddEntry buffer e).2.inOffs := by
    rw [addEntry_outOffs, if_pos full']
  -- the walk starts one position later, so position `i` is the old position `i + 1`
  have shift : ∀ i, currentPos (aesdCircularBufferAddEntry buffer e).2.outOffs i =
      currentPos buffer.outOffs (i + 1) := by
    intro i
    rw [Fin.ext_iff, val_currentPos, val_currentPos, out', addEntry_inOffs, offs]
    omega
  have target : ∀ i < 10, currentPos buffer.outOffs (i + 1) = buffer.inOffs ↔ i = 9 := by
    intro i hi
    have bound : (buffer.inOffs : Nat) < 10 := buffer.inOffs.isLt
    rw [Fin.ext_iff, val_currentPos, offs]
    omega
  refine ⟨by simp; omega, by simpa [full'] using len, by simpa [full'] using out',
    fun i hi => ?_, fun i low high => ?_⟩
  · simp only [List.length_append, List.length_singleton] at hi
    simp only [shift, addEntry_get, target i (by omega)]
    split
    · rename_i last
      rw [List.getElem_append_right (by omega)]
      simp
    · rename_i old
      rw [List.getElem_append_left (by omega)]
      exact rep.stored (i + 1) (by simp; omega)
  · simp only [List.length_append, List.length_singleton] at low
    omega

/-- `aesd_circular_buffer_add_entry` adds to the queue and returns the buffer of the entry that
the queue gives up for it. -/
theorem Represents.add (rep : Represents buffer queue) (e : AesdBufferEntry) :
    Represents (aesdCircularBufferAddEntry buffer e).2 (window 10 (queue ++ [e])) ∧
    (aesdCircularBufferAddEntry buffer e).1 =
      ((outdated 10 (queue ++ [e])).head?).bind (·.buffptr) := by
  constructor
  · by_cases room : queue.length < 10
    · rw [window_of_le (by simp; omega)]
      exact rep.add_room room e
    · have le := rep.length_le
      cases queue with
      | nil => simp at room
      | cons oldest others =>
        simp only [List.length_cons] at room le
        rw [(window_cons_snoc (by omega) oldest).1]
        exact rep.add_full (by omega) e
  · rw [addEntry_removed, rep.overwritten (e := e)]
    cases (outdated 10 (queue ++ [e])).head? <;> rfl

theorem Represents.walk_eq (rep : Represents buffer queue) :
    buffer.walk = queue ++ List.replicate (10 - queue.length) .zero := by
  have le := rep.length_le
  refine List.ext_getElem (by simp; omega) fun i hi _ => ?_
  simp only [length_walk] at hi
  simp only [walk, positions, List.getElem_map, List.getElem_range]
  by_cases old : i < queue.length
  · rw [List.getElem_append_left old, rep.stored i old]
  · rw [List.getElem_append_right (by omega), List.getElem_replicate, rep.empty i (by omega) hi]

theorem Represents.total_eq (rep : Represents buffer queue) :
    buffer.total = (queue.map AesdBufferEntry.size).sum := by
  simp [total, rep.walk_eq, AesdBufferEntry.zero]

/-- The buffer after adding `es` in order, and what each call returned. -/
def addEntries (buffer : AesdCircularBuffer) (es : List AesdBufferEntry) :
    AesdCircularBuffer × List (Option Nat) :=
  es.foldl (fun (state, returned) e =>
    let (removed, state) := aesdCircularBufferAddEntry state e
    (state, returned ++ [removed])) (buffer, [])

theorem addEntries_snoc (es : List AesdBufferEntry) (e : AesdBufferEntry) :
    addEntries buffer (es ++ [e]) =
      ((aesdCircularBufferAddEntry (addEntries buffer es).1 e).2,
        (addEntries buffer es).2 ++
          [(aesdCircularBufferAddEntry (addEntries buffer es).1 e).1]) := by
  simp [addEntries, List.foldl_append]

theorem length_addEntries (es : List AesdBufferEntry) :
    (addEntries buffer es).2.length = es.length := by
  induction es using List.reverseRecOn with
  | nil => rfl
  | append_singleton es e ih => simp [addEntries_snoc, ih]

theorem addEntries_represents (es : List AesdBufferEntry) :
    Represents (addEntries aesdCircularBufferInit es).1 (window 10 es) := by
  induction es using List.reverseRecOn with
  | nil => simpa [addEntries] using init_represents
  | append_singleton es e ih =>
    rw [addEntries_snoc, ← window_window_append]
    exact (ih.add e).1

theorem addEntries_inOffs (es : List AesdBufferEntry) :
    ((addEntries aesdCircularBufferInit es).1.inOffs : Nat) = es.length % 10 := by
  induction es using List.reverseRecOn with
  | nil => rfl
  | append_singleton es e ih =>
    rw [addEntries_snoc, addEntry_inOffs, ih, List.length_append, List.length_singleton]
    omega

/-- Call `n` returned nothing while there was room, and then the buffer of the entry added ten
calls before. -/
theorem addEntries_returned (es : List AesdBufferEntry) (n : Nat) (hn : n < es.length)
    (hn' : n < (addEntries aesdCircularBufferInit es).2.length) :
    (addEntries aesdCircularBufferInit es).2[n] =
      if n < 10 then none else es[n - 10].buffptr := by
  induction es using List.reverseRecOn with
  | nil => simp at hn
  | append_singleton es e ih =>
    simp only [addEntries_snoc]
    by_cases old : n < es.length
    · have old' : n < (addEntries aesdCircularBufferInit es).2.length := by
        rwa [length_addEntries]
      rw [List.getElem_append_left old', ih old old']
      simp only [List.getElem_append_left (show n - 10 < es.length by omega)]
    · obtain rfl : n = es.length := by simp at hn; omega
      rw [List.getElem_append_right (by rw [length_addEntries])]
      have call := ((addEntries_represents es).add e).2
      rw [head?_outdated_push (by decide)] at call
      simp only [length_addEntries, Nat.sub_self, List.getElem_singleton, call]
      split
      · rfl
      · rw [List.getElem?_eq_getElem (by omega), Option.bind_some,
          List.getElem_append_left (by omega)]

/-- The circular buffer is a first-in first-out queue of capacity ten. After adding `es` to a new
buffer, a walk from `out_offs` meets the last ten of them in the order of the additions, every
other position is still zero, `full`, `in_offs` and `out_offs` are what the number of additions
says, and each call returned the buffer of the entry it overwrote: the one added ten calls
before. -/
theorem addEntries_fifo (es : List AesdBufferEntry) :
    let buffer := (addEntries aesdCircularBufferInit es).1
    let returned := (addEntries aesdCircularBufferInit es).2
    (∀ i (hi : i < min es.length 10), buffer.entry (currentPos buffer.outOffs i) =
      es[es.length - min es.length 10 + i]) ∧
    (∀ i, min es.length 10 ≤ i → i < 10 →
      buffer.entry (currentPos buffer.outOffs i) = .zero) ∧
    (buffer.full = true ↔ 10 ≤ es.length) ∧
    (buffer.inOffs : Nat) = es.length % 10 ∧
    buffer.outOffs = (if es.length < 10 then 0 else (buffer.inOffs : Nat)) ∧
    returned.length = es.length ∧
    ∀ n (hn : n < returned.length) (hn' : n < es.length),
      returned[n] = if n < 10 then none else es[n - 10].buffptr := by
  intro buffer returned
  have rep : Represents buffer (window 10 es) := addEntries_represents es
  have full : buffer.full = true ↔ 10 ≤ es.length := by
    rw [rep.full_iff, length_window]
    omega
  refine ⟨fun i hi => ?_, fun i low high => ?_, full, addEntries_inOffs es, ?_,
    length_addEntries es, fun n hn hn' => addEntries_returned es n hn' hn⟩
  · rw [rep.stored i (by simpa using hi), getElem_window _ (by omega)]
    congr 1
    omega
  · exact rep.empty i (by simpa using low) high
  · have offs := rep.offs
    split at offs
    · rename_i isFull
      rw [if_neg (by have := full.mp isFull; omega), offs]
    · rename_i room
      rw [if_pos (by have := mt full.mpr room; omega), offs.1]

end Aesd.Driver
