import Mathlib.Data.List.AList

/-! A heap of live blocks, by address, and the ownership of some of them: `Owns h owned frame`
splits `h` into the blocks `owned`, with their contents, and the rest `frame`. Allocation, release
and stores are rules about `owned` that leave `frame` alone, so a proof about one owner never
looks at the blocks of another. -/

namespace ProofKit

/-- The live blocks, by address. -/
abbrev Heap (α β : Type) := AList fun _ : α => β

namespace Heap

variable {α β : Type} [DecidableEq α]

/-- The heap with a new block at `p`; there is none when the block at `p` is still live. -/
def alloc (h : Heap α β) (p : α) (b : β) : Option (Heap α β) :=
  if p ∈ h then none else some (h.insert p b)

/-- The heap without the block at `p`; there is none when no block at `p` is live. -/
def free (h : Heap α β) (p : α) : Option (Heap α β) :=
  if p ∈ h then some (h.erase p) else none

/-- The heap with the block at `p` changed by `f`; there is none when no block at `p` is live, or
when `f` refuses the block. -/
def modify (h : Heap α β) (p : α) (f : β → Option β) : Option (Heap α β) :=
  (h.lookup p).bind fun b => (f b).map fun b' => h.insert p b'

/-- The blocks `owned` are live in `h` with the given contents, at different addresses, and the
blocks of `h` at other addresses are those of `frame`. -/
structure Owns (h : Heap α β) (owned : List (α × β)) (frame : Heap α β) : Prop where
  nodup : (owned.map Prod.fst).Nodup
  held : ∀ x ∈ owned, h.lookup x.1 = some x.2
  apart : ∀ x ∈ owned, x.1 ∉ frame
  rest : ∀ p, p ∉ owned.map Prod.fst → h.lookup p = frame.lookup p

theorem mem_of_lookup {h : Heap α β} {p : α} {b : β} (live : h.lookup p = some b) : p ∈ h :=
  AList.lookup_isSome.mp (by rw [live]; rfl)

/-- A store to a live block makes no other block live. -/
theorem mem_insert_of_lookup {h : Heap α β} {p q : α} {b b' : β} (live : h.lookup p = some b) :
    q ∈ h.insert p b' ↔ q ∈ h := by
  rw [AList.mem_insert]
  constructor
  · rintro (rfl | mem)
    · exact mem_of_lookup live
    · exact mem
  · exact .inr

theorem not_mem_of_alloc {h h' : Heap α β} {p : α} {b : β} (new : h.alloc p b = some h') :
    p ∉ h := by
  intro live
  rw [alloc, if_pos live] at new
  contradiction

theorem owns_nil (h : Heap α β) : Owns h [] h :=
  ⟨List.nodup_nil, by simp, by simp, fun _ _ => rfl⟩

namespace Owns

variable {h h' frame : Heap α β} {owned others : List (α × β)} {p : α} {b b' : β}

theorem perm (own : Owns h owned frame) (same : owned.Perm others) : Owns h others frame where
  nodup := (same.map Prod.fst).nodup_iff.mp own.nodup
  held x hx := own.held x (same.mem_iff.mpr hx)
  apart x hx := own.apart x (same.mem_iff.mpr hx)
  rest q hq := own.rest q fun mem => hq ((same.map Prod.fst).mem_iff.mp mem)

theorem lookup (own : Owns h ((p, b) :: owned) frame) : h.lookup p = some b :=
  own.held (p, b) (by simp)

theorem ne_head (own : Owns h ((p, b) :: owned) frame) {x : α × β} (hx : x ∈ owned) :
    x.1 ≠ p := fun eq =>
  (List.nodup_cons.mp own.nodup).1 (List.mem_map.mpr ⟨x, hx, eq⟩)

theorem live (own : Owns h owned frame) {x : α × β} (hx : x ∈ owned) : x.1 ∈ h :=
  mem_of_lookup (own.held x hx)

theorem mem_iff (own : Owns h owned frame) {q : α} :
    q ∈ h ↔ q ∈ owned.map Prod.fst ∨ q ∈ frame := by
  by_cases mine : q ∈ owned.map Prod.fst
  · obtain ⟨x, hx, rfl⟩ := List.mem_map.mp mine
    simp only [own.live hx, mine, true_or]
  · rw [← AList.lookup_isSome, own.rest q mine, AList.lookup_isSome]
    simp only [mine, false_or]

theorem alloc (own : Owns h owned frame) (new : h.alloc p b = some h') :
    Owns h' ((p, b) :: owned) frame := by
  unfold Heap.alloc at new
  split at new
  · contradiction
  rename_i fresh
  cases new
  have notOwned : p ∉ owned.map Prod.fst := fun mem => fresh (own.mem_iff.mpr (.inl mem))
  have notFrame : p ∉ frame := fun mem => fresh (own.mem_iff.mpr (.inr mem))
  refine ⟨List.nodup_cons.mpr ⟨notOwned, own.nodup⟩, fun x hx => ?_, fun x hx => ?_,
    fun q hq => ?_⟩
  · rcases List.mem_cons.mp hx with rfl | hx
    · exact AList.lookup_insert h
    · have ne : x.1 ≠ p := fun eq => notOwned (List.mem_map.mpr ⟨x, hx, eq⟩)
      rw [AList.lookup_insert_ne ne, own.held x hx]
  · rcases List.mem_cons.mp hx with rfl | hx
    · exact notFrame
    · exact own.apart x hx
  · simp only [List.map_cons, List.mem_cons, not_or] at hq
    rw [AList.lookup_insert_ne hq.1, own.rest q hq.2]

theorem free (own : Owns h ((p, b) :: owned) frame) :
    ∃ h', h.free p = some h' ∧ Owns h' owned frame := by
  have live : p ∈ h := own.live (x := (p, b)) (by simp)
  obtain ⟨-, nodup⟩ := List.nodup_cons.mp own.nodup
  refine ⟨h.erase p, by simp [Heap.free, live], nodup, fun x hx => ?_,
    fun x hx => own.apart x (List.mem_cons_of_mem _ hx), fun q hq => ?_⟩
  · rw [AList.lookup_erase_ne (own.ne_head hx), own.held x (List.mem_cons_of_mem _ hx)]
  · by_cases eq : q = p
    · subst eq
      rw [AList.lookup_erase]
      exact (AList.lookup_eq_none.mpr (own.apart (q, b) (by simp))).symm
    · rw [AList.lookup_erase_ne eq]
      exact own.rest q (by simp [eq, hq])

theorem modify (own : Owns h ((p, b) :: owned) frame) {f : β → Option β} (hf : f b = some b') :
    ∃ h', h.modify p f = some h' ∧ Owns h' ((p, b') :: owned) frame := by
  obtain ⟨notOwned, nodup⟩ := List.nodup_cons.mp own.nodup
  refine ⟨h.insert p b', by simp [Heap.modify, own.lookup, hf],
    List.nodup_cons.mpr ⟨notOwned, nodup⟩, fun x hx => ?_, fun x hx => ?_, fun q hq => ?_⟩
  · rcases List.mem_cons.mp hx with rfl | hx
    · exact AList.lookup_insert h
    · rw [AList.lookup_insert_ne (own.ne_head hx), own.held x (List.mem_cons_of_mem _ hx)]
  · rcases List.mem_cons.mp hx with rfl | hx
    · exact own.apart (p, b) (by simp)
    · exact own.apart x (List.mem_cons_of_mem _ hx)
  · simp only [List.map_cons, List.mem_cons, not_or] at hq
    rw [AList.lookup_insert_ne hq.1]
    exact own.rest q (by simp [hq.1, hq.2])

theorem leak (own : Owns h ((p, b) :: owned) frame) : Owns h owned (frame.insert p b) := by
  obtain ⟨-, nodup⟩ := List.nodup_cons.mp own.nodup
  refine ⟨nodup, fun x hx => own.held x (List.mem_cons_of_mem _ hx), fun x hx => ?_,
    fun q hq => ?_⟩
  · rw [AList.mem_insert]
    rintro (eq | mem)
    · exact own.ne_head hx eq
    · exact own.apart x (List.mem_cons_of_mem _ hx) mem
  · by_cases eq : q = p
    · subst eq
      rw [own.lookup, AList.lookup_insert]
    · rw [AList.lookup_insert_ne eq]
      exact own.rest q (by simp [eq, hq])

end Owns

end Heap

end ProofKit
