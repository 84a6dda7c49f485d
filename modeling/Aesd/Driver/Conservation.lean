import Aesd.Driver.Replay

/-! No written byte is lost, repeated or moved: what the ring gave up, what it holds and what is
pending are, end to end, the buffers of the writes that succeeded. Writes that fail could as well
not have been made. -/

namespace Aesd.Driver

open Aesd.CInt ProofKit

/-- The entry that was overwritten between two states, if there was one. -/
def evictedBetween (before after : Kernel) : List (List UInt8) :=
  let entry := before.dev.buffer.entry before.dev.buffer.inOffs
  if after.dev.buffer.inOffs = before.dev.buffer.inOffs then []
  else if entry.buffptr.isSome then [entryBytes before.heap entry] else []

/-- A run that notes down the entries overwritten so far, oldest first. -/
structure Journal where
  module : Loaded
  evicted : List (List UInt8)

def Journal.Step (j : Journal) (call : Op × Reply) (j' : Journal) : Prop :=
  Loaded.Step j.module call j'.module ∧
    j'.evicted = j.evicted ++ evictedBetween j.module.kernel j'.module.kernel

theorem Journal.step_noted {j : Journal} {call : Op × Reply} {d : Loaded}
    (step : Loaded.Step j.module call d) :
    Journal.Step j call ⟨d, j.evicted ++ evictedBetween j.module.kernel d.kernel⟩ := ⟨step, rfl⟩

theorem Journal.forget {j j' : Journal} {calls : List (Op × Reply)}
    (run : Run Journal.Step j calls j') : Run Loaded.Step j.module calls j'.module := by
  induction run with
  | nil => exact .nil _
  | cons step _ ih => exact .cons step.1 ih

/-- The bytes that a call added: those of a write that returned their count. -/
def accepted : Op × Reply → List UInt8
  | (.write _ buf _, reply) => if reply.retval = buf.bytes.length then buf.bytes else []
  | _ => []

/-- A write of at least one byte, or another operation. -/
def Op.Nonempty : Op → Prop
  | .write _ buf _ => buf.bytes ≠ []
  | _ => True

/-- Every stored entry is a line, and the working entry, if there is one, does not end a line. -/
structure Framed (ring : List Held) (wip : Option Held) : Prop where
  lines : ∀ x ∈ ring, x.bytes.getLast? = some newline
  open_ : ∀ w ∈ wip, ∃ b, w.bytes.getLast? = some b ∧ b ≠ newline

theorem entryBytes_eq_bind (heap : KHeap) (entry : AesdBufferEntry) :
    entryBytes heap entry = ((entry.buffptr.bind (heap.lookup ·)).getD []).take entry.size := by
  unfold entryBytes
  cases entry.buffptr <;> simp

variable {d d' : Loaded} {kernel kernel' : Kernel} {base : Nat × List UInt8} {ring : List Held}
  {wip : Option Held} {frame frame' : KHeap} {op : Op} {reply : Reply}

/-- A flush overwrites the entry that the queue gives up, and nothing else overwrites any. -/
theorem Holds.evictedBetween_eq (h : Holds kernel base ring wip frame) {x : Held} {stray : UInt8}
    (buffer : kernel'.dev.buffer = flushBuffer kernel.dev.buffer x stray) :
    evictedBetween kernel kernel' =
      if lastByte x.bytes stray = newline then (outdated 10 (ring ++ [x])).map Held.bytes
      else [] := by
  unfold evictedBetween
  rw [buffer, flushBuffer]
  by_cases ends : lastByte x.bytes stray = newline
  · have moved : (aesdCircularBufferAddEntry kernel.dev.buffer x.entry).2.inOffs ≠
        kernel.dev.buffer.inOffs := by
      intro same
      have := congrArg Fin.val same
      rw [addEntry_inOffs] at this
      omega
    have mapped : ring.map Held.entry ++ [x.entry] = (ring ++ [x]).map Held.entry := by simp
    have le := h.length_ring
    rw [if_pos ends, if_pos ends, if_neg moved, h.represents.overwritten (e := x.entry), mapped,
      ← map_outdated, List.head?_map]
    by_cases room : (ring ++ [x]).length ≤ 10
    · rw [outdated_of_le room]
      rfl
    · cases ring with
      | nil => simp at room
      | cons oldest others =>
        rw [(window_cons_snoc (by simp at room le; omega) oldest).2]
        have kept := h.entryBytes_eq (x := oldest) (by simp)
        simp only [List.head?_cons, Option.map_some, Option.getD_some, Held.entry_buffptr,
          Option.isSome_some, ite_true, List.map_cons, List.map_nil, kept]
  · rw [if_neg ends, if_neg ends, if_pos rfl]

theorem evictedBetween_of_dev (dev : kernel'.dev = kernel.dev) :
    evictedBetween kernel kernel' = [] := by
  rw [evictedBetween, dev, if_pos rfl]

/-- The bytes added by a write are added at the end. -/
theorem flush_bytes (ring : List Held) (x : Held) (stray : UInt8) :
    (if lastByte x.bytes stray = newline then (outdated 10 (ring ++ [x])).map Held.bytes
      else []).flatten ++ ((flush ring x stray).1.map Held.bytes).flatten ++
      ((flush ring x stray).2.map Held.bytes).getD [] =
    (ring.map Held.bytes).flatten ++ x.bytes := by
  unfold flush
  by_cases ends : lastByte x.bytes stray = newline
  · simp only [if_pos ends]
    rw [← List.flatten_append, ← List.map_append, outdated_append_window]
    simp
  · simp [if_neg ends]

theorem Framed.flush (framed : Framed ring wip) {x : Held} (some_ : x.bytes ≠ [])
    (stray : UInt8) : Framed (Driver.flush ring x stray).1 (Driver.flush ring x stray).2 := by
  have last : x.bytes.getLast? = some (lastByte x.bytes stray) := by
    rw [lastByte, List.getLast?_eq_some_getLast some_, Option.getD_some]
  unfold Driver.flush
  by_cases ends : lastByte x.bytes stray = newline
  · rw [if_pos ends]
    refine ⟨fun y hy => ?_, by simp⟩
    rcases List.mem_append.mp (window_sublist.subset hy) with old | new
    · exact framed.lines y old
    · obtain rfl : y = x := by simpa using new
      rw [last, ends]
  · rw [if_neg ends]
    refine ⟨framed.lines, fun w hw => ⟨lastByte x.bytes stray, ?_, ends⟩⟩
    obtain rfl : x = w := by simpa using hw
    exact last

/-- The conservation law, with the blocks that are held. -/
def Conserves (calls : List (Op × Reply)) (j : Journal) : Prop :=
  ∃ base ring wip frame, Holds j.module.kernel base ring wip frame ∧ Framed ring wip ∧
    j.evicted.flatten ++ (ring.map Held.bytes).flatten ++ (wip.map Held.bytes).getD [] =
      calls.flatMap accepted

theorem Conserves.step {calls : List (Op × Reply)} {j j' : Journal} (c : Conserves calls j)
    (some_ : op.Nonempty) (step : Journal.Step j (op, reply) j') :
    Conserves (calls ++ [(op, reply)]) j' := by
  obtain ⟨base, ring, wip, frame, h, framed, law⟩ := c
  obtain ⟨step, evicted⟩ := step
  rw [Conserves, List.flatMap_append, ← law, evicted]
  cases Loaded.step_cases h step with
  | @written file buf env found d' ok allocation fPos buffer holds =>
    have nonempty : j.module.kernel.pending ++ buf.bytes ≠ [] :=
      List.append_ne_nil_of_right_ne_nil _ some_
    refine ⟨base, _, _, frame, holds, framed.flush nonempty env.stray, ?_⟩
    have added := flush_bytes ring ⟨found.addr, j.module.kernel.pending ++ buf.bytes⟩ env.stray
    simp only [h.pending_eq] at added ⊢
    rw [h.evictedBetween_eq buffer, h.pending_eq]
    simp only [List.flatten_append, List.append_assoc] at added ⊢
    rw [added]
    simp [accepted]
  | @failed file buf env frame' d' retval bad negative dev fPos holds grows clean =>
    refine ⟨base, ring, wip, _, holds, framed, ?_⟩
    have none : accepted (.write file buf env, ⟨retval, []⟩) = [] := if_neg (by
      simp only
      omega)
    simp [evictedBetween_of_dev dev, none]
  | other notWrite kernel =>
    refine ⟨base, ring, wip, frame, kernel ▸ h, framed, ?_⟩
    have none : accepted (op, reply) = [] := by
      cases op with
      | write file buf env => exact absurd rfl (notWrite file buf env)
      | _ => rfl
    simp [evictedBetween_of_dev (congrArg Kernel.dev kernel), none]

theorem Twin.evictedBetween_eq {twin twin' : Loaded} (same : Twin d twin) (same' : Twin d' twin') :
    evictedBetween twin.kernel twin'.kernel = evictedBetween d.kernel d'.kernel := by
  obtain ⟨base, ring, wip, frame, frame', h, h', dev, -⟩ := same
  obtain ⟨-, -, -, -, -, -, -, dev', -⟩ := same'
  simp only [evictedBetween, entryBytes_eq_bind, dev, dev', h.lookup_congr h']

/-- A run without its failing writes: the same calls get the same replies, and the same entries are
overwritten. -/
theorem Journal.replay {j j' : Journal} {calls : List (Op × Reply)}
    (run : Run Journal.Step j calls j') (h : ∃ base ring wip frame,
      Holds j.module.kernel base ring wip frame) :
    ∃ k', Run Journal.Step j (calls.filter fun call => !failedWrite call) k' ∧
      Twin j'.module k'.module ∧ k'.evicted = j'.evicted := by
  obtain ⟨base, ring, wip, frame, h⟩ := h
  refine run.history (P := fun calls j' => ∃ k', Run Journal.Step j
    (calls.filter fun call => !failedWrite call) k' ∧ Twin j'.module k'.module ∧
      k'.evicted = j'.evicted) ⟨j, .nil j, .refl h, rfl⟩ ?_
  rintro calls ⟨op, reply⟩ t u - ⟨k, replayed, same, evicted⟩ ⟨step, noted⟩
  rw [List.filter_append]
  cases fails : failedWrite (op, reply) with
  | true =>
    obtain ⟨dev, same'⟩ := same.failed step fails
    refine ⟨k, by simpa [fails] using replayed, same', ?_⟩
    rw [evicted, noted, evictedBetween_of_dev dev, List.append_nil]
  | false =>
    obtain ⟨twin', step', same'⟩ := same.step step fails
    have next := Run.single (Journal.step_noted step')
    refine ⟨_, by simpa [fails] using replayed.append next, same', ?_⟩
    rw [evicted, noted, same.evictedBetween_eq same']

/-- The module as it was loaded, with nothing overwritten yet. -/
def Journal.start (kernel : Kernel) : Journal := ⟨.start kernel, []⟩

/-- In every run of a loaded module in which every write has at least one byte, the overwritten
entries, the stored ones and the working entry are, end to end, the buffers of the writes that
returned their count. Stored entries are lines, the working entry does not end one, and a write
that fails leaves the device and the file positions as they were: the run without these writes
goes through with the same replies and ends in the same contents. -/
theorem Journal.conservation {heap : KHeap} {env : InitEnv} {calls : List (Op × Reply)}
    {j : Journal} (init : aesdInitModule heap env = (0, kernel))
    (run : Run Journal.Step (.start kernel) calls j)
    (nonempty : ∀ call ∈ calls, call.1.Nonempty) :
    j.evicted.flatten ++ j.module.kernel.stored.flatten ++ j.module.kernel.pending =
      calls.flatMap accepted ∧
    (∀ line ∈ j.module.kernel.stored, line.getLast? = some newline) ∧
    (j.module.kernel.dev.wipEntry = .zero ∨
      j.module.kernel.dev.wipEntry.buffptr.isSome ∧
        j.module.kernel.dev.wipEntry.size = j.module.kernel.pending.length ∧
        ∃ b, j.module.kernel.pending.getLast? = some b ∧ b ≠ newline) ∧
    (∀ before call after m m', calls = before ++ call :: after → failedWrite call = true →
      Run Journal.Step (.start kernel) before m → Journal.Step m call m' →
      m'.module.kernel.dev = m.module.kernel.dev ∧
        m'.module.kernel.stored = m.module.kernel.stored ∧
        m'.module.kernel.pending = m.module.kernel.pending ∧ m'.module.fPos = m.module.fPos ∧
        m'.evicted = m.evicted) ∧
    ∃ k, Run Journal.Step (.start kernel) (calls.filter fun call => !failedWrite call) k ∧
      k.module.kernel.dev = j.module.kernel.dev ∧
      k.module.kernel.stored = j.module.kernel.stored ∧
      k.module.kernel.pending = j.module.kernel.pending ∧ k.module.fPos = j.module.fPos ∧
      k.evicted = j.evicted := by
  obtain ⟨base, fresh⟩ := aesdInitModule_holds init
  have start : Conserves [] (.start kernel) :=
    ⟨base, [], none, heap, fresh, ⟨by simp, by simp⟩, rfl⟩
  have conserves : Conserves calls j :=
    run.history (P := fun calls j => (∀ call ∈ calls, call.1.Nonempty) → Conserves calls j)
      (fun _ => start)
      (fun calls call m m' _ ih step nonempty =>
        (ih fun c hc => nonempty c (List.mem_append_left _ hc)).step (nonempty call (by simp))
          step) nonempty
  obtain ⟨base', ring, wip, frame, h, framed, law⟩ := conserves
  have pending := h.pending_eq
  refine ⟨?_, ?_, ?_, ?_, ?_⟩
  · rw [h.stored_eq, pending, law]
  · intro line hline
    rw [h.stored_eq] at hline
    obtain ⟨x, hx, rfl⟩ := List.mem_map.mp hline
    exact framed.lines x hx
  · rw [h.wipEntry, pending]
    cases wip with
    | none => exact .inl rfl
    | some w => exact .inr ⟨rfl, rfl, framed.open_ w rfl⟩
  · rintro before ⟨op, reply⟩ after m m' - fails run' ⟨step, noted⟩
    obtain ⟨base', ring, wip, frame, h⟩ :=
      Loaded.Reachable.holds ⟨heap, env, kernel, before, init, Journal.forget run'⟩
    obtain ⟨dev, same⟩ := (Twin.refl h).failed step fails
    refine ⟨dev, same.stored_eq.symm, same.pending_eq.symm, same.fPos_eq.symm, ?_⟩
    rw [noted, evictedBetween_of_dev dev, List.append_nil]
  · obtain ⟨k, replayed, same, evicted⟩ := Journal.replay run ⟨base, [], none, heap, fresh⟩
    exact ⟨k, replayed, same.dev_eq, same.stored_eq, same.pending_eq, same.fPos_eq, evicted⟩

/-- Half a line, a write that the copy from the user fails, and the other half. -/
theorem conservation_of_split_line : ∃ j : Journal,
    j.module.kernel.stored = [[97, 98, newline]] ∧
    j.evicted.flatten ++ j.module.kernel.stored.flatten ++ j.module.kernel.pending =
      [97, 98, newline] := by
  let loaded := aesdInitModule ∅ ⟨0, some ⟨1, fun _ => 0⟩, 0⟩
  let calls : List (Op × Reply) :=
    [(.openFile 0, ⟨0, []⟩),
      (.write 0 ⟨[97], by decide⟩ { allocation := some ⟨2, fun _ => 0⟩ }, ⟨1, []⟩),
      (.write 0 ⟨[newline], by decide⟩ { allocation := some ⟨3, fun _ => 0⟩, uncopied := 1 },
        ⟨-efault, []⟩),
      (.write 0 ⟨[98, newline], by decide⟩ { allocation := some ⟨4, fun _ => 0⟩ }, ⟨2, []⟩)]
  have run : Run Journal.Step (.start loaded.2) calls _ :=
    .cons (Journal.step_noted rfl) (.cons (Journal.step_noted rfl) (.cons (Journal.step_noted rfl)
      (.cons (Journal.step_noted rfl) (.nil _))))
  have init : loaded = (0, loaded.2) := rfl
  have nonempty : ∀ call ∈ calls, call.1.Nonempty := by simp [calls, Op.Nonempty]
  have law := (Journal.conservation init run nonempty).1
  exact ⟨_, rfl, law⟩

end Aesd.Driver
