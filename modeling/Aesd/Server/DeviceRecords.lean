import Aesd.Driver.Conservation
import Aesd.Server.Orderly
import Aesd.Server.Records

/-! What the server that keeps its data in the device has stored, whatever calls fail. Seen from the
device, the threads are writers of a log under a lock, as they are in the file: the log is what the
ring gave up, what it holds, and what waits for the end of its line. When packets are lines that one
`write` takes, no line ever waits, and the lock does nothing for the log. -/

namespace Aesd.Driver

open Aesd.CInt ProofKit

variable {d d' : Loaded} {op : Op} {reply : Reply}

/-- The entries that storing `bytes` pushes out. -/
def pushedOut (stored : List (List UInt8)) (pending bytes : List UInt8) (stray : UInt8) :
    List (List UInt8) :=
  if lastByte (pending ++ bytes) stray = newline then outdated 10 (stored ++ [pending ++ bytes])
  else []

/-- What is pushed out, stored and waiting is the old bytes and the new ones. -/
theorem pushedOut_appended (stored : List (List UInt8)) (pending bytes : List UInt8)
    (stray : UInt8) :
    (pushedOut stored pending bytes stray).flatten ++
        (appended stored pending bytes stray).1.flatten ++
        (appended stored pending bytes stray).2 =
      stored.flatten ++ pending ++ bytes := by
  unfold pushedOut appended
  split
  · rw [← List.flatten_append, outdated_append_window]
    simp
  · simp

/-- What an operation did with the data of the device. -/
inductive DataStep (d : Loaded) (op : Op) (reply : Reply) (d' : Loaded) : Prop
  | appended (file : Nat) (buf : UserBuf) (env : WriteEnv) (written : op = .write file buf env)
      (count : reply.retval = buf.bytes.length)
      (evicted : evictedBetween d.kernel d'.kernel =
        pushedOut d.kernel.stored d.kernel.pending buf.bytes env.stray)
      (data : (d'.kernel.stored, d'.kernel.pending) =
        Driver.appended d.kernel.stored d.kernel.pending buf.bytes env.stray)
  | kept (evicted : evictedBetween d.kernel d'.kernel = [])
      (stored : d'.kernel.stored = d.kernel.stored) (pending : d'.kernel.pending = d.kernel.pending)
      (refused : ∀ file buf env, op = .write file buf env → reply.retval < 0)

theorem Loaded.Owned.dataStep (own : d.Owned) (step : d.step op = .ok (d', reply)) :
    DataStep d op reply d' := by
  obtain ⟨base, ring, wip, frame, h⟩ := own
  cases Loaded.step_cases h step with
  | @written file buf env found d' ok allocation fPos buffer holds =>
    refine .appended file buf env rfl rfl ?_ ?_
    · rw [h.evictedBetween_eq buffer, pushedOut, h.stored_eq]
      simp [map_outdated]
    · rw [holds.stored_eq, holds.pending_eq, h.stored_eq, Driver.appended, flush]
      split
      · simp [map_window]
      · rfl
  | @failed file buf env frame' d' retval bad negative dev fPos holds =>
    refine .kept (evictedBetween_of_dev dev) ?_ ?_ fun _ _ _ _ => negative
    · rw [holds.stored_eq, h.stored_eq]
    · rw [holds.pending_eq, h.pending_eq]
  | other notWrite kernel =>
    refine .kept (evictedBetween_of_dev (congrArg Kernel.dev kernel)) ?_ ?_ ?_
    · rw [kernel]
    · rw [kernel]
    · rintro file buf env rfl
      exact absurd rfl (notWrite file buf env)

end Aesd.Driver

namespace Aesd.Server

open Aesd.CInt Aesd.Driver ProofKit

def DeviceCall.acquires (call : DeviceCall) : List Nat :=
  match call.event with
  | .lock 0 => [call.conn]
  | _ => []

/-- The error that a call of `pthread_mutex_lock` or `pthread_mutex_unlock` reports. -/
def DeviceCall.mutexError (call : DeviceCall) : Nat :=
  match call.event with
  | .lock error | .unlock error => error
  | _ => 0

/-- The call of `putchars` that has just returned to connection `i`: its packet, and whether it was
written. -/
def DeviceServer.returns (s : DeviceServer) (i : Nat) : List (Nat × List UInt8 × Bool) :=
  match (s.conn i).writeStatus with
  | some returned => [(i, (s.conn i).packet, decide (returned = 0))]
  | none => []

/-- A run that notes down the entries that the ring gave up, who acquired the mutex, and which calls
of `putchars` returned. -/
structure DeviceLedger where
  server : DeviceServer
  evicted : List (List UInt8)
  acquired : List Nat
  records : List (Nat × List UInt8 × Bool)

namespace DeviceLedger

/-- What is noted down of a call after which the server is `s`. -/
def next (l : DeviceLedger) (call : DeviceCall) (s : DeviceServer) : DeviceLedger where
  server := s
  evicted := l.evicted ++ evictedBetween l.server.module.kernel s.module.kernel
  acquired := l.acquired ++ call.acquires
  records := l.records ++ s.returns call.conn

def Step (l : DeviceLedger) (call : DeviceCall) (l' : DeviceLedger) : Prop :=
  ∃ s, l.server.Step call s ∧ l' = l.next call s

/-- All bytes that the driver took, in order. -/
def log (l : DeviceLedger) : List UInt8 :=
  l.evicted.flatten ++ l.server.contents ++ l.server.pending

/-- The log under a lock that the device is. -/
def view (l : DeviceLedger) : LockedLog Nat UInt8 where
  log := l.log
  owner := l.server.mutex
  stage i := (l.server.conn i).stage
  entered := l.acquired
  records := l.records

/-- The server before any connection, with nothing noted down. -/
def start (kernel : Kernel) : DeviceLedger := ⟨.start kernel, [], [], []⟩

end DeviceLedger

/-! What a call does to the data of the device and to the mutex, whether it fails or not. -/

namespace DeviceServer

variable {s e : DeviceServer} {call : DeviceCall}

/-- Only a `write` that took bytes changes the data. -/
theorem effect_kept (own : s.module.Owned) (effect : s.effect call = some e)
    (notWrite : ∀ bytesSent, call.event ≠ .write (some bytesSent)) :
    evictedBetween s.module.kernel e.module.kernel = [] ∧ e.stored = s.stored ∧
      e.pending = s.pending := by
  have same : evictedBetween s.module.kernel s.module.kernel = [] := evictedBetween_of_dev rfl
  by_cases opened : call.event = .openFile false
  · simp only [DeviceServer.effect, opened, if_true] at effect
    cases effect
    exact ⟨same, rfl, rfl⟩
  cases onDevice : (s.conn call.conn).pc.op call.conn call.env with
  | some op =>
    obtain ⟨d, reply, step, returned, rfl⟩ := effect_of_op effect opened onDevice
    cases own.dataStep step with
    | kept evicted stored pending => exact ⟨evicted, stored, pending⟩
    | appended file buf env written count =>
      exfalso
      cases pc : (s.conn call.conn).pc with
      | write chars =>
        simp only [pc, Pc.returns, count, Option.some.injEq] at returned
        exact notWrite _ (returned.symm.trans (by rw [if_neg (by omega)]))
      | _ => simp [pc, Pc.op, written] at onDevice
  | none =>
    simp only [DeviceServer.effect, if_neg opened, onDevice] at effect
    repeat' split at effect
    all_goals first | contradiction | (cases effect; exact ⟨same, rfl, rfl⟩)

theorem effect_mutex (effect : s.effect call = some e)
    (notLock : ∀ error, call.event ≠ .lock error)
    (notUnlock : ∀ error, call.event ≠ .unlock error) : e.mutex = s.mutex := by
  unfold DeviceServer.effect at effect
  simp only at effect
  repeat' split at effect
  all_goals first
    | contradiction
    | exact absurd ‹_› (notLock _)
    | exact absurd ‹_› (notUnlock _)
    | (cases effect; rfl)

/-- A `write` that took bytes took as many as the driver gets of them, and added them. -/
theorem effect_write (own : s.module.Owned) (effect : s.effect call = some e) {chars : Putchars}
    (pc : (s.conn call.conn).pc = .write chars) {bytesSent : Nat}
    (wrote : call.event = .write (some bytesSent)) :
    bytesSent = (chunk chars).length ∧ e.mutex = s.mutex ∧
      evictedBetween s.module.kernel e.module.kernel =
        pushedOut s.stored s.pending (chunk chars) call.env.stray ∧
      (e.stored, e.pending) = appended s.stored s.pending (chunk chars) call.env.stray := by
  obtain ⟨d, reply, step, returned, rfl⟩ :=
    effect_of_op effect (by simp [wrote]) (by rw [pc]; rfl)
  simp only [pc, Pc.returns, wrote, Option.some.injEq, Event.write.injEq] at returned
  split at returned
  · contradiction
  · rename_i ok
    cases own.dataStep step with
    | appended file buf env written count evicted data =>
      cases written
      refine ⟨?_, rfl, evicted, data⟩
      rw [← Option.some.inj returned, count]
      rfl
    | kept _ _ _ refused => exact absurd (refused _ _ _ rfl) ok

end DeviceServer

/-! Each call is a few steps of the log under a lock. -/

namespace DeviceLedger

variable {l : DeviceLedger} {i : Nat} {event : Event} {env : CallEnv} {h : ConnHandler}
  {e : DeviceServer}

theorem log_next (call : DeviceCall) (s : DeviceServer) :
    (l.next call s).log =
      l.evicted.flatten ++ (evictedBetween l.server.module.kernel s.module.kernel).flatten ++
        s.contents ++ s.pending := by
  simp [log, next]

theorem log_kept {call : DeviceCall}
    (evicted : evictedBetween l.server.module.kernel e.module.kernel = [])
    (stored : e.stored = l.server.stored) (pending : e.pending = l.server.pending) :
    (l.next call e).log = l.log := by
  have contents : e.contents = l.server.contents := congrArg List.flatten stored
  rw [log_next, evicted, contents, pending]
  simp [log]

theorem log_appended {call : DeviceCall} {bytes : List UInt8} {stray : UInt8}
    (evicted : evictedBetween l.server.module.kernel e.module.kernel =
      pushedOut l.server.stored l.server.pending bytes stray)
    (data : (e.stored, e.pending) = appended l.server.stored l.server.pending bytes stray) :
    (l.next call e).log = l.log ++ bytes := by
  have added := pushedOut_appended l.server.stored l.server.pending bytes stray
  rw [← data, List.append_assoc] at added
  rw [log_next, evicted, List.append_assoc, List.append_assoc]
  exact (congrArg (l.evicted.flatten ++ ·) added).trans (by
    simp [log, DeviceServer.contents, DeviceServer.stored, Kernel.contents])

/-- The log under a lock after a call that left the thread as `h`. -/
theorem view_next (call : DeviceCall) :
    (l.next call { e with conn := Function.update l.server.conn call.conn h }).view =
      { log := (l.next call e).log
        owner := e.mutex
        stage := Function.update l.view.stage call.conn h.stage
        entered := l.acquired ++ call.acquires
        records := l.records ++ match h.writeStatus with
          | some returned => [(call.conn, h.packet, decide (returned = 0))]
          | none => [] } := by
  have stage : (fun j => (Function.update l.server.conn call.conn h j).stage) =
      Function.update l.view.stage call.conn h.stage := by
    funext j
    by_cases mine : j = call.conn
    · subst mine
      simp
    · simp [Function.update_of_ne mine, view]
  simp only [view, next, DeviceServer.returns, Function.update_self, stage]
  rfl

/-- A call of a thread that has nothing to do with the log, before and after. -/
theorem simulates_other (own : l.server.module.Owned)
    (effect : l.server.effect ⟨i, event, env⟩ = some e)
    (before : (l.server.conn i).stage = .outside) (after : h.stage = .outside)
    (status : h.writeStatus = none) (notLock : ∀ error, event ≠ .lock error)
    (notUnlock : ∀ error, event ≠ .unlock error)
    (notWrite : ∀ bytesSent, event ≠ .write (some bytesSent)) :
    (l.next ⟨i, event, env⟩ { e with conn := Function.update l.server.conn i h }).view =
      l.view := by
  obtain ⟨evicted, stored, pending⟩ := DeviceServer.effect_kept own effect notWrite
  have stage : Function.update l.view.stage i .outside = l.view.stage :=
    Function.update_eq_self_iff.mpr before.symm
  have none : DeviceCall.acquires ⟨i, event, env⟩ = [] := by
    unfold DeviceCall.acquires
    split
    · rename_i lock
      exact absurd lock (notLock 0)
    · rfl
  rw [view_next ⟨i, event, env⟩, log_kept evicted stored pending,
    DeviceServer.effect_mutex effect notLock notUnlock, after, status, stage, none]
  simp [view]

theorem simulates_unlock {writeStatus : Int} (own : l.server.module.Owned)
    (effect : l.server.effect ⟨i, .unlock 0, env⟩ = some e)
    (pc : (l.server.conn i).pc = .unlock writeStatus) (after : h.stage = .outside)
    (status : h.writeStatus = none) :
    LockedLog.Step l.view i
      (l.next ⟨i, .unlock 0, env⟩ { e with conn := Function.update l.server.conn i h }).view := by
  obtain ⟨evicted, stored, pending⟩ := DeviceServer.effect_kept own effect (by simp)
  have free : e = { l.server with mutex := none } := by
    simpa [DeviceServer.effect, pc, Pc.op] using effect.symm
  have before : l.view.stage i = .written := by simp [view, ConnHandler.stage, pc]
  rw [view_next ⟨i, .unlock 0, env⟩, log_kept evicted stored pending, free, after, status]
  convert LockedLog.Step.leave before using 1
  simp [view, DeviceCall.acquires]

theorem simulates (own : l.server.module.Owned) (writing : (l.server.conn i).Writing)
    (moves : (l.server.conn i).step true event = some h)
    (effect : l.server.effect ⟨i, event, env⟩ = some e)
    (ok : DeviceCall.mutexError ⟨i, event, env⟩ = 0) :
    ∃ ts, Run LockedLog.Step l.view ts
      (l.next ⟨i, event, env⟩ { e with conn := Function.update l.server.conn i h }).view := by
  have other := simulates_other (h := h) own effect
  cases ConnHandler.step_moves moves with
  | lock pc error =>
    obtain rfl : error = 0 := ok
    have free : l.server.mutex = none ∧ e = { l.server with mutex := some i } := by
      simp only [DeviceServer.effect, pc, Pc.op, reduceCtorEq, if_false, ne_eq,
        not_true_eq_false] at effect
      split at effect
      · rename_i free
        exact ⟨free, (Option.some.inj effect).symm⟩
      · contradiction
    obtain ⟨evicted, stored, pending⟩ := DeviceServer.effect_kept own effect (by simp)
    have after := (l.server.conn i).stage_writePc (.start (l.server.conn i).packet) rfl
    obtain ⟨ts, run⟩ := LockedLog.run_enter (s := l.view) (t := i) (l.server.conn i).packet free.1
    refine ⟨ts, ?_⟩
    rw [view_next ⟨i, .lock 0, env⟩, log_kept evicted stored pending, after.1, after.2, free.2]
    convert run using 1
    by_cases whole : [] = (l.server.conn i).packet <;>
      simp [view, DeviceCall.acquires, LockedLog.completes, Putchars.start, whole]
  | write chars pc bytesSent le =>
    obtain ⟨rfl, mutex, evicted, data⟩ := DeviceServer.effect_write own effect pc rfl
    obtain ⟨buffer, -⟩ := writing chars pc
    have before : l.view.stage i = .writing (l.server.conn i).packet chars.done := by
      simp [view, ConnHandler.stage, pc]
    have fits : chars.done ++ chunk chars <+: (l.server.conn i).packet :=
      buffer ▸ chars.advance_fits maxRwCount
    have done := (chunk_advance chars).1
    have after := (l.server.conn i).stage_writePc (chars.advance (chunk chars).length)
      ((chars.advance_buffer _).trans buffer)
    rw [done] at after
    obtain ⟨ts, run⟩ := LockedLog.run_append (chunk chars) before fits
    refine ⟨ts, ?_⟩
    rw [view_next ⟨i, .write (some (chunk chars).length), env⟩, log_appended evicted data, mutex,
      after.1, after.2]
    convert run using 1
    by_cases whole : chars.done ++ chunk chars = (l.server.conn i).packet <;>
      simp [view, DeviceCall.acquires, LockedLog.completes, whole]
  | writeFailed chars pc =>
    obtain ⟨evicted, stored, pending⟩ := DeviceServer.effect_kept own effect (by simp)
    obtain ⟨buffer, more⟩ := writing chars pc
    have before : l.view.stage i = .writing (l.server.conn i).packet chars.done := by
      simp [view, ConnHandler.stage, pc]
    have short : chars.done ≠ (l.server.conn i).packet := by
      rwa [← buffer, Ne, chars.done_eq_iff]
    refine ⟨[i], .single ?_⟩
    rw [view_next ⟨i, .write none, env⟩, log_kept evicted stored pending,
      DeviceServer.effect_mutex effect (by simp) (by simp)]
    convert LockedLog.Step.giveUp before short using 1
    simp [view, DeviceCall.acquires, ConnHandler.stage, ConnHandler.writeStatus]
  | unlock writeStatus pc => exact ⟨[i], .single (simulates_unlock own effect pc rfl rfl)⟩
  | unlockFailed writeStatus pc error =>
    obtain rfl : error = 0 := ok
    exact ⟨[i], .single (simulates_unlock own effect pc rfl rfl)⟩
  | getline pc packet =>
    have outside : (ConnHandler.dispatch true { l.server.conn i with packet }).stage = .outside ∧
        (ConnHandler.dispatch true { l.server.conn i with packet }).writeStatus = none := by
      unfold ConnHandler.stage ConnHandler.writeStatus
      rcases ConnHandler.dispatch_pc true { l.server.conn i with packet } with
        next | next | ⟨seekto, next⟩ <;> simp [next]
    rw [other (by simp [ConnHandler.stage, pc]) outside.1 outside.2 (by simp) (by simp) (by simp)]
    exact ⟨[], .nil _⟩
  | send chars pc bytesSent le =>
    have outside := ConnHandler.outside_sendPc (l.server.conn i) (chars.advance bytesSent)
    rw [other (by simp [ConnHandler.stage, pc]) outside.1 outside.2 (by simp) (by simp) (by simp)]
    exact ⟨[], .nil _⟩
  | _ =>
    rw [other (by simp [ConnHandler.stage, *]) rfl rfl (by simp) (by simp) (by simp)]
    exact ⟨[], .nil _⟩

/-- A run in which the mutex works is a run of a log under a lock. -/
theorem run_simulates {kernel : Kernel} {calls : List DeviceCall} {heap : KHeap} {initEnv : InitEnv}
    (init : aesdInitModule heap initEnv = (0, kernel)) (run : Run Step (.start kernel) calls l)
    (ok : ∀ call ∈ calls, call.mutexError = 0) :
    l.server.module.Owned ∧ (∀ i, (l.server.conn i).Writing) ∧
      ∃ ts, Run LockedLog.Step (start kernel).view ts l.view := by
  refine run.history (P := fun calls l => (∀ call ∈ calls, call.mutexError = 0) →
    l.server.module.Owned ∧ (∀ i, (l.server.conn i).Writing) ∧
      ∃ ts, Run LockedLog.Step (start kernel).view ts l.view) ?_ ?_ ok
  · intro _
    refine ⟨(Orderly.start init).owned, fun i => ConnHandler.writing_of_ne ?_, [], .nil _⟩
    simp [start, DeviceServer.start, ConnHandler.start]
  rintro earlier ⟨i, event, env⟩ l l' - ih ⟨s', step, rfl⟩ ok
  obtain ⟨own, writing, ts, run⟩ := ih fun call mem => ok call (List.mem_append_left _ mem)
  have own' := DeviceServer.step_owned own step
  obtain ⟨h, e, moves, effect, rfl⟩ := DeviceServer.step_eq_some step
  obtain ⟨us, more⟩ := simulates own (writing i) moves effect (ok ⟨i, event, env⟩ (by simp))
  refine ⟨own', fun j => ?_, ts ++ us, run.append more⟩
  by_cases mine : j = i
  · subst mine
    simpa [next] using (writing j).step moves
  · simpa [next, Function.update_of_ne mine] using writing j

theorem intact {kernel : Kernel} {calls : List DeviceCall} {heap : KHeap} {initEnv : InitEnv}
    (init : aesdInitModule heap initEnv = (0, kernel)) (run : Run Step (.start kernel) calls l)
    (ok : ∀ call ∈ calls, call.mutexError = 0) : l.view.Intact [] := by
  obtain ⟨-, -, ts, run⟩ := run_simulates init run ok
  obtain ⟨base, fresh⟩ := aesdInitModule_holds init
  have empty : (start kernel).log = [] := by
    have stored : kernel.stored = [] := fresh.stored_eq
    have pending : kernel.pending = [] := fresh.pending_eq
    simp [log, start, DeviceServer.contents, DeviceServer.start, Loaded.start, Kernel.contents,
      DeviceServer.pending, stored, pending]
  have first : (start kernel).view = ⟨[], none, fun _ => .outside, [], []⟩ := by
    rw [← empty]
    rfl
  exact (first ▸ LockedLog.intact_start []).run run

/-- The step that notes down what the server did. -/
def step (l : DeviceLedger) (call : DeviceCall) : Option DeviceLedger :=
  (l.server.step call).map (l.next call)

theorem step_of_eq_some {call : DeviceCall} {l' : DeviceLedger}
    (went : l.step call = some l') : Step l call l' := by
  obtain ⟨s, step, rfl⟩ := Option.map_eq_some_iff.mp went
  exact ⟨s, step, rfl⟩

end DeviceLedger

/-- In a run in which the mutex works, whatever else fails, what the driver took is one block for
each call of `putchars` that returned, in the order in which the mutex was acquired, and then the
part of its packet that the owner of the mutex has written so far. The block is the packet of the
call if it returned 0, and a proper beginning of it otherwise. -/
theorem device_records {kernel : Kernel} {calls : List DeviceCall} {heap : KHeap}
    {initEnv : InitEnv} {l : DeviceLedger} (init : aesdInitModule heap initEnv = (0, kernel))
    (run : Run DeviceLedger.Step (.start kernel) calls l)
    (ok : ∀ call ∈ calls, call.mutexError = 0) :
    ∃ blocks current, l.evicted.flatten ++ l.server.contents ++ l.server.pending =
        blocks.flatten ++ current ∧
      List.Forall₂ LockedLog.Kept l.records blocks ∧
      match l.server.mutex with
      | none => current = [] ∧ l.acquired = l.records.map Prod.fst
      | some i => current <+: (l.server.conn i).packet ∧
        (l.acquired = l.records.map Prod.fst ++ [i] ∨
          l.acquired = l.records.map Prod.fst ∧ current = []) := by
  obtain ⟨blocks, current, log, kept, inside⟩ := DeviceLedger.intact init run ok
  refine ⟨blocks, current, log, kept, ?_⟩
  cases mutex : l.server.mutex with
  | none =>
    obtain ⟨rfl, acquired, -⟩ := inside.free mutex
    exact ⟨rfl, acquired⟩
  | some i =>
    rcases inside.owned mutex with ⟨record, stage, front, acquired⟩ | ⟨-, rfl, acquired⟩
    · have packet : record = (l.server.conn i).packet := by
        simp only [DeviceLedger.view, ConnHandler.stage] at stage
        split at stage
        · exact (Stage.writing.inj stage).1.symm
        · contradiction
        · contradiction
      exact ⟨packet ▸ front, .inl acquired⟩
    · exact ⟨List.nil_prefix, .inr ⟨acquired, rfl⟩⟩

/-- Connection 0 stores its line, and connection 1 gets no memory for its own. -/
def onlyFirstStores : List DeviceCall :=
  [⟨0, .openFile true, {}⟩, ⟨0, .getline (some [97, newline]), {}⟩, ⟨1, .openFile true, {}⟩,
    ⟨1, .getline (some [98, newline]), {}⟩, ⟨0, .lock 0, {}⟩,
    ⟨0, .write (some 2), { allocation := some ⟨2, fun _ => 0⟩ }⟩, ⟨0, .unlock 0, {}⟩,
    ⟨1, .lock 0, {}⟩, ⟨1, .write none, {}⟩]

/-- The block of the call that failed is empty. -/
theorem device_records_of_failure : ∃ blocks : List (List UInt8), ∃ current : List UInt8,
    [97, newline] = blocks.flatten ++ current ∧
      List.Forall₂ LockedLog.Kept [((0 : Nat), [97, newline], true), (1, [98, newline], false)]
        blocks := by
  have result : (execute DeviceLedger.step (fun _ => true) (.start loadedKernel)
      onlyFirstStores).map (fun l => (l.log, l.records)) =
        some ([97, newline], [(0, [97, newline], true), (1, [98, newline], false)]) := by
    decide +kernel
  obtain ⟨l, executed, facts⟩ := Option.map_eq_some_iff.mp result
  obtain ⟨log, records⟩ := Prod.mk.inj facts
  have run : Run DeviceLedger.Step (.start loadedKernel) onlyFirstStores l :=
    Run.of_execute (fun _ _ _ _ went => DeviceLedger.step_of_eq_some went) executed
  obtain ⟨blocks, current, bytes, kept, -⟩ := device_records loadedKernel_eq run (by decide +kernel)
  exact ⟨blocks, current, log.symm.trans bytes, records ▸ kept⟩

/-! Packets that are lines, each short enough for one `write`. -/

/-- A packet that one call of the driver stores. -/
def IsRecord (packet : List UInt8) : Prop := IsLine packet ∧ packet.length ≤ maxRwCount

instance (packet : List UInt8) : Decidable (IsRecord packet) :=
  inferInstanceAs (Decidable (_ ∧ _))

theorem IsRecord.chunk {packet : List UInt8} (record : IsRecord packet) :
    chunk (.start packet) = packet := List.take_of_length_le record.2

theorem IsRecord.ne_nil {packet : List UInt8} (record : IsRecord packet) : packet ≠ [] := by
  obtain ⟨body, rfl, -⟩ := record.1.eq_append
  simp

namespace ConnHandler

/-- The thread has its packet before it locks the mutex, and all of it to write after that. -/
def Placed (h : ConnHandler) : Prop :=
  match h.pc with
  | .lock => IsRecord h.packet
  | .write chars => chars = .start h.packet ∧ IsRecord h.packet
  | _ => True

/-- The thread will not call `putchars` any more. -/
def Through (h : ConnHandler) : Prop :=
  match h.pc with
  | .openFile | .getline | .lock | .write _ => False
  | _ => True

end ConnHandler

namespace DeviceLedger

/-- The packets that were written, in order. -/
def lines (l : DeviceLedger) : List (List UInt8) :=
  (l.records.filter fun record => record.2.2).map fun record => record.2.1

/-- The ring holds the last ten packets written, no bytes wait, and no thread wrote twice. -/
structure Tidy (l : DeviceLedger) : Prop where
  own : l.server.module.Owned
  waiting : l.server.pending = []
  placed : ∀ i, (l.server.conn i).Placed
  once : (l.records.map Prod.fst).Nodup
  through : ∀ i ∈ l.records.map Prod.fst, (l.server.conn i).Through
  whole : l.evicted ++ l.server.stored = l.lines
  recent : l.server.stored = window 10 l.lines

variable {l : DeviceLedger} {i : Nat} {event : Event} {env : CallEnv} {h : ConnHandler}
  {e : DeviceServer}

/-- After a call that left the thread as `h`, and the data as they were unless a packet was
written. -/
theorem Tidy.next (tidy : l.Tidy) {call : DeviceCall} (own : e.module.Owned)
    (waiting : e.pending = []) (placed : h.Placed) (noted : List (Nat × List UInt8 × Bool))
    (records : (l.next call { e with conn := Function.update l.server.conn call.conn h }).records =
      l.records ++ noted)
    (once : noted.map Prod.fst = [] ∨
      noted.map Prod.fst = [call.conn] ∧ ¬ (l.server.conn call.conn).Through ∧ h.Through)
    (through : (l.server.conn call.conn).Through → h.Through)
    (data : evictedBetween l.server.module.kernel e.module.kernel ++ e.stored =
      l.server.stored ++ (noted.filter fun record => record.2.2).map fun record => record.2.1)
    (recent : e.stored = window 10
      (l.server.stored ++ (noted.filter fun record => record.2.2).map fun record => record.2.1)) :
    (l.next call { e with conn := Function.update l.server.conn call.conn h }).Tidy := by
  have conn (j : Nat) (ne : j ≠ call.conn) :
      (l.next call { e with conn := Function.update l.server.conn call.conn h }).server.conn j =
        l.server.conn j := Function.update_of_ne ne ..
  have lines : (l.next call { e with conn := Function.update l.server.conn call.conn h }).lines =
      l.lines ++ (noted.filter fun record => record.2.2).map fun record => record.2.1 := by
    simp [DeviceLedger.lines, records]
  refine ⟨own, waiting, fun j => ?_, ?_, fun j mem => ?_, ?_, ?_⟩
  · by_cases mine : j = call.conn
    · subst mine
      simpa [DeviceLedger.next] using placed
    · rw [conn j mine]
      exact tidy.placed j
  · rw [records, List.map_append]
    rcases once with none | ⟨one, before, -⟩
    · rw [none, List.append_nil]
      exact tidy.once
    · rw [one, List.nodup_append]
      refine ⟨tidy.once, List.nodup_singleton _, fun j old k new => ?_⟩
      rintro rfl
      exact before (List.mem_singleton.mp new ▸ tidy.through j old)
  · rw [records, List.map_append, List.mem_append] at mem
    by_cases mine : j = call.conn
    · subst mine
      have after : h.Through := by
        rcases mem with old | new
        · exact through (tidy.through _ old)
        · rcases once with none | ⟨-, -, after⟩
          · simp [none] at new
          · exact after
      simpa [DeviceLedger.next] using after
    · rw [conn j mine]
      refine tidy.through j (mem.resolve_right fun new => ?_)
      rcases once with none | ⟨one, -⟩
      · simp [none] at new
      · exact mine (by simpa [one] using new)
  · rw [lines, ← tidy.whole, List.append_assoc, ← data]
    simp [DeviceLedger.next, DeviceServer.stored]
  · rw [lines, ← window_window_append, ← tidy.recent]
    exact recent

/-- After a call that neither wrote to the device nor ended a call of `putchars`. -/
theorem Tidy.quiet (tidy : l.Tidy) (own : e.module.Owned)
    (effect : l.server.effect ⟨i, event, env⟩ = some e)
    (notWrite : ∀ bytesSent, event ≠ .write (some bytesSent)) (placed : h.Placed)
    (status : h.writeStatus = none) (through : (l.server.conn i).Through → h.Through) :
    (l.next ⟨i, event, env⟩ { e with conn := Function.update l.server.conn i h }).Tidy := by
  obtain ⟨evicted, stored, pending⟩ := DeviceServer.effect_kept tidy.own effect notWrite
  refine tidy.next own (pending.trans tidy.waiting) placed [] ?_ (.inl rfl) through ?_ ?_
  · simp [DeviceLedger.next, DeviceServer.returns, status]
  · simp [evicted, stored]
  · rw [stored, tidy.recent]
    simpa using (window_window_append []).symm

theorem Tidy.step (tidy : l.Tidy) (moves : (l.server.conn i).step true event = some h)
    (effect : l.server.effect ⟨i, event, env⟩ = some e)
    (records : ∀ packet ∈ event.received, IsRecord packet) :
    (l.next ⟨i, event, env⟩ { e with conn := Function.update l.server.conn i h }).Tidy := by
  have step := DeviceServer.step_of_effect moves effect
  have own := DeviceServer.step_owned tidy.own step
  have placed := tidy.placed i
  unfold ConnHandler.Placed at placed
  cases ConnHandler.step_moves moves with
  | lock pc error =>
    simp only [pc] at placed
    have next : ConnHandler.writePc (.start (l.server.conn i).packet) =
      .write (.start (l.server.conn i).packet) := if_neg placed.ne_nil
    rw [next]
    refine tidy.quiet own effect (by simp) ⟨rfl, placed⟩ rfl ?_
    simp [ConnHandler.Through, pc]
  | write chars pc bytesSent le =>
    simp only [pc] at placed
    obtain ⟨rfl, record⟩ := placed
    obtain ⟨rfl, -, evicted, data⟩ := DeviceServer.effect_write tidy.own effect pc rfl
    have ended : lastByte (l.server.conn i).packet env.stray = newline :=
      (record.1.lastByte_iff (List.prefix_refl _) record.ne_nil _).mpr rfl
    have left := (chunk_advance (.start (l.server.conn i).packet)).2.mpr record.2
    have next : ConnHandler.writePc ((Putchars.start (l.server.conn i).packet).advance
        (chunk (.start (l.server.conn i).packet)).length) = .unlock 0 := if_pos left
    rw [tidy.waiting, record.chunk, pushedOut, List.nil_append, if_pos ended] at evicted
    rw [tidy.waiting, record.chunk, appended, List.nil_append, if_pos ended] at data
    obtain ⟨stored, pending⟩ := Prod.mk.inj data
    rw [next]
    refine tidy.next own pending trivial [(i, (l.server.conn i).packet, true)] ?_
      (.inr ⟨rfl, by simp [ConnHandler.Through, pc], trivial⟩) (fun _ => trivial) ?_ ?_
    · simp [DeviceLedger.next, DeviceServer.returns, ConnHandler.writeStatus]
    · rw [evicted, stored, outdated_append_window]
      rfl
    · exact stored
  | writeFailed chars pc =>
    obtain ⟨evicted, stored, pending⟩ := DeviceServer.effect_kept tidy.own effect (by simp)
    refine tidy.next own (pending.trans tidy.waiting) trivial [(i, (l.server.conn i).packet, false)]
      ?_ (.inr ⟨rfl, by simp [ConnHandler.Through, pc], trivial⟩) (fun _ => trivial) ?_ ?_
    · simp [DeviceLedger.next, DeviceServer.returns, ConnHandler.writeStatus]
    · simp [evicted, stored]
    · rw [stored, tidy.recent]
      simpa using (window_window_append []).symm
  | getline pc packet =>
    have before : ¬ (l.server.conn i).Through := by simp [ConnHandler.Through, pc]
    have record : IsRecord packet := records packet rfl
    rcases ConnHandler.dispatch_cases { l.server.conn i with packet } with
      ⟨-, next⟩ | ⟨-, ⟨-, next⟩ | ⟨seekto, -, next⟩⟩ <;> rw [next]
    · exact tidy.quiet own effect (by simp) record rfl fun through => absurd through before
    · exact tidy.quiet own effect (by simp) trivial rfl fun through => absurd through before
    · exact tidy.quiet own effect (by simp) trivial rfl fun through => absurd through before
  | send chars pc bytesSent le =>
    have outside := ConnHandler.outside_sendPc (l.server.conn i) (chars.advance bytesSent)
    rcases ConnHandler.sendPc_cases (chars.advance bytesSent) with ⟨-, next⟩ | ⟨-, next⟩ <;>
      rw [next]
    · exact tidy.quiet own effect (by simp) trivial rfl fun _ => trivial
    · exact tidy.quiet own effect (by simp) trivial rfl fun _ => trivial
  | openFile pc | openFailed pc | getlineFailed pc | ioctl _ pc | ioctlFailed _ pc | unlock _ pc
    | unlockFailed _ pc | lseek pc | lseekFailed pc | readEnd pc | read pc | readFailed pc
    | sendFailed _ pc | free pc | closeFd pc | closeConn pc =>
    exact tidy.quiet own effect (by simp) trivial rfl
      (by simp [ConnHandler.Through, ConnHandler.cleanup, pc])

theorem Tidy.run {kernel : Kernel} {calls : List DeviceCall} {heap : KHeap} {initEnv : InitEnv}
    (init : aesdInitModule heap initEnv = (0, kernel)) (run : Run Step (.start kernel) calls l)
    (records : ∀ call ∈ calls, ∀ packet ∈ call.event.received, IsRecord packet) : l.Tidy := by
  refine run.history (P := fun calls l =>
    (∀ call ∈ calls, ∀ packet ∈ call.event.received, IsRecord packet) → l.Tidy) ?_ ?_ records
  · intro _
    obtain ⟨base, fresh⟩ := aesdInitModule_holds init
    have stored : (start kernel).server.stored = [] := fresh.stored_eq
    refine ⟨(Orderly.start init).owned, fresh.pending_eq, fun _ => trivial, List.nodup_nil, ?_, ?_,
      ?_⟩
    · simp [start]
    · rw [stored]
      rfl
    · rw [stored]
      rfl
  rintro earlier ⟨i, event, env⟩ l l' - ih ⟨s', step, rfl⟩ records
  have tidy := ih fun call mem => records call (List.mem_append_left _ mem)
  obtain ⟨h, e, moves, effect, rfl⟩ := DeviceServer.step_eq_some step
  exact tidy.step moves effect (records ⟨i, event, env⟩ (by simp))

end DeviceLedger

/-- When each packet is a line that one `write` takes, whatever calls fail, those of the mutex
included: what the ring gave up and what it holds are the packets of the calls of `putchars` that
returned 0, one entry each and in the order of these calls, no connection has two of them, the ring
holds the last ten, and no byte waits for the end of its line. -/
theorem device_lines {kernel : Kernel} {calls : List DeviceCall} {heap : KHeap} {initEnv : InitEnv}
    {l : DeviceLedger} (init : aesdInitModule heap initEnv = (0, kernel))
    (run : Run DeviceLedger.Step (.start kernel) calls l)
    (records : ∀ call ∈ calls, ∀ packet ∈ call.event.received, IsRecord packet) :
    l.evicted ++ l.server.stored = l.lines ∧ l.server.stored = window 10 l.lines ∧
      (l.records.map Prod.fst).Nodup ∧ l.server.pending = [] := by
  have tidy := DeviceLedger.Tidy.run init run records
  exact ⟨tidy.whole, tidy.recent, tidy.once, tidy.waiting⟩

/-- In the same run only the first line is stored. -/
theorem device_lines_of_failure : ∃ l : DeviceLedger, l.lines = [[97, newline]] ∧
    l.evicted ++ l.server.stored = l.lines ∧ l.server.pending = [] := by
  have result : (execute DeviceLedger.step (fun _ => true) (.start loadedKernel)
      onlyFirstStores).map DeviceLedger.lines = some [[97, newline]] := by
    decide +kernel
  obtain ⟨l, executed, lines⟩ := Option.map_eq_some_iff.mp result
  have run : Run DeviceLedger.Step (.start loadedKernel) onlyFirstStores l :=
    Run.of_execute (fun _ _ _ _ went => DeviceLedger.step_of_eq_some went) executed
  obtain ⟨whole, -, -, waiting⟩ := device_lines loadedKernel_eq run (by decide +kernel)
  exact ⟨l, lines, whole, waiting⟩

end Aesd.Server
