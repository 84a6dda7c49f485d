import Aesd.Driver.Calls
import Aesd.Server.ConnHandler
import Mathlib.Logic.Function.Basic

/-! The server that keeps its data in the device: the threads of the connections take turns, one
call at a time, and what a call on the device returns is decided by the driver. -/

namespace Aesd.Server

open Aesd.CInt Aesd.Driver ProofKit

/-- The loaded module, the threads, the owner of `write_mutex`, and for each connection the bytes
sent on its socket. The open file of connection `i` is file `i` of the module. -/
structure DeviceServer where
  module : Loaded
  conn : Nat → ConnHandler
  mutex : Option Nat
  sent : Nat → List UInt8

/-- What the kernel decides during a call on the device. -/
structure CallEnv where
  interrupted : Bool := false
  uncopied : Nat := 0
  allocation : Option Allocation := none
  stray : UInt8 := 0

/-- A call of the thread of connection `conn` that returned with `event`. -/
structure DeviceCall where
  conn : Nat
  event : Event
  env : CallEnv := {}

/-- `MAX_RW_COUNT`: the kernel passes no more bytes of a `write` on to the driver. -/
def maxRwCount : Nat := 0x7ffff000

/-- What the driver gets of the bytes passed to `write`. -/
def userBuf (bytes : List UInt8) : UserBuf where
  bytes := bytes.take maxRwCount
  short := by
    rw [List.length_take]
    exact Nat.lt_of_le_of_lt (Nat.min_le_left _ _) (by decide)

/-- The operation of the driver that the next call of connection `i` ends up in. -/
def Pc.op (i : Nat) (env : CallEnv) : Pc → Option Op
  | .openFile => some (.openFile i)
  | .ioctl seekto =>
    some (.ioctl i aesdcharIocseekto seekto ⟨env.interrupted, env.uncopied⟩)
  | .write chars =>
    some (.write i (userBuf chars.left)
      ⟨env.interrupted, env.allocation, env.uncopied, env.stray⟩)
  | .lseek => some (.llseek i 0 seekSet env.interrupted)
  | .read => some (.read i connBufsize ⟨env.interrupted, env.uncopied⟩)
  | .closeFd => some (.release i)
  | _ => none

/-- What the thread gets of the driver's reply. A negative value is an error number. -/
def Pc.returns (reply : Reply) : Pc → Option Event
  | .openFile => some (.openFile (0 ≤ reply.retval))
  | .ioctl _ => some (.ioctl (0 ≤ reply.retval))
  | .write _ => some (.write (if reply.retval < 0 then none else some reply.retval.toNat))
  | .lseek => some (.lseek (0 ≤ reply.retval))
  | .read =>
    some (.read (if reply.retval < 0 then none else some (reply.copied.take reply.retval.toNat)))
  | .closeFd => some (.closeFd (0 ≤ reply.retval))
  | _ => none

namespace ConnHandler

/-- The packet of the thread is not a seek command. -/
def isData (h : ConnHandler) : Bool := !seektoPrefix.isPrefixOf h.packet

theorem isData_eq_true {h : ConnHandler} :
    h.isData = true ↔ seektoPrefix.isPrefixOf h.packet = false := by
  simp [isData]

theorem isData_eq_false {h : ConnHandler} :
    h.isData = false ↔ seektoPrefix.isPrefixOf h.packet = true := by
  simp [isData]

theorem dispatch_cases (h : ConnHandler) :
    h.isData = true ∧ dispatch true h = { h with pc := .lock } ∨
      h.isData = false ∧
        (parseSeekto (h.packet.drop seektoPrefix.length) = none ∧ dispatch true h = h.cleanup ∨
          ∃ seekto, parseSeekto (h.packet.drop seektoPrefix.length) = some seekto ∧
            dispatch true h = { h with pc := .ioctl seekto }) := by
  unfold dispatch isData
  cases seek : seektoPrefix.isPrefixOf h.packet with
  | false => exact .inl ⟨rfl, rfl⟩
  | true =>
    refine .inr ⟨rfl, ?_⟩
    cases parsed : parseSeekto (h.packet.drop seektoPrefix.length) with
    | none => exact .inl ⟨rfl, by simp⟩
    | some seekto => exact .inr ⟨seekto, rfl, by simp⟩

end ConnHandler

namespace DeviceServer

/-- The server before any connection, with the module as it was loaded. -/
def start (kernel : Kernel) : DeviceServer where
  module := .start kernel
  conn _ := .start
  mutex := none
  sent _ := []

/-- What a call does outside its thread. There is no result when the call cannot return so. An
`open` may fail before it gets to the driver. -/
def effect (s : DeviceServer) (call : DeviceCall) : Option DeviceServer :=
  let pc := (s.conn call.conn).pc
  if call.event = .openFile false then some s
  else
    match pc.op call.conn call.env with
    | some op =>
      match s.module.step op with
      | .ok (module, reply) =>
        if pc.returns reply = some call.event then some { s with module } else none
      | .error _ => none
    | none =>
      match pc, call.event with
      | .lock, .lock error =>
        -- the mutex is given to one thread at a time
        if error ≠ 0 then some s
        else if s.mutex = none then some { s with mutex := some call.conn }
        else none
      | .unlock _, .unlock error => if error ≠ 0 then some s else some { s with mutex := none }
      | .send chars, .send (some bytesSent) =>
        let sent := s.sent call.conn ++ chars.left.take bytesSent
        some { s with sent := Function.update s.sent call.conn sent }
      | _, _ => some s

/-- The server after one call of one thread. -/
def step (s : DeviceServer) (call : DeviceCall) : Option DeviceServer := do
  let h ← (s.conn call.conn).step true call.event
  let s' ← s.effect call
  return { s' with conn := Function.update s.conn call.conn h }

def Step (s : DeviceServer) (call : DeviceCall) (s' : DeviceServer) : Prop :=
  s.step call = some s'

/-- The stored lines. -/
def stored (s : DeviceServer) : List (List UInt8) := s.module.kernel.stored

/-- The bytes that wait for the end of their line. -/
def pending (s : DeviceServer) : List UInt8 := s.module.kernel.pending

/-- The device contents. -/
def contents (s : DeviceServer) : List UInt8 := s.module.kernel.contents

variable {s s' : DeviceServer} {call : DeviceCall}

theorem step_eq_some (step : s.Step call s') : ∃ h e,
    (s.conn call.conn).step true call.event = some h ∧ s.effect call = some e ∧
      s' = { e with conn := Function.update s.conn call.conn h } := by
  simp only [Step, DeviceServer.step, Option.bind_eq_bind, Option.bind_eq_some_iff] at step
  obtain ⟨h, moved, e, effect, same⟩ := step
  exact ⟨h, e, moved, effect, (Option.some.inj same).symm⟩

theorem effect_conn {e : DeviceServer} (effect : s.effect call = some e) : e.conn = s.conn := by
  unfold DeviceServer.effect at effect
  simp only at effect
  split at effect
  · cases effect
    rfl
  · repeat' split at effect
    all_goals first | contradiction | (cases effect; rfl)

/-- The calls of the others leave a thread where it is. -/
theorem run_conn {calls : List DeviceCall} {j : Nat}
    (run : Run DeviceServer.Step s calls s') (others : ∀ call ∈ calls, call.conn ≠ j) :
    s'.conn j = s.conn j := by
  induction run with
  | nil => rfl
  | cons step _ ih =>
    rw [List.forall_mem_cons] at others
    obtain ⟨h, e, -, effect, rfl⟩ := step_eq_some step
    rw [ih others.2, ← effect_conn effect]
    exact Function.update_of_ne (Ne.symm others.1) _ _

theorem effect_of_op {op : Op} {e : DeviceServer} (effect : s.effect call = some e)
    (opened : call.event ≠ .openFile false)
    (onDevice : (s.conn call.conn).pc.op call.conn call.env = some op) :
    ∃ d reply, s.module.step op = .ok (d, reply) ∧
      (s.conn call.conn).pc.returns reply = some call.event ∧ e = { s with module := d } := by
  simp only [DeviceServer.effect, if_neg opened, onDevice] at effect
  cases step : s.module.step op with
  | error fault => simp [step] at effect
  | ok result =>
    obtain ⟨d, reply⟩ := result
    rw [step] at effect
    simp only at effect
    split at effect
    · rename_i returned
      cases effect
      exact ⟨d, reply, rfl, returned, rfl⟩
    · contradiction

theorem step_of_effect {h : ConnHandler} {e : DeviceServer}
    (moves : (s.conn call.conn).step true call.event = some h) (effect : s.effect call = some e) :
    s.Step call { e with conn := Function.update s.conn call.conn h } := by
  simp only [Step, DeviceServer.step, moves, effect, Option.bind_eq_bind, Option.bind_some]
  rfl

theorem effect_op {op : Op} {d : Loaded} {reply : Reply} (opened : call.event ≠ .openFile false)
    (onDevice : (s.conn call.conn).pc.op call.conn call.env = some op)
    (went : s.module.step op = .ok (d, reply))
    (returned : (s.conn call.conn).pc.returns reply = some call.event) :
    s.effect call = some { s with module := d } := by
  simp only [DeviceServer.effect, if_neg opened, onDevice, went, if_pos returned]

/-- The server after a call of connection `i` that left the module as `d` and the thread as `h`. -/
def moved (s : DeviceServer) (i : Nat) (d : Loaded) (h : ConnHandler) : DeviceServer :=
  { s with module := d, conn := Function.update s.conn i h }

@[simp] theorem moved_conn_self (s : DeviceServer) (i : Nat) (d : Loaded) (h : ConnHandler) :
    (s.moved i d h).conn i = h := Function.update_self ..

theorem moved_conn_ne (s : DeviceServer) {i j : Nat} (d : Loaded) (h : ConnHandler) (ne : j ≠ i) :
    (s.moved i d h).conn j = s.conn j := Function.update_of_ne ne ..

@[simp] theorem moved_module (s : DeviceServer) (i : Nat) (d : Loaded) (h : ConnHandler) :
    (s.moved i d h).module = d := rfl

@[simp] theorem moved_mutex (s : DeviceServer) (i : Nat) (d : Loaded) (h : ConnHandler) :
    (s.moved i d h).mutex = s.mutex := rfl

@[simp] theorem moved_sent (s : DeviceServer) (i : Nat) (d : Loaded) (h : ConnHandler) :
    (s.moved i d h).sent = s.sent := rfl

end DeviceServer

/-- Nothing but the position of file `i` differs. -/
structure SameData (i : Nat) (d d' : Loaded) : Prop where
  kernel : d'.kernel = d.kernel
  fPos : ∀ j, j ≠ i → d'.fPos j = d.fPos j

theorem SameData.refl (i : Nat) (d : Loaded) : SameData i d d := ⟨rfl, fun _ _ => rfl⟩

/-- The bytes of a loop of `putchars` that its next `write` takes. -/
def chunk (chars : Putchars) : List UInt8 := chars.left.take maxRwCount

/-- What a call of connection `i` does when it does not fail, or is a seek command that fails. -/
inductive Acts (s : DeviceServer) (i : Nat) (env : CallEnv) : Event → DeviceServer → Prop
  | openFile {d : Loaded} (pc : (s.conn i).pc = .openFile) (same : SameData i s.module d)
      (here : d.fPos i = (0 : Nat)) :
      Acts s i env (.openFile true) (s.moved i d { s.conn i with pc := .getline })
  | getline (pc : (s.conn i).pc = .getline) (packet : List UInt8) :
      Acts s i env (.getline (some packet))
        (s.moved i s.module (ConnHandler.dispatch true { s.conn i with packet }))
  | ioctl {d : Loaded} {seekto : AesdSeekto} {q : Nat} (pc : (s.conn i).pc = .ioctl seekto)
      (same : SameData i s.module d) (target : seekTarget s.stored seekto = some q)
      (here : d.fPos i = q) :
      Acts s i env (.ioctl true) (s.moved i d { s.conn i with pc := .read })
  | ioctlFailed {d : Loaded} {seekto : AesdSeekto} (pc : (s.conn i).pc = .ioctl seekto)
      (same : SameData i s.module d) (refused : env.interrupted = false → env.uncopied = 0 →
        seekTarget s.stored seekto = none) :
      Acts s i env (.ioctl false) (s.moved i d (s.conn i).cleanup)
  | lock (pc : (s.conn i).pc = .lock) (free : s.mutex = none) :
      Acts s i env (.lock 0) { s.moved i s.module
        { s.conn i with pc := ConnHandler.writePc (.start (s.conn i).packet) } with
          mutex := some i }
  | write {d : Loaded} {chars : Putchars} (pc : (s.conn i).pc = .write chars)
      (fPos : ∀ j, j ≠ i → d.fPos j = s.module.fPos j)
      (data : (d.kernel.stored, d.kernel.pending) =
        appended s.stored s.pending (chunk chars) env.stray) :
      Acts s i env (.write (some (chunk chars).length)) (s.moved i d
        { s.conn i with pc := ConnHandler.writePc (chars.advance (chunk chars).length) })
  | unlock {writeStatus : Int} (pc : (s.conn i).pc = .unlock writeStatus)
      (ok : 0 ≤ writeStatus) :
      Acts s i env (.unlock 0)
        { s.moved i s.module { s.conn i with pc := .lseek } with mutex := none }
  | unlockFailed {writeStatus : Int} (pc : (s.conn i).pc = .unlock writeStatus)
      (bad : writeStatus < 0) :
      Acts s i env (.unlock 0) { s.moved i s.module (s.conn i).cleanup with mutex := none }
  | lseek {d : Loaded} (pc : (s.conn i).pc = .lseek) (same : SameData i s.module d)
      (here : d.fPos i = (0 : Nat)) :
      Acts s i env (.lseek true) (s.moved i d { s.conn i with pc := .read })
  | read {d : Loaded} {buffer : List UInt8} (pc : (s.conn i).pc = .read)
      (same : SameData i s.module d)
      (next : ∀ p : Nat, s.module.fPos i = p → p < 2 ^ 63 →
        ∃ n, (n = 0 ↔ s.contents.length ≤ p) ∧ (0 < n → p + n ≤ s.contents.length) ∧
          buffer = (s.contents.drop p).take n ∧ d.fPos i = (p + n : Nat)) :
      Acts s i env (.read (some buffer)) (s.moved i d
        { s.conn i with pc := if buffer = [] then .free else .send (.start buffer) })
  | send {chars : Putchars} {bytesSent : Nat} (pc : (s.conn i).pc = .send chars)
      (le : bytesSent ≤ chars.left.length) :
      Acts s i env (.send (some bytesSent)) { s.moved i s.module
        { s.conn i with pc := ConnHandler.sendPc (chars.advance bytesSent) } with
          sent := Function.update s.sent i (s.sent i ++ chars.left.take bytesSent) }
  | free (pc : (s.conn i).pc = .free) :
      Acts s i env .free (s.moved i s.module { s.conn i with pc := .closeFd })
  | closeFd {d : Loaded} (pc : (s.conn i).pc = .closeFd) (same : SameData i s.module d) :
      Acts s i env (.closeFd true) (s.moved i d { s.conn i with pc := .closeConn })
  | closeConn (pc : (s.conn i).pc = .closeConn) :
      Acts s i env (.closeConn true) (s.moved i s.module { s.conn i with pc := .exited })

namespace DeviceServer

variable {s s' : DeviceServer} {call : DeviceCall}

theorem sameData {op : Op} {d : Loaded} {reply : Reply} {i : Nat} (own : s.module.Owned)
    (step : s.module.step op = .ok (d, reply)) (file : op.file = i)
    (notWrite : ∀ file buf env, op ≠ .write file buf env) : SameData i s.module d where
  kernel := own.step_kernel step notWrite
  fPos _ ne := Loaded.step_fPos step (file ▸ ne)

theorem step_owned (own : s.module.Owned) (step : s.Step call s') : s'.module.Owned := by
  obtain ⟨h, e, -, effect, rfl⟩ := step_eq_some step
  clear step
  unfold DeviceServer.effect at effect
  simp only at effect
  split at effect
  · cases effect
    exact own
  · split at effect
    · split at effect
      · rename_i went
        split at effect
        · cases effect
          exact own.step went
        · contradiction
      · contradiction
    · repeat' split at effect
      all_goals first | contradiction | (cases effect; exact own)

theorem effect_local {e : DeviceServer} (effect : s.effect call = some e)
    (opened : call.event ≠ .openFile false)
    (local_ : (s.conn call.conn).pc.op call.conn call.env = none)
    (notLock : (s.conn call.conn).pc ≠ .lock) (notUnlock : ∀ n, (s.conn call.conn).pc ≠ .unlock n)
    (notSend : ∀ chars, (s.conn call.conn).pc ≠ .send chars) : e = s := by
  simp only [DeviceServer.effect, if_neg opened, local_] at effect
  split at effect
  · rename_i pc _
    exact absurd pc notLock
  · rename_i pc _
    exact absurd pc (notUnlock _)
  · rename_i pc _
    exact absurd pc (notSend _)
  · exact (Option.some.inj effect).symm

/-- What a `read` of connection `i` that does not fail gives it. -/
theorem read_next {e : DeviceServer} {i : Nat} {buffer : List UInt8} {env : CallEnv}
    (own : s.module.Owned) (effect : s.effect ⟨i, .read (some buffer), env⟩ = some e)
    (pc : (s.conn i).pc = .read) :
    ∃ d, SameData i s.module d ∧
      (∀ p : Nat, s.module.fPos i = p → p < 2 ^ 63 →
        ∃ n, (n = 0 ↔ s.contents.length ≤ p) ∧ (0 < n → p + n ≤ s.contents.length) ∧
          buffer = (s.contents.drop p).take n ∧ d.fPos i = (p + n : Nat)) ∧
      e = { s with module := d } := by
  obtain ⟨d, reply, step, returned, rfl⟩ := effect_of_op effect (by simp) (by simp only [pc]; rfl)
  have ok : 0 ≤ reply.retval ∧ reply.copied.take reply.retval.toNat = buffer := by
    simp only [pc, Pc.returns, Option.some.injEq, Event.read.injEq] at returned
    split at returned
    · contradiction
    · exact ⟨by omega, Option.some.inj returned⟩
  refine ⟨d, sameData own step rfl (by simp), ?_, rfl⟩
  intro p here small
  obtain ⟨n, -, atEnd, fits, bytes, moved⟩ := own.read step ok.1 here small (by decide)
  exact ⟨n, atEnd, fits, ok.2.symm.trans bytes, moved⟩

/-- Every call that does not fail is one of the acts, and so is a seek command that does. -/
theorem step_acts (own : s.module.Owned) (step : s.Step call s')
    (ok : call.event.failed = false ∨ call.event = .ioctl false) :
    Acts s call.conn call.env call.event s' := by
  obtain ⟨h, e, moves, effect, rfl⟩ := step_eq_some step
  clear step
  obtain ⟨i, event, env⟩ := call
  simp only at moves effect ok ⊢
  have opened : event ≠ .openFile false := by
    rintro rfl
    simp [Event.failed] at ok
  cases ConnHandler.step_moves moves with
  | openFile pc =>
    obtain ⟨d, reply, step, -, rfl⟩ := effect_of_op effect opened (by rw [pc]; rfl)
    refine .openFile pc (sameData own step rfl (by simp)) ?_
    cases step
    exact Function.update_self ..
  | getline pc packet =>
    cases effect_local effect opened (by rw [pc]; rfl) (by simp [pc]) (by simp [pc]) (by simp [pc])
    exact .getline pc packet
  | ioctl seekto pc =>
    obtain ⟨d, reply, step, returned, rfl⟩ := effect_of_op effect opened (by rw [pc]; rfl)
    have ok : 0 ≤ reply.retval := by simpa [pc, Pc.returns] using returned
    have same := sameData own step rfl (by simp)
    rcases own.ioctl step with ⟨-, negative⟩ | result
    · omega
    cases target : seekTarget s.module.kernel.stored seekto with
    | none =>
      rw [target] at result
      exact absurd ok (Int.not_le.mpr result)
    | some q =>
      rw [target] at result
      exact .ioctl pc same target result.2
  | ioctlFailed seekto pc =>
    obtain ⟨d, reply, step, returned, rfl⟩ := effect_of_op effect opened (by rw [pc]; rfl)
    have bad : reply.retval < 0 := by simpa [pc, Pc.returns] using returned
    refine .ioctlFailed pc (sameData own step rfl (by simp)) ?_
    intro free copied
    rcases own.ioctl step with ⟨interrupted | uncopied, -⟩ | result
    · simp [free] at interrupted
    · exact absurd copied uncopied
    cases target : seekTarget s.module.kernel.stored seekto with
    | none => exact target
    | some q =>
      rw [target] at result
      exact absurd bad (Int.not_lt.mpr result.1)
  | lock pc error =>
    obtain rfl : error = 0 := by simpa [Event.failed] using ok
    simp only [DeviceServer.effect, pc, Pc.op] at effect
    simp only [reduceCtorEq, if_false, ne_eq, not_true_eq_false] at effect
    split at effect
    · rename_i free
      cases effect
      exact .lock pc free
    · contradiction
  | write chars pc bytesSent le =>
    obtain ⟨d, reply, step, returned, rfl⟩ := effect_of_op effect opened (by rw [pc]; rfl)
    have ok : 0 ≤ reply.retval ∧ reply.retval.toNat = bytesSent := by
      simp only [pc, Pc.returns, Option.some.injEq, Event.write.injEq] at returned
      split at returned
      · contradiction
      · exact ⟨by omega, Option.some.inj returned⟩
    obtain ⟨count, data⟩ := own.write step ok.1
    obtain rfl : bytesSent = (chunk chars).length := by
      rw [← ok.2, count]
      rfl
    exact .write pc (fun _ ne => Loaded.step_fPos step ne) data
  | unlock writeStatus pc good =>
    simp only [DeviceServer.effect, pc, Pc.op] at effect
    simp only [reduceCtorEq, if_false, ne_eq, not_true_eq_false] at effect
    cases effect
    exact .unlock pc good
  | lseek pc =>
    obtain ⟨d, reply, step, returned, rfl⟩ := effect_of_op effect opened (by rw [pc]; rfl)
    have ok : 0 ≤ reply.retval := by simpa [pc, Pc.returns] using returned
    rcases own.llseek_start step with ⟨-, negative⟩ | ⟨-, -, here⟩
    · omega
    · exact .lseek pc (sameData own step rfl (by simp)) here
  | readEnd pc =>
    obtain ⟨d, same, next, rfl⟩ := read_next own effect pc
    have ended : Acts s i env _ _ := .read pc same next
    rwa [if_pos rfl] at ended
  | read pc buffer some_ le =>
    obtain ⟨d, same, next, rfl⟩ := read_next own effect pc
    have went : Acts s i env _ _ := .read pc same next
    rwa [if_neg some_] at went
  | send chars pc bytesSent le =>
    simp only [DeviceServer.effect, pc, Pc.op] at effect
    simp only [reduceCtorEq, if_false] at effect
    cases effect
    exact .send pc le
  | free pc =>
    cases effect_local effect opened (by rw [pc]; rfl) (by simp [pc]) (by simp [pc]) (by simp [pc])
    exact .free pc
  | closeFd pc ok' =>
    obtain rfl : ok' = true := by simpa [Event.failed] using ok
    obtain ⟨d, reply, step, -, rfl⟩ := effect_of_op effect opened (by rw [pc]; rfl)
    have closed : Acts s i env _ _ := .closeFd pc (sameData own step rfl (by simp))
    rw [Bool.not_true, Bool.or_false]
    exact closed
  | closeConn pc ok' =>
    obtain rfl : ok' = true := by simpa [Event.failed] using ok
    cases effect_local effect opened (by rw [pc]; rfl) (by simp [pc]) (by simp [pc]) (by simp [pc])
    have closed : Acts s i env _ _ := .closeConn pc
    rw [Bool.not_true, Bool.or_false]
    exact closed
  | openFailed | getlineFailed | writeFailed | lseekFailed | readFailed | sendFailed =>
    simp [Event.failed] at ok
  | unlockFailed writeStatus pc error bad =>
    obtain rfl : error = 0 := by simpa [Event.failed] using ok
    simp only [DeviceServer.effect, pc, Pc.op] at effect
    simp only [reduceCtorEq, if_false, ne_eq, not_true_eq_false] at effect
    cases effect
    exact .unlockFailed pc (bad.resolve_left (by simp))

end DeviceServer

namespace Acts

variable {s s' : DeviceServer} {i : Nat} {env : CallEnv} {event : Event}

theorem frame (acts : Acts s i env event s') {j : Nat} (ne : j ≠ i) :
    s'.conn j = s.conn j ∧ s'.sent j = s.sent j ∧ s'.module.fPos j = s.module.fPos j := by
  have conn (d : Loaded) (h : ConnHandler) := s.moved_conn_ne d h ne
  cases acts with
  | openFile _ same | ioctl _ same | ioctlFailed _ same | lseek _ same | read _ same
  | closeFd _ same => exact ⟨conn _ _, rfl, same.fPos j ne⟩
  | write _ fPos => exact ⟨conn _ _, rfl, fPos j ne⟩
  | send => exact ⟨conn s.module _, Function.update_of_ne ne _ _, rfl⟩
  | getline | lock | unlock | unlockFailed | free | closeConn => exact ⟨conn s.module _, rfl, rfl⟩

/-- Only `write` changes the device. -/
theorem kernel (acts : Acts s i env event s') (notWrite : ∀ n, event ≠ .write n) :
    s'.module.kernel = s.module.kernel := by
  cases acts with
  | openFile _ same | ioctl _ same | ioctlFailed _ same | lseek _ same | read _ same
  | closeFd _ same => exact same.kernel
  | write => exact absurd rfl (notWrite _)
  | getline | lock | unlock | unlockFailed | send | free | closeConn => rfl

/-- Only `pthread_mutex_lock` and `pthread_mutex_unlock` change the mutex. -/
theorem mutex (acts : Acts s i env event s') (notLock : ∀ error, event ≠ .lock error)
    (notUnlock : ∀ error, event ≠ .unlock error) : s'.mutex = s.mutex := by
  cases acts with
  | lock => exact absurd rfl (notLock _)
  | unlock | unlockFailed => exact absurd rfl (notUnlock _)
  | _ => rfl

end Acts

/-- A module that was loaded. -/
def loadedKernel : Kernel := (aesdInitModule ∅ ⟨0, some ⟨1, fun _ => 0⟩, 0⟩).2

theorem loadedKernel_eq : aesdInitModule ∅ ⟨0, some ⟨1, fun _ => 0⟩, 0⟩ = (0, loadedKernel) := rfl

end Aesd.Server
