import Aesd.ProofKit.Custody
import Aesd.Server.ConnHandler

/-! What `conn_handler` has to give back, and that it gives it back once on every path to its
end. -/

namespace Aesd.Server

open Aesd.Driver ProofKit Act

/-- The socket of the connection, which the thread finds open, the file descriptor of the store, the
packet that `sock_getline` allocates, and the lock. -/
inductive Resource
  | descriptor
  | fd
  | packet
  | mutex
  deriving DecidableEq, Repr

/-- What the thread does with the resources in the call that returned with the event, and in the
lines up to its next call. A call of `pthread_mutex_lock` counts whatever it returns. -/
def Event.acts (useAesdCharDevice : Bool) : Event → List (Act Resource)
  -- `sock_gethost` comes first
  | .openFile ok => use .descriptor :: if ok then [acquire .fd] else []
  | .getline none => [use .descriptor]
  -- `strncmp` and `strtoul`
  | .getline (some _) =>
    use .descriptor :: acquire .packet :: if useAesdCharDevice then [use .packet] else []
  | .ioctl _ => [use .fd]
  | .lock _ => [acquire .mutex]
  | .write _ => [use .fd, use .packet]
  | .unlock _ => [release .mutex]
  | .lseek _ => [use .fd]
  | .read _ => [use .fd]
  | .send _ => [use .descriptor]
  | .free => [release .packet]
  | .closeFd _ => [release .fd]
  | .closeConn _ => [release .descriptor]

/-- The thread received a packet. -/
def Event.gotPacket : Event → Bool
  | .getline (some _) => true
  | _ => false

def Event.isLock : Event → Bool
  | .lock _ => true
  | _ => false

/-- The calls that acquire the resource. -/
def Resource.acquiredBy : Resource → Event → Bool
  | .fd, event => event == .openFile true
  | .packet, event => event.gotPacket
  | .mutex, event => event.isLock
  | .descriptor, _ => false

/-- What the thread holds when it makes its next call. -/
def Pc.held : Pc → Finset Resource
  | .openFile | .closeConn => {.descriptor}
  | .getline | .closeFd => {.descriptor, .fd}
  | .ioctl _ | .lock | .lseek | .read | .send _ | .free => {.descriptor, .fd, .packet}
  | .write _ | .unlock _ => {.descriptor, .fd, .packet, .mutex}
  | .exited => ∅

/-- The calls that the thread makes once at most, in their order, and the rest. -/
def Pc.stage : Pc → Nat
  | .openFile => 0
  | .getline => 1
  | .lock => 2
  | _ => 3

/-- The stage at which the resource is acquired. -/
def Resource.stage : Resource → Nat
  | .fd => 0
  | .packet => 1
  | .mutex => 2
  | .descriptor => 3

namespace ConnHandler

variable {useAesdCharDevice : Bool} {h h' : ConnHandler} {event : Event} {events : List Event}

/-- A call of the thread. -/
def Step (useAesdCharDevice : Bool) (h : ConnHandler) (event : Event) (h' : ConnHandler) : Prop :=
  h.step useAesdCharDevice event = some h'

theorem held_writePc (chars : Putchars) :
    (writePc chars).held = {.descriptor, .fd, .packet, .mutex} :=
  apply_writePc Pc.held rfl (fun _ => rfl) chars

theorem held_sendPc (chars : Putchars) : (sendPc chars).held = {.descriptor, .fd, .packet} :=
  apply_sendPc Pc.held rfl (fun _ => rfl) chars

theorem held_dispatch (h : ConnHandler) :
    (dispatch useAesdCharDevice h).pc.held = {.descriptor, .fd, .packet} := by
  rcases dispatch_pc useAesdCharDevice h with pc | pc | ⟨seekto, pc⟩ <;> rw [pc] <;> rfl

/-- Each call is in order, and leads from what the thread held before to what it holds after. -/
theorem Step.custody (step : Step useAesdCharDevice h event h') :
    Custody h.pc.held (event.acts useAesdCharDevice) h'.pc.held := by
  apply Custody.of_execute
  cases step_moves step with
  | getline pc packet =>
    rw [pc, held_dispatch, Event.acts, Pc.held]
    cases useAesdCharDevice <;> decide
  | lock pc error =>
    rw [pc, held_writePc, Event.acts, Pc.held]
    decide
  | write chars pc =>
    rw [pc, held_writePc, Event.acts, Pc.held]
    decide
  | send chars pc =>
    rw [pc, held_sendPc, Event.acts, Pc.held]
    decide
  | openFile pc | openFailed pc | getlineFailed pc | ioctl _ pc | ioctlFailed _ pc
  | writeFailed _ pc | unlock _ pc | unlockFailed _ pc | lseek pc | lseekFailed pc | readEnd pc
  | read pc | readFailed pc | sendFailed _ pc | free pc | closeFd pc | closeConn pc =>
    simp only [pc, cleanup, Event.acts, Pc.held]
    decide

theorem writePc_stage (chars : Putchars) : (writePc chars).stage = 3 :=
  apply_writePc Pc.stage rfl (fun _ => rfl) chars

theorem sendPc_stage (chars : Putchars) : (sendPc chars).stage = 3 :=
  apply_sendPc Pc.stage rfl (fun _ => rfl) chars

theorem dispatch_stage (h : ConnHandler) : 2 ≤ (dispatch useAesdCharDevice h).pc.stage := by
  rcases dispatch_pc useAesdCharDevice h with pc | pc | ⟨seekto, pc⟩ <;> rw [pc] <;> simp [Pc.stage]

/-- The thread never goes back, and leaves the calls that it makes once at most. -/
theorem Step.stage (step : Step useAesdCharDevice h event h') :
    h.pc.stage < h'.pc.stage ∨ h.pc.stage = 3 ∧ h'.pc.stage = 3 := by
  cases step_moves step with
  | getline pc packet =>
    left
    rw [pc]
    exact Nat.lt_of_lt_of_le (by decide) (dispatch_stage _)
  | lock pc error =>
    rw [pc, writePc_stage]
    simp [Pc.stage]
  | write chars pc =>
    rw [pc, writePc_stage]
    simp [Pc.stage]
  | send chars pc =>
    rw [pc, sendPc_stage]
    simp [Pc.stage]
  | openFile pc | openFailed pc | getlineFailed pc | ioctl _ pc | ioctlFailed _ pc
  | writeFailed _ pc | unlock _ pc | unlockFailed _ pc | lseek pc | lseekFailed pc | readEnd pc
  | read pc | readFailed pc | sendFailed _ pc | free pc | closeFd pc | closeConn pc =>
    simp [pc, cleanup, Pc.stage]

theorem count_acquire (r : Resource) :
    (events.flatMap (Event.acts useAesdCharDevice)).count (acquire r) =
      events.countP r.acquiredBy := by
  induction events with
  | nil => rfl
  | cons event events ih =>
    have one : (event.acts useAesdCharDevice).count (acquire r) =
        if r.acquiredBy event then 1 else 0 := by
      cases event with
      | openFile ok => cases ok <;> cases r <;> rfl
      | getline packet => cases packet <;> cases useAesdCharDevice <;> cases r <;> rfl
      | _ => cases r <;> rfl
    rw [List.flatMap_cons, List.count_append, one, ih, List.countP_cons, Nat.add_comm]

theorem Step.stage_acquire (step : Step useAesdCharDevice h event h') {r : Resource}
    (taken : r.acquiredBy event = true) : h.pc.stage = r.stage ∧ r.stage < 3 := by
  cases r with
  | descriptor => contradiction
  | fd =>
    obtain rfl : event = .openFile true := eq_of_beq taken
    cases step_moves step with
    | openFile pc => simp [pc, Pc.stage, Resource.stage]
  | packet =>
    cases event with
    | getline packet =>
      cases packet with
      | none => contradiction
      | some packet =>
        cases step_moves step with
        | getline pc => simp [pc, Pc.stage, Resource.stage]
    | _ => contradiction
  | mutex =>
    cases event with
    | lock error =>
      cases step_moves step with
      | lock pc => simp [pc, Pc.stage, Resource.stage]
    | _ => contradiction

/-- Each resource is acquired once at most. -/
theorem acquired_once (run : Run (Step useAesdCharDevice) h events h') (r : Resource) :
    events.countP r.acquiredBy ≤ 1 := by
  apply Run.countP_le_one (P := fun h : ConnHandler => h.pc.stage ≤ r.stage) ?_ ?_ run
  · intro h event h' step taken
    obtain ⟨here, early⟩ := step.stage_acquire taken
    have stage := step.stage
    exact ⟨by omega, by omega⟩
  · intro h event h' step past
    have stage := step.stage
    omega

theorem countP_of_once {r : Resource} (run : Run (Step useAesdCharDevice) h events h') :
    events.countP r.acquiredBy = if events.any r.acquiredBy then 1 else 0 := by
  have once := acquired_once run r
  split
  · rename_i some_
    have pos := List.countP_pos_iff.mpr (List.any_eq_true.mp some_)
    omega
  · rename_i none
    rw [List.countP_eq_zero]
    intro event mem taken
    exact none (List.any_eq_true.mpr ⟨event, mem, taken⟩)

/-- On every path to its end, whatever its calls return, `conn_handler` closes its connection once,
the store once if it opened it, and frees its packet once if it received one. Each call of
`pthread_mutex_lock` is followed by one of `pthread_mutex_unlock`, and nothing is used after it was
given back. -/
theorem releases_once (run : Run (Step useAesdCharDevice) start events h)
    (exited : h.pc = .exited) :
    let acts := events.flatMap (Event.acts useAesdCharDevice)
    acts.count (release .descriptor) = 1 ∧
    acts.count (release .fd) = (if .openFile true ∈ events then 1 else 0) ∧
    acts.count (release .packet) = (if events.any Event.gotPacket then 1 else 0) ∧
    (acts.count (release .mutex) = acts.count (acquire .mutex) ∧
      ∀ before after, acts = before ++ acquire .mutex :: after →
        after.count (release .mutex) = 1) ∧
    ∀ r before after, acts = before ++ release r :: after → ∀ act ∈ after, act.resource ≠ r := by
  intro acts
  have custody : Custody {.descriptor} acts ∅ := by
    have along := run.custody (fun _ _ _ step => Step.custody step)
    rwa [exited] at along
  have once (r : Resource) : acts.count (acquire r) = if events.any r.acquiredBy then 1 else 0 :=
    (count_acquire r).trans (countP_of_once run)
  have le (r : Resource) : acts.count (acquire r) ≤ 1 :=
    (count_acquire r).trans_le (acquired_once run r)
  have released (r : Resource) := custody.count_release (r := r) (Finset.notMem_empty r)
  refine ⟨?_, ?_, ?_, ⟨?_, fun before after split => ?_⟩, fun r before after split => ?_⟩
  · rw [released, once]
    simp [holds, Resource.acquiredBy]
  · rw [released, once]
    simp [holds, Resource.acquiredBy]
  · rw [released, once]
    simp [holds, Resource.acquiredBy]
  · rw [released]
    simp [holds]
  · have follows := custody.release_follows (Finset.notMem_empty _) split
    have total := le .mutex
    rw [split, List.count_append, List.count_cons_self] at total
    omega
  · apply custody.after_release ?_ split
    cases r with
    | descriptor => simp [once, holds, Resource.acquiredBy]
    | _ => simpa [holds] using le _

/-- A packet is written in one piece, and the response in one piece. -/
theorem releases_once_line :
    let events : List Event := [.openFile true, .getline (some [97, newline]), .lock 0,
      .write (some 2), .unlock 0, .lseek true, .read (some [97, newline]), .send (some 2),
      .read (some []), .free, .closeFd true, .closeConn true]
    (events.flatMap (Event.acts true)).count (release .fd) =
      if .openFile true ∈ events then 1 else 0 := by
  intro events
  have run : Run (Step true) start events ⟨.exited, [97, newline], false⟩ :=
    Run.of_execute (fun _ _ _ _ step => step) (by decide +kernel : execute (ConnHandler.step true)
      (fun _ => true) start events = some _)
  exact (releases_once run rfl).2.1

end ConnHandler

end Aesd.Server
