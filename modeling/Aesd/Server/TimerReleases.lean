import Aesd.ProofKit.Custody
import Aesd.Server.TimerHandler

/-! What `timer_handler` gives back, and which failures it reports. It goes to the cleanup of its
timer also when there is none, and to the `close` of its file when that was not opened. -/

namespace Aesd.Server

open ProofKit Act

/-- The file descriptor, the timer and the lock. -/
inductive TimerResource
  | fd
  | timer
  | mutex
  deriving DecidableEq, Repr

/-- What the thread does with the resources in the call that returned with the event. A
`pthread_mutex_unlock` that fails leaves the lock with the thread; `timer_delete` fails only on what
is no timer, and `close` frees the descriptor also when it reports a failure. -/
def TimerEvent.acts : TimerEvent → List (Act TimerResource)
  | .openFile ok => if ok then [acquire .fd] else []
  | .timerCreate ok => if ok then [acquire .timer] else []
  | .timerSettime _ => [use .timer]
  | .lock error => if error = 0 then [acquire .mutex] else []
  | .write _ => [use .fd]
  | .unlock error => if error = 0 then [release .mutex] else [use .mutex]
  | .timerDelete _ => [release .timer]
  | .closeFd _ => [release .fd]
  | _ => []

/-- What the thread holds when it makes its next call, if its file was opened, its timer created and
the lock given back. -/
def TimerPc.held : TimerPc → Finset TimerResource
  | .sigmask | .openFile | .exited => ∅
  | .timerCreate | .closeFd => {.fd}
  | .write _ | .unlock _ => {.fd, .timer, .mutex}
  | _ => {.fd, .timer}

/-- A `pthread_mutex_unlock` that fails. -/
def TimerEvent.keepsMutex : TimerEvent → Bool
  | .unlock error => error != 0
  | _ => false

/-- The thread is on its way out. -/
def TimerPc.Ending : TimerPc → Prop
  | .timerDelete | .closeFd | .exited => True
  | _ => False

/-- A failure that the thread takes note of. `pthread_sigmask` and `sigwait` report theirs by a
positive number, which it does not. -/
def TimerEvent.noted : TimerEvent → Bool
  | .sigmask error | .sigwait error _ => error < 0
  | .openFile ok | .timerCreate ok | .timerSettime ok | .time ok | .localtime ok | .timerDelete ok
  | .closeFd ok => !ok
  | .strftime nowStr => nowStr.length != datesize
  | .lock error | .unlock error => error != 0
  | .write bytesSent => bytesSent.isNone
  | .sigExit _ => false

/-- The failure of `putchars`, which the thread looks at once it has given the lock back. -/
def TimerPc.pending : TimerPc → Bool
  | .unlock writeStatus => writeStatus < 0
  | _ => false

namespace TimerHandler

variable {h h' : TimerHandler} {event : TimerEvent} {events : List TimerEvent}

/-- A call of the thread. -/
def Step (h : TimerHandler) (event : TimerEvent) (h' : TimerHandler) : Prop :=
  h.step event = some h'

/-- What one call can do: the event and the thread afterwards. -/
inductive Outcome (h : TimerHandler) : TimerEvent → TimerHandler → Prop
  | sigmask (pc : h.pc = .sigmask) (error : Int) (ok : 0 ≤ error) :
      Outcome h (.sigmask error) { h with pc := .openFile }
  | sigmaskFailed (pc : h.pc = .sigmask) (error : Int) (bad : error < 0) :
      Outcome h (.sigmask error) { h with pc := .exited, retval := -1 }
  | openFile (pc : h.pc = .openFile) : Outcome h (.openFile true) { h with pc := .timerCreate }
  | openFailed (pc : h.pc = .openFile) :
      Outcome h (.openFile false) { h with pc := .closeFd, abort := true }
  | timerCreate (pc : h.pc = .timerCreate) :
      Outcome h (.timerCreate true) { h with pc := .timerSettime }
  | timerFailed (pc : h.pc = .timerCreate) : Outcome h (.timerCreate false) h.cleanup
  | timerSettime (pc : h.pc = .timerSettime) (ok : Bool) :
      Outcome h (.timerSettime ok) { h with pc := .sigExit, abort := h.abort || !ok }
  | sigExit (pc : h.pc = .sigExit) (isSet : Bool) :
      Outcome h (.sigExit isSet) { h with pc := if isSet then .timerDelete else .sigwait }
  | sigwait (pc : h.pc = .sigwait) (error : Int) (signo : Nat) (ok : 0 ≤ error) :
      Outcome h (.sigwait error signo)
        { h with pc := if signo = sigterm then .timerDelete else .time }
  | sigwaitFailed (pc : h.pc = .sigwait) (error : Int) (signo : Nat) (bad : error < 0) :
      Outcome h (.sigwait error signo) h.cleanup
  | time (pc : h.pc = .time) : Outcome h (.time true) { h with pc := .localtime }
  | timeFailed (pc : h.pc = .time) : Outcome h (.time false) h.cleanup
  | localtime (pc : h.pc = .localtime) : Outcome h (.localtime true) { h with pc := .strftime }
  | localtimeFailed (pc : h.pc = .localtime) : Outcome h (.localtime false) h.cleanup
  | strftime (pc : h.pc = .strftime) (nowStr : List UInt8) (full : nowStr.length = datesize) :
      Outcome h (.strftime nowStr) { h with pc := .lock, nowStr }
  | strftimeFailed (pc : h.pc = .strftime) (nowStr : List UInt8)
      (other : nowStr.length ≠ datesize) : Outcome h (.strftime nowStr) { h.cleanup with nowStr }
  | lock (pc : h.pc = .lock) :
      Outcome h (.lock 0) { h with pc := writePc (.start h.nowStr) }
  | lockFailed (pc : h.pc = .lock) (error : Nat) (bad : error ≠ 0) :
      Outcome h (.lock error) h.cleanup
  | write (chars : Putchars) (pc : h.pc = .write chars) (bytesSent : Nat)
      (le : bytesSent ≤ chars.left.length) :
      Outcome h (.write (some bytesSent)) { h with pc := writePc (chars.advance bytesSent) }
  | writeFailed (chars : Putchars) (pc : h.pc = .write chars) :
      Outcome h (.write none) { h with pc := .unlock (-1) }
  | unlock (writeStatus : Int) (pc : h.pc = .unlock writeStatus) (ok : 0 ≤ writeStatus) :
      Outcome h (.unlock 0) { h with pc := .sigExit }
  | unlockFailed (writeStatus : Int) (pc : h.pc = .unlock writeStatus) (error : Nat)
      (bad : error ≠ 0 ∨ writeStatus < 0) : Outcome h (.unlock error) h.cleanup
  | timerDelete (pc : h.pc = .timerDelete) (ok : Bool) :
      Outcome h (.timerDelete ok) { h with pc := .closeFd, abort := h.abort || !ok }
  | closeFd (pc : h.pc = .closeFd) (ok : Bool) :
      Outcome h (.closeFd ok) { h with
        pc := .exited
        abort := h.abort || !ok
        retval := if h.abort || !ok then -1 else 0 }

theorem Step.outcome (step : Step h event h') : Outcome h event h' := by
  unfold Step TimerHandler.step at step
  split at step
  case h_1 pc =>
    split at step
    · rename_i bad
      cases step
      exact .sigmaskFailed pc _ bad
    · rename_i ok
      cases step
      exact .sigmask pc _ (Int.not_lt.mp ok)
  case h_2 pc =>
    split at step
    · rename_i ok
      cases step
      exact ok ▸ .openFile pc
    · rename_i bad
      cases step
      exact (Bool.eq_false_of_not_eq_true bad) ▸ .openFailed pc
  case h_3 pc =>
    split at step
    · rename_i ok
      cases step
      exact ok ▸ .timerCreate pc
    · rename_i bad
      cases step
      exact (Bool.eq_false_of_not_eq_true bad) ▸ .timerFailed pc
  case h_4 pc =>
    cases step
    exact .timerSettime pc _
  case h_5 pc =>
    cases step
    exact .sigExit pc _
  case h_6 pc =>
    split at step
    · rename_i bad
      cases step
      exact .sigwaitFailed pc _ _ bad
    · rename_i ok
      cases step
      exact .sigwait pc _ _ (Int.not_lt.mp ok)
  case h_7 pc =>
    split at step
    · rename_i ok
      cases step
      exact ok ▸ .time pc
    · rename_i bad
      cases step
      exact (Bool.eq_false_of_not_eq_true bad) ▸ .timeFailed pc
  case h_8 pc =>
    split at step
    · rename_i ok
      cases step
      exact ok ▸ .localtime pc
    · rename_i bad
      cases step
      exact (Bool.eq_false_of_not_eq_true bad) ▸ .localtimeFailed pc
  case h_9 pc =>
    split at step
    · rename_i full
      cases step
      exact .strftime pc _ full
    · rename_i other
      cases step
      exact .strftimeFailed pc _ other
  case h_10 pc =>
    split at step
    · rename_i ok
      cases step
      exact ok ▸ .lock pc
    · rename_i bad
      cases step
      exact .lockFailed pc _ bad
  case h_11 pc =>
    split at step
    · rename_i le
      cases step
      exact .write _ pc _ le
    · contradiction
  case h_12 pc =>
    cases step
    exact .writeFailed _ pc
  case h_13 pc =>
    split at step
    · rename_i bad
      cases step
      exact .unlockFailed _ pc _ bad
    · rename_i good
      obtain ⟨none, ok⟩ := not_or.mp good
      obtain rfl := not_not.mp none
      cases step
      exact .unlock _ pc (Int.not_lt.mp ok)
  case h_14 pc =>
    cases step
    exact .timerDelete pc _
  case h_15 pc =>
    cases step
    exact .closeFd pc _
  case h_16 => contradiction

theorem writePc_cases (chars : Putchars) :
    chars.left = [] ∧ writePc chars = .unlock 0 ∨
      chars.left ≠ [] ∧ writePc chars = .write chars := by
  by_cases left : chars.left = []
  · exact .inl ⟨left, if_pos left⟩
  · exact .inr ⟨left, if_neg left⟩

/-- Unless there is no file or no timer, or the lock cannot be given back, each call is in order,
and leads from what the thread held before to what it holds after. -/
theorem Step.custody (step : Step h event h') (opened : event ≠ .openFile false)
    (created : event ≠ .timerCreate false) (gives : event.keepsMutex = false) :
    Custody h.pc.held event.acts h'.pc.held := by
  apply Custody.of_execute
  cases step.outcome with
  | openFailed => exact absurd rfl opened
  | timerFailed => exact absurd rfl created
  | sigExit pc isSet =>
    simp only [pc, TimerEvent.acts]
    cases isSet <;> decide
  | sigwait pc error signo =>
    simp only [pc, TimerEvent.acts]
    by_cases term : signo = sigterm
    · rw [if_pos term]
      decide
    · rw [if_neg term]
      decide
  | lock pc =>
    rcases writePc_cases (.start h.nowStr) with ⟨-, next⟩ | ⟨-, next⟩ <;>
      simp only [pc, next, TimerEvent.acts, TimerPc.held] <;> decide
  | write chars pc bytesSent =>
    rcases writePc_cases (chars.advance bytesSent) with ⟨-, next⟩ | ⟨-, next⟩ <;>
      simp only [pc, next, TimerEvent.acts, TimerPc.held] <;> decide
  | lockFailed pc error bad =>
    simp only [pc, cleanup, TimerEvent.acts, TimerPc.held, if_neg bad]
    decide
  | unlockFailed writeStatus pc error bad =>
    obtain rfl : error = 0 := bne_eq_false_iff_eq.mp gives
    simp only [pc, cleanup, TimerEvent.acts, TimerPc.held]
    decide
  | sigmask pc | sigmaskFailed pc | openFile pc | timerCreate pc | timerSettime pc
  | sigwaitFailed pc | time pc | timeFailed pc | localtime pc | localtimeFailed pc | strftime pc
  | strftimeFailed pc | writeFailed _ pc | unlock _ pc | timerDelete pc | closeFd pc =>
    simp only [pc, cleanup, TimerEvent.acts, TimerPc.held]
    decide

/-- A thread that cannot give the lock back leaves its loop with it. -/
theorem Step.keeps (step : Step h event h') (keeps : event.keepsMutex = true) :
    h'.pc.Ending ∧ Custody h.pc.held event.acts (insert .mutex h'.pc.held) := by
  cases step.outcome with
  | unlockFailed writeStatus pc error bad =>
    refine ⟨trivial, Custody.of_execute ?_⟩
    simp only [pc, cleanup, TimerEvent.acts, TimerPc.held, if_neg (bne_iff_ne.mp keeps)]
    decide
  | _ => contradiction

/-- The rest of its way has nothing to do with the lock. -/
theorem Step.kept (step : Step h event h') (ending : h.pc.Ending) :
    h'.pc.Ending ∧ event.keepsMutex = false ∧
      Custody (insert .mutex h.pc.held) event.acts (insert .mutex h'.pc.held) := by
  cases step.outcome with
  | timerDelete pc | closeFd pc =>
    simp only [pc, TimerEvent.acts, TimerPc.held]
    exact ⟨trivial, rfl, Custody.of_execute (by decide)⟩
  | write chars pc | writeFailed chars pc | unlock _ pc | unlockFailed _ pc =>
    simp [pc, TimerPc.Ending] at ending
  | sigmask pc | sigmaskFailed pc | openFile pc | openFailed pc | timerCreate pc | timerFailed pc
  | timerSettime pc | sigExit pc | sigwait pc | sigwaitFailed pc | time pc | timeFailed pc
  | localtime pc | localtimeFailed pc | strftime pc | strftimeFailed pc | lock pc | lockFailed pc =>
    simp [pc, TimerPc.Ending] at ending

/-- The file was opened and the timer created, as far as the thread has come. -/
def Equipped (events : List TimerEvent) : Prop :=
  .openFile false ∉ events ∧ .timerCreate false ∉ events

/-- What was done with the resources when the file was not opened, or the timer not created. -/
def Debt (events : List TimerEvent) (h : TimerHandler) : Prop :=
  let acts := events.flatMap TimerEvent.acts
  match h.pc with
  | .sigmask | .openFile => Equipped events ∧ acts = []
  | .timerCreate => Equipped events ∧ acts = [acquire .fd]
  | .timerDelete =>
    .openFile false ∉ events ∧ (.timerCreate false ∈ events → acts = [acquire .fd])
  | .closeFd => (.openFile false ∈ events → acts = []) ∧
    (.timerCreate false ∈ events → acts = [acquire .fd, release .timer])
  | .exited => (.openFile false ∈ events → acts = [release .fd]) ∧
    (.timerCreate false ∈ events → acts = [acquire .fd, release .timer, release .fd])
  | _ => Equipped events

theorem Equipped.append (equipped : Equipped events) (opened : event ≠ .openFile false)
    (created : event ≠ .timerCreate false) : Equipped (events ++ [event]) := by
  simp [Equipped, equipped.1, equipped.2, opened.symm, created.symm]

theorem debt_of_timerDelete (pc : h.pc = .timerDelete) (equipped : Equipped events) :
    Debt events h := by
  simp only [Debt, pc]
  exact ⟨equipped.1, fun failed => absurd failed equipped.2⟩

theorem debt_writePc (equipped : Equipped events) (chars : Putchars) :
    Debt events { h with pc := writePc chars } := by
  rcases writePc_cases chars with ⟨-, next⟩ | ⟨-, next⟩ <;> rw [next] <;> exact equipped

theorem Debt.step (debt : Debt events h) (step : Step h event h') :
    Debt (events ++ [event]) h' := by
  unfold Debt at debt
  cases step.outcome with
  | sigmask pc | openFile pc =>
    simp only [pc] at debt
    exact ⟨debt.1.append (by simp) (by simp), by simp [debt.2, TimerEvent.acts]⟩
  | sigmaskFailed pc error =>
    simp only [pc] at debt
    have equipped : Equipped (events ++ [.sigmask error]) := debt.1.append (by simp) (by simp)
    exact ⟨fun failed => absurd failed equipped.1, fun failed => absurd failed equipped.2⟩
  | openFailed pc =>
    simp only [pc] at debt
    obtain ⟨equipped, none⟩ := debt
    refine ⟨fun _ => by simp [none, TimerEvent.acts], fun failed => ?_⟩
    simp [equipped.2] at failed
  | timerCreate pc =>
    simp only [pc] at debt
    exact debt.1.append (by simp) (by simp)
  | timerFailed pc =>
    simp only [pc] at debt
    obtain ⟨equipped, one⟩ := debt
    exact ⟨by simp [equipped.1], fun _ => by simp [one, TimerEvent.acts]⟩
  | sigExit pc isSet =>
    simp only [pc] at debt
    cases isSet with
    | true => exact debt_of_timerDelete rfl (debt.append (by simp) (by simp))
    | false => exact debt.append (by simp) (by simp)
  | sigwait pc error signo =>
    simp only [pc] at debt
    by_cases term : signo = sigterm
    · exact debt_of_timerDelete (if_pos term) (debt.append (by simp) (by simp))
    · rw [if_neg term]
      exact debt.append (by simp) (by simp)
  | timerSettime pc | time pc | localtime pc | strftime pc | writeFailed _ pc | unlock _ pc =>
    simp only [pc] at debt
    exact debt.append (by simp) (by simp)
  | sigwaitFailed pc | timeFailed pc | localtimeFailed pc | strftimeFailed pc | lockFailed pc
  | unlockFailed _ pc =>
    simp only [pc] at debt
    exact debt_of_timerDelete rfl (debt.append (by simp) (by simp))
  | lock pc | write _ pc =>
    simp only [pc] at debt
    exact debt_writePc (debt.append (by simp) (by simp)) _
  | timerDelete pc ok =>
    simp only [pc] at debt
    obtain ⟨opened, created⟩ := debt
    refine ⟨fun failed => ?_, fun failed => ?_⟩
    · simp [opened] at failed
    · simp only [List.mem_append, List.mem_singleton, reduceCtorEq, or_false] at failed
      simp [created failed, TimerEvent.acts]
  | closeFd pc ok =>
    simp only [pc] at debt
    obtain ⟨opened, created⟩ := debt
    refine ⟨fun failed => ?_, fun failed => ?_⟩
    · simp only [List.mem_append, List.mem_singleton, reduceCtorEq, or_false] at failed
      simp [opened failed, TimerEvent.acts]
    · simp only [List.mem_append, List.mem_singleton, reduceCtorEq, or_false] at failed
      simp [created failed, TimerEvent.acts]

/-- What the thread holds after the events: the lock too, once it could not give it back. -/
def holding (events : List TimerEvent) (h : TimerHandler) : Finset TimerResource :=
  if events.any TimerEvent.keepsMutex then insert .mutex h.pc.held else h.pc.held

theorem custody_run (run : Run Step .start events h) (equipped : Equipped events) :
    (events.any TimerEvent.keepsMutex = true → h.pc.Ending) ∧
      Custody ∅ (events.flatMap TimerEvent.acts) (holding events h) := by
  refine run.history (P := fun events h => Equipped events →
    (events.any TimerEvent.keepsMutex = true → h.pc.Ending) ∧
      Custody ∅ (events.flatMap TimerEvent.acts) (holding events h))
    (fun _ => ⟨by simp, .nil _⟩) ?_ equipped
  rintro earlier event h h' - ih step ⟨opened, created⟩
  simp only [List.mem_append, List.mem_singleton, not_or] at opened created
  obtain ⟨ending, custody⟩ := ih ⟨opened.1, created.1⟩
  rw [List.flatMap_append, List.flatMap_singleton, List.any_append, holding, List.any_append]
  simp only [List.any_cons, List.any_nil, Bool.or_false]
  cases before : earlier.any TimerEvent.keepsMutex with
  | true =>
    obtain ⟨ends, -, rest⟩ := step.kept (ending before)
    rw [holding, if_pos before] at custody
    exact ⟨fun _ => ends, by simpa using custody.append rest⟩
  | false =>
    rw [holding, before] at custody
    simp only [Bool.false_eq_true, if_false] at custody
    cases keeps : event.keepsMutex with
    | true =>
      obtain ⟨ends, last⟩ := step.keeps keeps
      exact ⟨fun _ => ends, by simpa using custody.append last⟩
    | false =>
      have held := step.custody (Ne.symm opened.2) (Ne.symm created.2) keeps
      exact ⟨by simp, by simpa using custody.append held⟩

/-- The failures noted so far are in `abort`, or in what `putchars` returned, and in the end in the
result. -/
def Reports (failed : Bool) (h : TimerHandler) : Prop :=
  match h.pc with
  | .exited => h.retval = if failed then -1 else 0
  | .unlock writeStatus => (h.abort || decide (writeStatus < 0)) = failed
  | _ => h.abort = failed

theorem reports_writePc {failed : Bool} {h : TimerHandler} (chars : Putchars)
    (abort : h.abort = failed) : Reports failed { h with pc := writePc chars } := by
  rcases writePc_cases chars with ⟨-, next⟩ | ⟨-, next⟩
  · rw [next]
    simpa [Reports] using abort
  · rw [next]
    exact abort

theorem Step.reports {failed : Bool} (step : Step h event h') (reports : h.Reports failed) :
    h'.Reports (failed || event.noted) := by
  unfold Reports at reports
  cases step.outcome with
  | sigExit pc isSet =>
    simp only [pc] at reports
    cases isSet <;> simpa [Reports, TimerEvent.noted] using reports
  | sigwait pc error signo ok =>
    simp only [pc] at reports
    by_cases term : signo = sigterm <;>
      simpa [Reports, term, Int.not_lt.mpr ok, TimerEvent.noted] using reports
  | lock pc | write chars pc =>
    simp only [pc] at reports
    exact reports_writePc _ (by simpa [TimerEvent.noted] using reports)
  | unlockFailed writeStatus pc error bad =>
    simp only [pc] at reports
    have failure : decide (writeStatus < 0) = true ∨ (error != 0) = true := by
      simpa [or_comm] using bad
    subst reports
    rcases failure with wrote | kept
    · simp [Reports, cleanup, wrote]
    · simp [Reports, cleanup, TimerEvent.noted, bne_iff_ne.mp kept]
  | unlock writeStatus pc ok =>
    simp only [pc, Int.not_lt.mpr ok, decide_false, Bool.or_false] at reports
    simpa [Reports, TimerEvent.noted] using reports
  | sigmask pc error ok =>
    simp only [pc] at reports
    simpa [Reports, Int.not_lt.mpr ok, TimerEvent.noted] using reports
  | sigmaskFailed pc error bad => simp [Reports, TimerEvent.noted, bad]
  | sigwaitFailed pc error _ bad | lockFailed pc error bad | strftimeFailed pc error bad =>
    simp [Reports, cleanup, TimerEvent.noted, bad]
  | strftime pc nowStr full =>
    simp only [pc] at reports
    simpa [Reports, full, TimerEvent.noted] using reports
  | closeFd pc ok =>
    simp only [pc] at reports
    simp [Reports, TimerEvent.noted, reports]
  | openFile pc | openFailed pc | timerCreate pc | timerFailed pc | timerSettime pc | time pc
  | timeFailed pc | localtime pc | localtimeFailed pc | writeFailed _ pc | timerDelete pc =>
    simp only [pc] at reports
    simp [Reports, cleanup, TimerEvent.noted, reports]

end TimerHandler

/-- On every path to its end `timer_handler` gives its file, its timer and the lock back once, and
uses nothing that it does not hold, exactly if neither `open` nor `timer_create` failed and no
`pthread_mutex_unlock` did. When `open` fails it only calls `close`, on what is no file descriptor,
and when `timer_create` fails it calls `timer_delete` on a variable that was never set. -/
theorem timer_releases {events : List TimerEvent} {h : TimerHandler}
    (run : Run TimerHandler.Step .start events h) (exited : h.pc = .exited) :
    let acts := events.flatMap TimerEvent.acts
    (Custody ∅ acts ∅ ↔ .openFile false ∉ events ∧ .timerCreate false ∉ events ∧
      ∀ error, .unlock error ∈ events → error = 0) ∧
    (.openFile false ∈ events → acts = [release .fd]) ∧
    (.timerCreate false ∈ events → acts = [acquire .fd, release .timer, release .fd]) := by
  intro acts
  have debt : TimerHandler.Debt events h := by
    refine run.history ?_ fun _ _ _ _ _ debt step => debt.step step
    exact ⟨⟨by simp, by simp⟩, rfl⟩
  simp only [TimerHandler.Debt, exited] at debt
  have gives : events.any TimerEvent.keepsMutex = false ↔
      ∀ error, .unlock error ∈ events → error = 0 := by
    rw [List.any_eq_false]
    refine ⟨fun none error mem => ?_, fun given event mem keeps => ?_⟩
    · simpa [TimerEvent.keepsMutex] using none _ mem
    · cases event with
      | unlock error => exact bne_iff_ne.mp keeps (given error mem)
      | _ => contradiction
  refine ⟨⟨fun custody => ?_, fun ⟨opened, created, given⟩ => ?_⟩, debt⟩
  · -- what was never acquired is released
    have opened : .openFile false ∉ events := by
      intro failed
      have count := custody.count_release (r := .fd) (Finset.notMem_empty _)
      rw [show acts = _ from debt.1 failed] at count
      simp [holds] at count
    have created : .timerCreate false ∉ events := by
      intro failed
      have count := custody.count_release (r := .timer) (Finset.notMem_empty _)
      rw [show acts = _ from debt.2 failed] at count
      simp [holds] at count
    refine ⟨opened, created, gives.mp (Bool.eq_false_iff.mpr fun keeps => ?_)⟩
    obtain ⟨-, kept⟩ := TimerHandler.custody_run run ⟨opened, created⟩
    rw [TimerHandler.holding, if_pos keeps] at kept
    have count := custody.balance .mutex
    have more := Custody.balance kept .mutex
    rw [show events.flatMap TimerEvent.acts = acts from rfl] at more
    simp only [holds, Finset.notMem_empty, if_false, Finset.mem_insert_self, if_true] at count more
    omega
  · obtain ⟨-, held⟩ := TimerHandler.custody_run run ⟨opened, created⟩
    rw [TimerHandler.holding, gives.mpr given, exited] at held
    exact held

/-- `timer_handler` ends with -1 exactly if one of its calls reported a failure in a way that it
looks for, and with 0 otherwise. -/
theorem timer_reports {events : List TimerEvent} {h : TimerHandler}
    (run : Run TimerHandler.Step .start events h) (exited : h.pc = .exited) :
    h.retval = if events.any TimerEvent.noted then -1 else 0 := by
  have reports : h.Reports (events.any TimerEvent.noted) := by
    refine run.history (P := fun events h => h.Reports (events.any TimerEvent.noted)) rfl ?_
    intro earlier event h h' _ ih step
    simpa using step.reports ih
  simpa only [TimerHandler.Reports, exited] using reports

/-- A thread that adds a timestamp, and in whose second round `time` fails. -/
def twoRounds : List TimerEvent :=
  [.sigmask 0, .openFile true, .timerCreate true, .timerSettime true, .sigExit false,
    .sigwait 0 14, .time true, .localtime true, .strftime (List.replicate 29 97 ++ [10]),
    .lock 0, .write (some 10), .write (some 20), .unlock 0, .sigExit false, .sigwait 0 14,
    .time false, .timerDelete true, .closeFd true]

theorem twoRounds_run : Run TimerHandler.Step .start twoRounds
    ⟨.exited, List.replicate 29 97 ++ [10], true, -1⟩ :=
  Run.of_execute (fun _ _ _ _ step => step) (by decide +kernel :
    execute TimerHandler.step (fun _ => true) .start twoRounds = some _)

theorem timer_releases_twoRounds : Custody ∅ (twoRounds.flatMap TimerEvent.acts) ∅ :=
  (timer_releases twoRounds_run rfl).1.mpr (by simp [twoRounds])

theorem timer_reports_twoRounds : (-1 : Int) =
    if twoRounds.any TimerEvent.noted then -1 else 0 :=
  timer_reports twoRounds_run rfl

end Aesd.Server
