import Aesd.Server.Waiting

/-! The end of the server that keeps its data in a file. `main` joins the threads of the
connections, sends SIGTERM to the timer thread and joins that too. The thread learns of it wherever
it is, and has a bounded number of calls to make. -/

namespace Aesd.Server

open ProofKit

/-- `main` has created the timer thread. -/
def MainPc.threads : MainPc → Bool
  | .loop | .joinConns | .killTimer | .joinTimer => true
  | _ => false

namespace TimerPc

/-- The timer thread has not come to its loop, or is at the test of it. -/
def early : TimerPc → Bool
  | .sigmask | .openFile | .timerCreate | .timerSettime | .sigExit => true
  | _ => false

/-- The timer thread has left its loop. -/
def late : TimerPc → Bool
  | .timerDelete | .closeFd | .exited => true
  | _ => false

end TimerPc

namespace SignalServer

variable {p p' : SignalServer} {label : SignalLabel} {labels : List SignalLabel} {file : List UInt8}
  {inherited : Finset Signal}

/-- The timer thread will learn that it is to stop, or has. Where the SIGTERM was delivered to it,
it has not gone on since. -/
def Told (p : SignalServer) : Prop :=
  p.directed = true ∨
    (p.sigExit = true ∨ some .timer ∈ p.handling) ∧ p.server.timer.pc.early = true ∨
    p.server.timer.pc.late = true

/-- What `main` relies on when it waits for the timer thread. -/
structure Stopping (p : SignalServer) : Prop where
  masked : p.timerCreated = true → p.server.timer.pc ≠ .sigmask → .sigterm ∈ p.mask .timer
  created : p.main ≠ .exited → p.timerCreated = p.main.threads
  ended : p.main = .killTimer ∨ p.main = .joinTimer →
    ∀ i < p.accepted, (p.server.conn i).pc = .exited
  told : p.main = .joinTimer → p.Told
  alive : p.main = .joinTimer → p.died = false

/-- The timer thread goes on with what it was told. -/
theorem Told.timer {event : TimerEvent} {server : FileServer} (told : p.Told)
    (outside : some .timer ∉ p.handling) (step : p.server.Step (.timer event) server)
    (signals : p.TimerSignals event p') : ({ p' with server } : SignalServer).Told := by
  obtain ⟨h, e, moved, -, rfl⟩ := FileServer.step_timer step
  have outcome := TimerHandler.Step.outcome moved
  unfold Told at told ⊢
  rcases told with directed | ⟨learns, early⟩ | late
  · cases signals with
    | sigwaitDirected =>
      refine .inr (.inr ?_)
      cases outcome with
      | sigwait => rfl
      | sigwaitFailed => rfl
    | _ => exact .inl directed
  · have isSet : p.sigExit = true := learns.resolve_right outside
    have kept : p'.sigExit = true := by cases signals <;> exact isSet
    cases outcome with
    | sigmask | openFile | timerCreate | timerSettime => exact .inr (.inl ⟨.inl kept, rfl⟩)
    | sigmaskFailed | openFailed | timerFailed => exact .inr (.inr rfl)
    | sigExit pc found =>
      cases signals with
      | sigExit => simp [isSet, TimerPc.late]
      | other _ plain => simp [TimerEvent.plain] at plain
    | sigwait pc | sigwaitFailed pc | time pc | timeFailed pc | localtime pc | localtimeFailed pc
    | strftime pc | strftimeFailed pc | lock pc | lockFailed pc | write _ pc | writeFailed _ pc
    | unlock _ pc | unlockFailed _ pc | timerDelete pc | closeFd pc =>
      simp [pc, TimerPc.early] at early
  · cases outcome with
    | timerDelete | closeFd => exact .inr (.inr rfl)
    | sigmask pc | sigmaskFailed pc | openFile pc | openFailed pc | timerCreate pc | timerFailed pc
    | timerSettime pc | sigExit pc | sigwait pc | sigwaitFailed pc | time pc | timeFailed pc
    | localtime pc | localtimeFailed pc | strftime pc | strftimeFailed pc | lock pc | lockFailed pc
    | write _ pc | writeFailed _ pc | unlock _ pc | unlockFailed _ pc =>
      simp [pc, TimerPc.late] at late

/-- A signal that is delivered leaves the timer thread where it is. -/
theorem Told.takes {signal : Signal} {thread : Option Thread} {logging : Bool} (told : p.Told) :
    (p.takes signal thread logging).Told := by
  unfold SignalServer.takes
  split
  · refine told.imp_right (.imp_left fun early => ⟨early.1.imp_right ?_, early.2⟩)
    exact Finset.mem_insert_of_mem
  · exact told

/-- While `main` joins the timer thread, each signal that reaches a thread has a handler. -/
theorem Contained.joining {signal : Signal} {thread : Option Thread} (inv : p.Contained)
    (waits : p.main = .joinTimer) (pending : signal ∈ p.pending)
    (unblocked : p.Open signal thread) : signal ∈ p.handled := by
  have handled := inv.handled
  rw [waits] at handled
  cases signal with
  | sigint | sigterm => exact handled (by simp [MainPc.handled])
  | sigpipe => exact absurd pending inv.pipes
  | sigalrm =>
    obtain ⟨blocks, -⟩ := inv.alarm (by simp [waits]) unblocked
    simp [waits, MainPc.blocks] at blocks

theorem Stopping.takes {signal : Signal} {thread : Option Thread} {logging : Bool}
    (inv : p.Stopping) (handled : p.main = .joinTimer → signal ∈ p.handled) :
    (p.takes signal thread logging).Stopping := by
  have told (waits : p.main = .joinTimer) : (p.takes signal thread logging).Told :=
    (inv.told waits).takes
  unfold SignalServer.takes at told ⊢
  split at told <;> rename_i found
  · rw [if_pos found]
    exact { inv with told }
  · rw [if_neg found]
    exact { inv with told, alive := fun waits => absurd (handled waits) found }

/-- Each step keeps what `main` relies on. -/
theorem Stopping.step (inv : p.Stopping) (fresh : p.Fresh) (contained : p.Contained)
    (step : p.Step label p')
    (masked : ∀ error, label = .call (.timer (.sigmask error)) → error = 0) :
    p'.Stopping := by
  obtain ⟨running, lives, free, does⟩ := step
  have created := inv.created running
  cases does with
  | setexitTerm pc | setexitInt pc | sigmask pc | leave pc =>
    rw [pc] at created
    exact ⟨inv.masked, fun _ => created, by simp, by simp, by simp⟩
  | setexitFailed pc | joinedTimer pc =>
    exact ⟨inv.masked, by simp, by simp, by simp, by simp⟩
  | sigmaskFailed pc error failed =>
    rw [pc] at created
    refine ⟨inv.masked, fun _ => ?_, ?_, ?_, ?_⟩ <;>
      split <;> simp [created, MainPc.threads]
  | createTimer pc =>
    rw [pc] at created
    have idle := fresh.timer created
    exact ⟨fun _ other => absurd (by rw [idle]; rfl) other, fun _ => rfl, by simp, by simp,
      by simp⟩
  | accept pc =>
    exact { inv with
      masked := fun created other => by simpa using inv.masked created other
      ended := by simp [pc] }
  | joinedConns pc ended =>
    rw [pc] at created
    exact ⟨inv.masked, fun _ => created, fun _ => ended, by simp, by simp⟩
  | killTimer pc =>
    rw [pc] at created
    refine ⟨inv.masked, fun _ => created, fun _ => inv.ended (.inl pc), fun _ => ?_, fun _ => lives⟩
    by_cases gone : p.server.timer.pc = .exited
    · exact .inr (.inr (by simp [gone, TimerPc.late]))
    · exact .inl (by simp [gone])
  | conn i event server below step =>
    obtain ⟨h, e, moved, effect, rfl⟩ := FileServer.step_conn step
    have timer : e.timer = p.server.timer := (FileServer.connEffect_threads effect).2
    refine ⟨fun there other => ?_, inv.created, fun waits => ?_, fun waits => ?_, inv.alive⟩
    · exact inv.masked there (by rwa [← timer])
    · -- a thread that was joined makes no call
      simp [ConnHandler.step, inv.ended waits i below] at moved
    · have told := inv.told waits
      unfold Told at told ⊢
      rwa [timer]
  | timer event server p' there step signals =>
    have outside : some .timer ∉ p.handling := free _ rfl
    have told (waits : p.main = .joinTimer) := (inv.told waits).timer outside step signals
    obtain ⟨h, e, moved, effect, rfl⟩ := FileServer.step_timer step
    have conn : e.conn = p.server.conn := (FileServer.timerEffect_threads effect).1
    have kept : p'.main = p.main ∧ p'.timerCreated = p.timerCreated ∧ p'.accepted = p.accepted ∧
        p'.died = p.died := by
      cases signals <;> exact ⟨rfl, rfl, rfl, rfl⟩
    obtain ⟨main, timerCreated, accepted, died⟩ := kept
    refine ⟨fun _ other => ?_, fun running => ?_, fun waits => ?_,
      fun waits => told (main ▸ waits), fun _ => died.trans lives⟩
    · by_cases pc : p.server.timer.pc = .sigmask
      · obtain ⟨error, rfl⟩ : ∃ error, event = .sigmask error := by
          cases event <;> simp [TimerHandler.step, pc] at moved ⊢
        obtain rfl := masked error rfl
        cases signals with
        | sigmask => simp
        | sigmaskFailed _ failed => exact absurd rfl failed
        | other _ plain => simp [TimerEvent.plain] at plain
      · have before := inv.masked there pc
        cases signals with
        | sigmask => simp
        | _ => exact before
    · exact (timerCreated.trans (inv.created (main ▸ running))).trans (main ▸ rfl)
    · rw [main] at waits
      intro i below
      exact (congrArg (fun conn => (conn i).pc) conn).trans (inv.ended waits i (accepted ▸ below))
  | brokenPipe i chars below pc unblocked =>
    -- nor does it send anything
    refine { inv with alive := fun waits => ?_ }
    simp [inv.ended (.inr waits) i below] at pc
  | expire | raise => exact { inv with }
  | deliver signal thread logging pending unblocked =>
    have fewer : ({ p with pending := p.pending.erase signal } : SignalServer).Stopping :=
      { inv with }
    exact fewer.takes fun waits => contained.joining waits pending unblocked
  | deliverDirected logging directed unblocked =>
    have pc : p.server.timer.pc = .sigmask := by
      by_contra other
      exact unblocked.2.2.2 (inv.masked unblocked.2.1 other)
    have early : p.server.timer.pc.early = true := by simp [pc, TimerPc.early]
    unfold SignalServer.takes
    split
    · have inside : some .timer ∈ insert (some .timer) p.handling := Finset.mem_insert_self _ _
      exact { inv with told := fun _ => .inr (.inl ⟨.inr inside, early⟩) }
    · rename_i notHandled
      have other (waits : p.main = .joinTimer) : False :=
        notHandled (contained.handled (by simp [waits, MainPc.handled]))
      exact { inv with
        told := fun waits => (other waits).elim
        alive := fun waits => (other waits).elim }
  | handled thread inside out =>
    refine { inv with told := fun waits => ?_ }
    exact (inv.told waits).imp_right (.imp_left fun early => ⟨.inl rfl, early.2⟩)

end SignalServer

/-- The calls that the timer thread may still make, if no alarm comes. -/
def TimerHandler.work (h : TimerHandler) : Nat :=
  match h.pc with
  | .sigmask => 8
  | .openFile => 7
  | .timerCreate => 6
  | .timerSettime => 5
  | .sigExit => 4
  | .sigwait => 3
  | .time => 9 + datesize
  | .localtime => 8 + datesize
  | .strftime => 7 + datesize
  | .lock => 6 + h.nowStr.length
  | .write chars => 5 + max 1 chars.left.length
  | .unlock _ => 5
  | .timerDelete => 2
  | .closeFd => 1
  | .exited => 0

/-- A `write` that takes bytes, and a `sigwait` that works or is noticed not to. -/
def TimerEvent.advances : TimerEvent → Bool
  | .write (some bytesSent) => bytesSent != 0
  | .sigwait error _ => error ≤ 0
  | _ => true

theorem TimerHandler.work_writePc (h : TimerHandler) (chars : Putchars) :
    ({ h with pc := writePc chars } : TimerHandler).work ≤ 5 + chars.left.length := by
  rcases writePc_cases chars with ⟨-, next⟩ | ⟨more, next⟩
  · simp [work, next]
  · have := List.length_pos_iff.mpr more
    simp only [work, next]
    omega

/-- Each call takes one away, but for a `sigwait` that takes an alarm. -/
theorem TimerHandler.Step.work {h h' : TimerHandler} {event : TimerEvent} (step : Step h event h')
    (advances : event.advances = true) :
    h'.work + 1 ≤ h.work ∨ h'.work + 1 ≤ h.work + 7 + datesize ∧
      ∃ signo, event = .sigwait 0 signo ∧ signo ≠ sigterm := by
  cases step.outcome with
  | sigwait pc error signo ok =>
    obtain rfl : error = 0 := by
      simp only [TimerEvent.advances, decide_eq_true_eq] at advances
      omega
    by_cases term : signo = sigterm
    · left
      simp [TimerHandler.work, pc, term]
    · right
      refine ⟨?_, signo, rfl, term⟩
      simp only [TimerHandler.work, pc, if_neg term]
      omega
  | lock pc =>
    left
    have before : h.work = 6 + h.nowStr.length := by simp [TimerHandler.work, pc]
    have after := h.work_writePc (.start h.nowStr)
    simp only [Putchars.start] at after ⊢
    omega
  | write chars pc bytesSent le =>
    left
    have more : bytesSent ≠ 0 := by simpa [TimerEvent.advances] using advances
    have before : h.work = 5 + max 1 chars.left.length := by simp [TimerHandler.work, pc]
    have after := h.work_writePc (chars.advance bytesSent)
    rw [Putchars.advance_left, List.length_drop] at after
    omega
  | sigExit pc isSet =>
    left
    cases isSet <;> simp [TimerHandler.work, pc]
  | strftime pc nowStr full =>
    left
    simp only [TimerHandler.work, pc]
    omega
  | sigmask pc | sigmaskFailed pc | openFile pc | openFailed pc | timerCreate pc | timerFailed pc
  | timerSettime pc | sigwaitFailed pc | time pc | timeFailed pc | localtime pc | localtimeFailed pc
  | strftimeFailed pc | lockFailed pc | writeFailed _ pc | unlock _ pc | unlockFailed _ pc
  | timerDelete pc | closeFd pc =>
    left
    simp only [TimerHandler.work, TimerHandler.cleanup, pc]
    omega

namespace SignalServer

variable {p p' : SignalServer} {label : SignalLabel} {labels : List SignalLabel} {file : List UInt8}
  {inherited : Finset Signal}

/-- An alarm that `sigwait` can take makes work for a whole round. -/
def alarms (p : SignalServer) : Nat := if .sigalrm ∈ p.pending then 7 + datesize else 0

def work (p : SignalServer) : Nat := p.server.timer.work + p.alarms

theorem alarms_le (fewer : .sigalrm ∈ p'.pending → .sigalrm ∈ p.pending) :
    p'.alarms ≤ p.alarms := by
  unfold alarms
  by_cases now : .sigalrm ∈ p'.pending
  · rw [if_pos now, if_pos (fewer now)]
  · rw [if_neg now]
    exact Nat.zero_le _

theorem work_takes (p : SignalServer) (signal : Signal) (thread : Option Thread) (logging : Bool) :
    (p.takes signal thread logging).work = p.work := by
  unfold SignalServer.takes
  split <;> rfl

theorem work_step (step : p.Step label p')
    (advances : ∀ event, label = .call (.timer event) → event.advances = true) :
    p'.work + (if label.isTimer then 1 else 0) ≤
      p.work + if label.isAlarm then 7 + datesize else 0 := by
  cases step.does with
  | timer event server p' there moved signals =>
    obtain ⟨h, e, called, -, rfl⟩ := FileServer.step_timer moved
    have round := TimerHandler.Step.work called (advances event rfl)
    show h.work + p'.alarms + 1 ≤ p.server.timer.work + p.alarms
    rcases round with less | ⟨less, signo, rfl, other⟩
    · have alarms : p'.alarms ≤ p.alarms := by
        apply alarms_le
        cases signals with
        | sigwait => exact Finset.mem_of_mem_erase
        | _ => exact id
      omega
    · cases signals with
      | sigwait signal waited pending =>
        -- what is not SIGTERM is the alarm, which is pending no more
        obtain rfl := waited.resolve_left fun term => other (by rw [term]; rfl)
        simp only [alarms, pending, if_true, Finset.notMem_erase, if_false]
        omega
      | sigwaitDirected => exact absurd rfl other
      | sigwaitFailed _ _ failed => exact absurd rfl failed
      | other _ plain => simp [TimerEvent.plain] at plain
  | conn i event server below moved =>
    obtain ⟨h, e, -, effect, rfl⟩ := FileServer.step_conn moved
    have timer : e.timer = p.server.timer := (FileServer.connEffect_threads effect).2
    simp [work, alarms, SignalLabel.isTimer, timer]
  | expire armed =>
    show p.server.timer.work + _ ≤ p.server.timer.work + p.alarms + (7 + datesize)
    simp only [alarms, Finset.mem_insert_self, if_true]
    omega
  | raise signal outside =>
    show p.server.timer.work + _ ≤ p.server.timer.work + p.alarms + _
    by_cases alarm : signal = .sigalrm
    · subst alarm
      simp only [alarms, SignalLabel.isAlarm, Finset.mem_insert_self, if_true]
      omega
    · have same := @alarms_le p { p with pending := insert signal p.pending } fun mem =>
        (Finset.mem_insert.mp mem).resolve_left (Ne.symm alarm)
      omega
  | deliver signal thread logging pending unblocked =>
    rw [work_takes]
    exact Nat.add_le_add_left (alarms_le Finset.mem_of_mem_erase) _
  | deliverDirected logging directed unblocked =>
    rw [work_takes]
    exact Nat.le_refl _
  | _ => exact Nat.le_refl _

/-- The timer thread makes at most eight calls, and 37 more for each time that its timer expires or
an alarm comes from outside, whatever else happens: it never spins. -/
theorem timer_calls_bounded (run : Run Step (start file inherited) labels p)
    (advances : ∀ event, .call (.timer event) ∈ labels → event.advances = true) :
    labels.countP SignalLabel.isTimer ≤ 8 + 37 * labels.countP SignalLabel.isAlarm := by
  have along (p : SignalServer) (label : SignalLabel) (p' : SignalServer) (mem : label ∈ labels)
      (step : p.Step label p') : p'.work + (if label.isTimer then 1 else 0) ≤
        p.work + if label.isAlarm then 7 + datesize else 0 :=
    work_step step fun event same => advances event (same ▸ mem)
  have bound := run.countP_add_le along
  have before : (start file inherited).work = 8 := rfl
  rw [before] at bound
  exact Nat.le_trans (Nat.le_add_left _ _) bound

theorem timer_calls_bounded_shutdown :
    shutdown.countP SignalLabel.isTimer ≤ 8 + 37 * shutdown.countP SignalLabel.isAlarm := by
  obtain ⟨p, run, -⟩ := shutdown_run
  exact timer_calls_bounded run (by simp [shutdown, TimerEvent.advances])

end SignalServer

end Aesd.Server
