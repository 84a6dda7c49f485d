import Aesd.ProofKit.Run
import Aesd.Server.FileServer
import Mathlib.Data.Finset.Basic

/-! The signals of the server that keeps its data in a file. `main` takes SIGINT and SIGTERM as
requests to stop, and blocks SIGALRM before it creates the first thread, so that the alarms of the
timer are left for `sigwait`. Nothing is done about the SIGPIPE of `send`. In daemon mode the
process is the one that `daemonize` leaves, and a signal that its parent got is none of its own. -/

namespace Aesd.Server

open ProofKit

inductive Signal
  | sigint
  | sigpipe
  | sigalrm
  | sigterm
  deriving DecidableEq, Repr

def Signal.number : Signal → Nat
  | .sigint => 2
  | .sigpipe => 13
  | .sigalrm => 14
  | .sigterm => Aesd.Server.sigterm

/-- What `main` does next, as far as signals and threads go. In `joinConns` it joins the threads of
the connections that are left, and in `joinTimer` the timer thread. -/
inductive MainPc
  | setexitTerm
  | setexitInt
  | sigmask
  | createTimer
  | loop
  | joinConns
  | killTimer
  | joinTimer
  | exited
  deriving DecidableEq, Repr

namespace MainPc

/-- The signals that `main` has set a handler for when it is there. -/
def handled : MainPc → Finset Signal
  | .setexitTerm | .exited => ∅
  | .setexitInt => {.sigterm}
  | _ => {.sigterm, .sigint}

/-- `main` has blocked SIGALRM. -/
def blocks : MainPc → Bool
  | .createTimer | .loop | .joinConns | .killTimer | .joinTimer => true
  | _ => false

end MainPc

/-- The server with its signals: `handled` are the signals that run `_exit_handler`, the others end
the process. Each thread has a mask of blocked signals, which it has from the one that created it.
The signals `pending` are for the process, `directed` is the SIGTERM that `pthread_kill` sent to the
timer thread. The threads of `handling` are in `_exit_handler`, `none` standing for `main`, and
those of `jammed` stay there: the handler calls `syslog`, which waits for its own lock when it was
`syslog` that the signal interrupted. Threads of the connections up to `accepted` were created. -/
structure SignalServer where
  server : FileServer
  main : MainPc
  timerCreated : Bool
  accepted : Nat
  handled : Finset Signal
  mainMask : Finset Signal
  mask : Thread → Finset Signal
  pending : Finset Signal
  directed : Bool
  armed : Bool
  handling : Finset (Option Thread)
  jammed : Finset (Option Thread)
  sigExit : Bool
  died : Bool

/-- What `main` does, a call of a thread, a `send` to a client that is gone, a signal that comes up,
one that is delivered to a thread, in the middle of `syslog` or not, and the return of its
handler. -/
inductive SignalLabel
  | setexit (ok : Bool)
  | sigmask (error : Int)
  | createTimer
  | accept
  | leave (abort : Bool)
  | joinedConns
  | killTimer
  | joinedTimer
  | call (label : Label)
  | brokenPipe (i : Nat)
  | expire
  | raise (signal : Signal)
  | deliver (signal : Signal) (thread : Option Thread) (logging : Bool)
  | deliverDirected (logging : Bool)
  | handled (thread : Option Thread)
  deriving DecidableEq, Repr

namespace SignalLabel

def label : SignalLabel → Option Label
  | .call label => some label
  | _ => none

def isTimer : SignalLabel → Bool
  | .call (.timer _) => true
  | _ => false

/-- The thread that goes on with its own code. -/
def actor : SignalLabel → Option (Option Thread)
  | .call label => some (some label.thread)
  | .brokenPipe i => some (some (.conn i))
  | .expire | .raise _ | .deliver _ _ _ | .deliverDirected _ | .handled _ => none
  | _ => some none

/-- The timer expires, or an alarm comes from outside. -/
def isAlarm : SignalLabel → Bool
  | .expire | .raise .sigalrm => true
  | _ => false

end SignalLabel

/-- The calls of the timer thread that have nothing to do with signals. -/
def TimerEvent.plain : TimerEvent → Bool
  | .sigmask _ | .timerSettime true | .sigExit _ | .sigwait _ _ | .timerDelete true => false
  | _ => true

namespace SignalServer

/-- The program when `main` is called. The mask is the one that it was started with. -/
def start (file : List UInt8) (inherited : Finset Signal) : SignalServer where
  server := .start file
  main := .setexitTerm
  timerCreated := false
  accepted := 0
  handled := ∅
  mainMask := inherited
  mask _ := ∅
  pending := ∅
  directed := false
  armed := false
  handling := ∅
  jammed := ∅
  sigExit := false
  died := false

/-- A thread takes a signal that is delivered to it, and enters its handler if there is one. -/
def takes (p : SignalServer) (signal : Signal) (thread : Option Thread) (logging : Bool) :
    SignalServer :=
  if signal ∈ p.handled then { p with
    handling := insert thread p.handling
    jammed := if logging then insert thread p.jammed else p.jammed }
  else { p with died := true }

/-- Whether the signal can be delivered to the thread. The handler has all signals blocked. -/
def Open (p : SignalServer) (signal : Signal) (thread : Option Thread) : Prop :=
  thread ∉ p.handling ∧ match thread with
    | none => signal ∉ p.mainMask
    | some .timer =>
      p.timerCreated = true ∧ p.server.timer.pc ≠ .exited ∧ signal ∉ p.mask .timer
    | some (.conn i) =>
      i < p.accepted ∧ (p.server.conn i).pc ≠ .exited ∧ signal ∉ p.mask (.conn i)

/-- What a call of the timer thread has to do with signals. `sigwait` takes a signal for the process
or the one that was sent to the thread. -/
inductive TimerSignals (p : SignalServer) : TimerEvent → SignalServer → Prop
  | sigmask : TimerSignals p (.sigmask 0)
      { p with
        mask := Function.update p.mask .timer (p.mask .timer ∪ {.sigalrm, .sigterm}) }
  | sigmaskFailed (error : Int) (failed : error ≠ 0) : TimerSignals p (.sigmask error) p
  | armed : TimerSignals p (.timerSettime true) { p with armed := true }
  | sigExit : TimerSignals p (.sigExit p.sigExit) p
  | sigwait (signal : Signal) (waited : signal = .sigterm ∨ signal = .sigalrm)
      (pending : signal ∈ p.pending) :
      TimerSignals p (.sigwait 0 signal.number) { p with pending := p.pending.erase signal }
  | sigwaitDirected (directed : p.directed = true) :
      TimerSignals p (.sigwait 0 sigterm) { p with directed := false }
  | sigwaitFailed (error : Int) (signo : Nat) (failed : error ≠ 0) :
      TimerSignals p (.sigwait error signo) p
  | deleted : TimerSignals p (.timerDelete true) { p with armed := false }
  | other (event : TimerEvent) (plain : event.plain = true) : TimerSignals p event p

inductive Does (p : SignalServer) : SignalLabel → SignalServer → Prop
  | setexitTerm (pc : p.main = .setexitTerm) :
      Does p (.setexit true) { p with handled := insert .sigterm p.handled, main := .setexitInt }
  | setexitInt (pc : p.main = .setexitInt) :
      Does p (.setexit true) { p with handled := insert .sigint p.handled, main := .sigmask }
  | setexitFailed (pc : p.main = .setexitTerm ∨ p.main = .setexitInt) :
      Does p (.setexit false) { p with main := .exited }
  | sigmask (pc : p.main = .sigmask) :
      Does p (.sigmask 0)
        { p with mainMask := insert .sigalrm p.mainMask, main := .createTimer }
  -- a positive error number is not noticed
  | sigmaskFailed (pc : p.main = .sigmask) (error : Int) (failed : error ≠ 0) :
      Does p (.sigmask error) { p with main := if error < 0 then .exited else .createTimer }
  | createTimer (pc : p.main = .createTimer) :
      Does p .createTimer
        { p with
          timerCreated := true
          mask := Function.update p.mask .timer p.mainMask
          main := .loop }
  | accept (pc : p.main = .loop) :
      Does p .accept
        { p with
          accepted := p.accepted + 1
          mask := Function.update p.mask (.conn p.accepted) p.mainMask }
  | leave (pc : p.main = .loop) (abort : Bool) (done : abort = true ∨ p.sigExit = true) :
      Does p (.leave abort) { p with main := .joinConns }
  | joinedConns (pc : p.main = .joinConns)
      (ended : ∀ i < p.accepted, (p.server.conn i).pc = .exited) :
      Does p .joinedConns { p with main := .killTimer }
  -- there is no one to send it to when the thread has ended
  | killTimer (pc : p.main = .killTimer) :
      Does p .killTimer
        { p with directed := p.server.timer.pc ≠ .exited, main := .joinTimer }
  | joinedTimer (pc : p.main = .joinTimer) (ended : p.server.timer.pc = .exited) :
      Does p .joinedTimer { p with main := .exited }
  | conn (i : Nat) (event : Event) (server : FileServer) (created : i < p.accepted)
      (step : p.server.Step (.conn i event) server) :
      Does p (.call (.conn i event)) { p with server }
  | timer (event : TimerEvent) (server : FileServer) (p' : SignalServer)
      (created : p.timerCreated = true) (step : p.server.Step (.timer event) server)
      (signals : p.TimerSignals event p') : Does p (.call (.timer event)) { p' with server }
  | brokenPipe (i : Nat) (chars : Putchars) (created : i < p.accepted)
      (pc : (p.server.conn i).pc = .send chars) (unblocked : .sigpipe ∉ p.mask (.conn i)) :
      Does p (.brokenPipe i) { p with died := true }
  | expire (armed : p.armed = true) :
      Does p .expire { p with pending := insert .sigalrm p.pending }
  | raise (signal : Signal) (outside : signal ≠ .sigpipe) :
      Does p (.raise signal) { p with pending := insert signal p.pending }
  | deliver (signal : Signal) (thread : Option Thread) (logging : Bool)
      (pending : signal ∈ p.pending) (unblocked : p.Open signal thread) :
      Does p (.deliver signal thread logging)
        (takes { p with pending := p.pending.erase signal } signal thread logging)
  | deliverDirected (logging : Bool) (directed : p.directed = true)
      (unblocked : p.Open .sigterm (some .timer)) :
      Does p (.deliverDirected logging)
        (takes { p with directed := false } .sigterm (some .timer) logging)
  | handled (thread : Option Thread) (inside : thread ∈ p.handling) (free : thread ∉ p.jammed) :
      Does p (.handled thread)
        { p with handling := p.handling.erase thread, sigExit := true }

/-- A step of the program, as long as there is a process. A thread in its handler does nothing
else. -/
structure Step (p : SignalServer) (label : SignalLabel) (p' : SignalServer) : Prop where
  running : p.main ≠ .exited
  alive : p.died = false
  free : ∀ thread ∈ label.actor, thread ∉ p.handling
  does : p.Does label p'

variable {p p' : SignalServer} {label : SignalLabel} {labels : List SignalLabel} {file : List UInt8}
  {inherited : Finset Signal}

/-- Once `main` has blocked SIGALRM, no alarm reaches a thread but by `sigwait`. -/
structure Contained (p : SignalServer) : Prop where
  handled : p.main.handled ⊆ p.handled
  handlers : p.handled ⊆ {.sigterm, .sigint}
  blocked : p.main.blocks = true → .sigalrm ∈ p.mainMask
  created : p.timerCreated = true → p.main.blocks = true ∨ p.main = .exited
  timer : p.timerCreated = true → .sigalrm ∈ p.mask .timer
  conns : ∀ i < p.accepted, .sigalrm ∈ p.mask (.conn i)
  armed : p.armed = true → p.timerCreated = true
  pipes : .sigpipe ∉ p.pending

/-- It does not matter which signals are on their way, as long as none is a SIGPIPE. -/
theorem Contained.arriving (inv : p.Contained) {pending : Finset Signal}
    (pipes : .sigpipe ∉ pending) : ({ p with pending } : SignalServer).Contained :=
  { inv with pipes }

theorem Contained.erasing (inv : p.Contained) (signal : Signal) :
    ({ p with pending := p.pending.erase signal } : SignalServer).Contained :=
  inv.arriving fun mem => inv.pipes (Finset.mem_of_mem_erase mem)

theorem Contained.timerSignals {event : TimerEvent} (inv : p.Contained)
    (created : p.timerCreated = true) (signals : p.TimerSignals event p') : p'.Contained := by
  cases signals with
  | sigmask =>
    exact { inv with
      timer := fun _ => by simp
      conns := fun i below => by simpa using inv.conns i below }
  | armed | deleted => exact { inv with armed := fun _ => created }
  | sigwait signal waited pending => exact inv.erasing signal
  | sigmaskFailed | sigExit | sigwaitDirected | sigwaitFailed | other => exact { inv with }

theorem Contained.takes (inv : p.Contained) (signal : Signal) (thread : Option Thread)
    (logging : Bool) : (p.takes signal thread logging).Contained := by
  unfold SignalServer.takes
  split <;> exact { inv with }

/-- `main` goes on. -/
theorem Contained.goes (inv : p.Contained) {main : MainPc} {signals mainMask : Finset Signal}
    (handled : main.handled ⊆ signals) (handlers : signals ⊆ {.sigterm, .sigint})
    (blocked : main.blocks = true → .sigalrm ∈ mainMask)
    (created : p.timerCreated = true → main.blocks = true ∨ main = .exited) :
    ({ p with main, handled := signals, mainMask } : SignalServer).Contained :=
  ⟨handled, handlers, blocked, created, inv.timer, inv.conns, inv.armed, inv.pipes⟩

theorem Contained.step (inv : p.Contained) (step : p.Step label p')
    (masked : ∀ error, label = .sigmask error → error = 0) : p'.Contained := by
  obtain ⟨running, alive, -, does⟩ := step
  -- before SIGALRM is blocked there is no timer thread
  have noTimer (pc : p.main.blocks = false) : ¬ p.timerCreated = true := by
    intro created
    simpa [pc, running] using inv.created created
  cases does with
  | setexitTerm pc =>
    refine inv.goes ?_ (Finset.insert_subset (by simp) inv.handlers) (by simp [MainPc.blocks])
      fun created => ?_
    · simp [MainPc.handled]
    · exact absurd created (noTimer (by simp [pc, MainPc.blocks]))
  | setexitInt pc =>
    refine inv.goes ?_ (Finset.insert_subset (by simp) inv.handlers) (by simp [MainPc.blocks])
      fun created => ?_
    · have term : .sigterm ∈ p.handled := inv.handled (by simp [pc, MainPc.handled])
      simp [MainPc.handled, Finset.insert_subset_iff, term]
    · exact absurd created (noTimer (by simp [pc, MainPc.blocks]))
  | setexitFailed pc =>
    exact inv.goes (by simp [MainPc.handled]) inv.handlers (by simp [MainPc.blocks]) (by simp)
  | sigmask pc =>
    refine inv.goes ?_ inv.handlers (by simp) (by simp [MainPc.blocks])
    simpa [pc, MainPc.handled] using inv.handled
  | sigmaskFailed pc error failed => exact absurd (masked error rfl) failed
  | createTimer pc =>
    have blocked := inv.blocked (by simp [pc, MainPc.blocks])
    refine ⟨?_, inv.handlers, fun _ => blocked, fun _ => .inl rfl, fun _ => ?_, fun i below => ?_,
      fun _ => rfl, inv.pipes⟩
    · simpa [pc, MainPc.handled] using inv.handled
    · simpa using blocked
    · simpa using inv.conns i below
  | accept pc =>
    have blocked := inv.blocked (by simp [pc, MainPc.blocks])
    refine { inv with timer := fun created => ?_, conns := fun i below => ?_ }
    · simpa using inv.timer created
    · by_cases new : i = p.accepted
      · simpa [new] using blocked
      · have old : i < p.accepted := by
          replace below : i < p.accepted + 1 := below
          omega
        simpa [new] using inv.conns i old
  | leave pc | joinedConns pc | killTimer pc =>
    have blocked := inv.blocked (by simp [pc, MainPc.blocks])
    have handled := inv.handled
    rw [pc] at handled
    exact { inv with handled, blocked := fun _ => blocked, created := fun _ => .inl rfl }
  | joinedTimer pc =>
    exact inv.goes (by simp [MainPc.handled]) inv.handlers (by simp [MainPc.blocks]) (by simp)
  | timer event server p' created _ signals => exact { inv.timerSignals created signals with }
  | expire armed => exact inv.arriving (by simpa using inv.pipes)
  | raise signal outside => exact inv.arriving (by simpa [Ne.symm outside] using inv.pipes)
  | deliver signal thread logging pending unblocked => exact (inv.erasing signal).takes _ _ _
  | deliverDirected logging directed unblocked =>
    have undirected : ({ p with directed := false } : SignalServer).Contained := { inv with }
    exact undirected.takes _ _ _
  | conn | brokenPipe | handled => exact { inv with }

/-- An alarm finds a thread that has not blocked it only before `main` has. -/
theorem Contained.alarm (inv : p.Contained) (running : p.main ≠ .exited) {thread : Option Thread}
    (unblocked : p.Open .sigalrm thread) : p.main.blocks = false ∧ p.timerCreated = false := by
  have main : p.main.blocks = false := by
    by_contra blocks
    rw [Bool.not_eq_false] at blocks
    cases thread with
    | none => exact unblocked.2 (inv.blocked blocks)
    | some thread =>
      cases thread with
      | timer => exact unblocked.2.2.2 (inv.timer unblocked.2.1)
      | conn i => exact unblocked.2.2.2 (inv.conns i unblocked.2.1)
  refine ⟨main, Bool.eq_false_iff.mpr fun created => ?_⟩
  simpa [main, running] using inv.created created

/-- A request finds no handler only before `main` has set both. -/
theorem Contained.unhandled (inv : p.Contained) (running : p.main ≠ .exited) {signal : Signal}
    (request : signal = .sigint ∨ signal = .sigterm) (unhandled : signal ∉ p.handled) :
    p.main = .setexitTerm ∨ p.main = .setexitInt := by
  have missing := fun mem => unhandled (inv.handled mem)
  rcases request with rfl | rfl <;> cases pc : p.main <;> simp_all [MainPc.handled]

/-- What may have ended the process, for what was done so far. -/
def Ends (labels : List SignalLabel) (p : SignalServer) : Prop :=
  (p.main = .setexitTerm ∨ p.main = .setexitInt) ∨
    (p.main = .sigmask ∧ .raise .sigalrm ∈ labels) ∨ ∃ i, .brokenPipe i ∈ labels

/-- What the signals have done so far. -/
structure Done (labels : List SignalLabel) (p : SignalServer) : Prop where
  died : p.died = true → p.Ends labels
  alarms : ∀ thread logging, .deliver .sigalrm thread logging ∈ labels →
    p.died = true ∧ .raise .sigalrm ∈ labels
  pending : .sigalrm ∈ p.pending → p.timerCreated = true ∨ .raise .sigalrm ∈ labels

/-- A step that leaves the process alive and delivers no alarm. -/
theorem Done.quiet (done : p.Done labels) (alive : p.died = false) (lives : p'.died = false)
    (other : ∀ thread logging, label ≠ .deliver .sigalrm thread logging)
    (pending : .sigalrm ∈ p'.pending → .sigalrm ∈ p.pending ∨ p'.timerCreated = true ∨
      label = .raise .sigalrm) (created : p.timerCreated = true → p'.timerCreated = true) :
    p'.Done (labels ++ [label]) := by
  refine ⟨fun dead => absurd dead (by simp [lives]), fun thread logging mem => ?_, fun alarm => ?_⟩
  · rcases List.mem_append.mp mem with old | new
    · exact absurd (done.alarms thread logging old).1 (by simp [alive])
    · exact absurd (List.mem_singleton.mp new).symm (other thread logging)
  · rcases pending alarm with old | there | rfl
    · exact (done.pending old).imp created (List.mem_append_left _)
    · exact .inl there
    · exact .inr (by simp)

theorem Done.step (done : p.Done labels) (inv : p.Contained) (step : p.Step label p') :
    p'.Done (labels ++ [label]) := by
  obtain ⟨running, alive, -, does⟩ := step
  have noAlarm (thread : Option Thread) (logging : Bool)
      (mem : .deliver .sigalrm thread logging ∈ labels) : False := by
    simpa [alive] using (done.alarms thread logging mem).1
  cases does with
  | createTimer => exact done.quiet alive alive (by simp) .inl fun _ => rfl
  | timer event server p' there moved signals =>
    cases signals with
    | sigwait =>
      exact done.quiet alive alive (by simp) (fun mem => .inl (Finset.mem_of_mem_erase mem)) id
    | _ => exact done.quiet alive alive (by simp) .inl id
  | brokenPipe i =>
    refine ⟨fun _ => .inr (.inr ⟨i, by simp⟩), fun thread logging mem => ?_, fun alarm => ?_⟩
    · exact (noAlarm thread logging (by simpa using mem)).elim
    · exact (done.pending alarm).imp_right (List.mem_append_left _)
  | expire armed =>
    exact done.quiet alive alive (by simp) (fun _ => .inr (.inl (inv.armed armed))) id
  | raise signal outside =>
    refine done.quiet alive alive (by simp) (fun mem => ?_) id
    rcases Finset.mem_insert.mp mem with rfl | old
    · exact .inr (.inr rfl)
    · exact .inl old
  | deliver signal thread logging pending unblocked =>
    have fewer (mem : .sigalrm ∈ p.pending.erase signal) := Finset.mem_of_mem_erase mem
    by_cases handled : signal ∈ p.handled
    · have other : signal ≠ .sigalrm := by
        rintro rfl
        simpa using inv.handlers handled
      simp only [takes, if_pos handled]
      exact done.quiet alive alive (by simp [other]) (fun mem => .inl (fewer mem)) id
    · simp only [takes, if_neg handled]
      by_cases alarm : signal = .sigalrm
      · subst alarm
        obtain ⟨early, none⟩ := inv.alarm running unblocked
        have outside : .raise .sigalrm ∈ labels :=
          (done.pending pending).resolve_left (by simp [none])
        refine ⟨fun _ => ?_, fun _ _ _ => ⟨rfl, List.mem_append_left _ outside⟩,
          fun _ => .inr (List.mem_append_left _ outside)⟩
        cases pc : p.main with
        | setexitTerm => exact .inl (.inl rfl)
        | setexitInt => exact .inl (.inr rfl)
        | sigmask => exact .inr (.inl ⟨rfl, List.mem_append_left _ outside⟩)
        | exited => exact absurd pc running
        | _ => simp [pc, MainPc.blocks] at early
      · have request : signal = .sigint ∨ signal = .sigterm := by
          cases signal with
          | sigint => exact .inl rfl
          | sigterm => exact .inr rfl
          | sigpipe => exact absurd pending inv.pipes
          | sigalrm => exact absurd rfl alarm
        refine ⟨fun _ => .inl (inv.unhandled running request handled),
          fun thread' logging' mem => ?_, fun alarm => ?_⟩
        · exact (noAlarm thread' logging' (by simpa [Ne.symm alarm] using mem)).elim
        · exact (done.pending (fewer alarm)).imp_right (List.mem_append_left _)
  | deliverDirected logging directed unblocked =>
    by_cases handled : .sigterm ∈ p.handled
    · simp only [takes, if_pos handled]
      exact done.quiet alive alive (by simp) .inl id
    · simp only [takes, if_neg handled]
      refine ⟨fun _ => .inl (inv.unhandled running (.inr rfl) handled),
        fun thread logging' mem => ?_, fun alarm => ?_⟩
      · exact (noAlarm thread logging' (by simpa using mem)).elim
      · exact (done.pending alarm).imp_right (List.mem_append_left _)
  | _ => exact done.quiet alive alive (by simp) .inl id

/-- A request to stop is still to be delivered, or has been, and its handler may be in `syslog`. -/
def Requested (p : SignalServer) (signal : Signal) : Prop :=
  p.died = true ∨ signal ∈ p.pending ∨ p.handling.Nonempty ∨ p.sigExit = true

theorem requested_takes (p : SignalServer) (signal other : Signal) (thread : Option Thread)
    (logging : Bool) : (p.takes other thread logging).Requested signal := by
  unfold takes
  split
  · exact .inr (.inr (.inl ⟨thread, Finset.mem_insert_self _ _⟩))
  · exact .inl rfl

/-- Only `sigwait` makes a request go away. -/
theorem Requested.step {signal : Signal} (requested : p.Requested signal)
    (request : signal ≠ .sigalrm) (step : p.Step label p') :
    p'.Requested signal ∨
      signal = .sigterm ∧ label = .call (.timer (.sigwait 0 Aesd.Server.sigterm)) := by
  cases step.does with
  | timer event server p' created step signals =>
    cases signals with
    | sigwait taken waited pending =>
      by_cases same : signal = taken
      · subst same
        obtain rfl := waited.resolve_right request
        exact .inr ⟨rfl, rfl⟩
      · exact .inl (requested.imp_right (.imp_left fun mem => Finset.mem_erase.mpr ⟨same, mem⟩))
    | _ => exact .inl requested
  | raise other => exact .inl (requested.imp_right (.imp_left Finset.mem_insert_of_mem))
  | expire => exact .inl (requested.imp_right (.imp_left Finset.mem_insert_of_mem))
  | deliver | deliverDirected => exact .inl (requested_takes _ _ _ _ _)
  | handled => exact .inl (.inr (.inr (.inr rfl)))
  | brokenPipe => exact .inl (.inl rfl)
  | _ => exact .inl requested

theorem requests (run : Run Step (start file inherited) labels p) {signal : Signal}
    (request : signal ≠ .sigalrm) (raised : .raise signal ∈ labels) : p.Requested signal ∨
      signal = .sigterm ∧ .call (.timer (.sigwait 0 Aesd.Server.sigterm)) ∈ labels := by
  refine run.history (P := fun labels p => .raise signal ∈ labels → p.Requested signal ∨
      signal = .sigterm ∧ .call (.timer (.sigwait 0 Aesd.Server.sigterm)) ∈ labels)
    (by simp) ?_ raised
  rintro earlier label p p' - ih step raised
  rcases List.mem_append.mp raised with before | now
  · rcases ih before with requested | ⟨term, taken⟩
    · refine (requested.step request step).imp_right fun ⟨term, same⟩ => ⟨term, ?_⟩
      simp [same]
    · exact .inr ⟨term, List.mem_append_left _ taken⟩
  · obtain rfl := List.mem_singleton.mp now
    cases step.does with
    | raise => exact .inl (.inr (.inl (Finset.mem_insert_self _ _)))

theorem contained_start (file : List UInt8) (inherited : Finset Signal) :
    (start file inherited).Contained := by
  constructor <;> simp [start, MainPc.handled, MainPc.blocks]

theorem contained (run : Run Step (start file inherited) labels p)
    (masked : ∀ error, .sigmask error ∈ labels → error = 0) : p.Contained ∧ p.Done labels := by
  refine run.history (P := fun labels p => (∀ error, .sigmask error ∈ labels → error = 0) →
    p.Contained ∧ p.Done labels)
    (fun _ => ⟨contained_start file inherited, by constructor <;> simp [start]⟩) ?_ masked
  rintro earlier label p p' - ih step masked
  obtain ⟨inv, done⟩ := ih fun error mem => masked error (List.mem_append_left _ mem)
  exact ⟨inv.step step fun error same => masked error (by simp [same]), done.step inv step⟩

/-- The timer thread is in `sigwait` when two requests to stop come. The second interrupts it while
`main` is in the handler of the first, and it returns from its own only when `main` has joined the
others and sent it SIGTERM. -/
def shutdown : List SignalLabel :=
  [.setexit true, .setexit true, .sigmask 0, .createTimer, .call (.timer (.sigmask 0)),
    .call (.timer (.openFile true)), .call (.timer (.timerCreate true)),
    .call (.timer (.timerSettime true)), .call (.timer (.sigExit false)), .raise .sigint,
    .deliver .sigint none false, .raise .sigint, .deliver .sigint (some .timer) false,
    .handled none, .expire, .leave false, .joinedConns, .killTimer, .raise .sigterm,
    .handled (some .timer)]

theorem shutdown_run : ∃ p, Run Step (start [] ∅) shutdown p ∧ p.main = .joinTimer ∧
    p.server.timer.pc = .sigwait := by
  refine ⟨_, .cons ⟨by decide, rfl, by decide, .setexitTerm rfl⟩ <|
    .cons ⟨by decide, rfl, by decide, .setexitInt rfl⟩ <|
    .cons ⟨by decide, rfl, by decide, .sigmask rfl⟩ <|
    .cons ⟨by decide, rfl, by decide, .createTimer rfl⟩ <|
    .cons ⟨by decide, rfl, by decide, .timer _ _ _ rfl rfl .sigmask⟩ <|
    .cons ⟨by decide, rfl, by decide, .timer _ _ _ rfl rfl (.other _ rfl)⟩ <|
    .cons ⟨by decide, rfl, by decide, .timer _ _ _ rfl rfl (.other _ rfl)⟩ <|
    .cons ⟨by decide, rfl, by decide, .timer _ _ _ rfl rfl .armed⟩ <|
    .cons ⟨by decide, rfl, by decide, .timer _ _ _ rfl rfl .sigExit⟩ <|
    .cons ⟨by decide, rfl, by decide, .raise _ (by decide)⟩ <|
    .cons ⟨by decide, rfl, by decide, .deliver _ _ _ (by decide)
      ⟨by decide, show Signal.sigint ∉ ({.sigalrm} : Finset Signal) by decide⟩⟩ <|
    .cons ⟨by decide, rfl, by decide, .raise _ (by decide)⟩ <|
    .cons ⟨by decide, rfl, by decide, .deliver _ _ _ (by decide) ⟨by decide, rfl, by decide,
      show Signal.sigint ∉ ({.sigalrm} ∪ {.sigalrm, .sigterm} : Finset Signal) by decide⟩⟩ <|
    .cons ⟨by decide, rfl, by decide, .handled _ (by decide) (by decide)⟩ <|
    .cons ⟨by decide, rfl, by decide, .expire rfl⟩ <|
    .cons ⟨by decide, rfl, by decide, .leave rfl _ (.inr rfl)⟩ <|
    .cons ⟨by decide, rfl, by decide, .joinedConns rfl (by decide)⟩ <|
    .cons ⟨by decide, rfl, by decide, .killTimer rfl⟩ <|
    .cons ⟨by decide, rfl, by decide, .raise _ (by decide)⟩ <|
    .cons ⟨by decide, rfl, by decide, .handled _ (by decide) (by decide)⟩ <| .nil _, rfl, rfl⟩

/-- When SIGALRM could be blocked, in whatever order the threads run and signals come: the process
is ended only by a signal that comes before `main` has set its handlers, by an alarm from outside
before `main` has blocked SIGALRM, or by the SIGPIPE of a `send` to a client that is gone; the
alarms of the timer never end it, as no thread takes one but by `sigwait`. A request to stop is not
lost: it is still to be delivered, or a thread is in the handler, or `sig_exit` is set, or it is a
SIGTERM and `sigwait` of the timer thread took it. -/
theorem signals_contained (run : Run Step (start file inherited) labels p)
    (masked : ∀ error, .sigmask error ∈ labels → error = 0) :
    (p.died = true → (p.main = .setexitTerm ∨ p.main = .setexitInt) ∨
      (p.main = .sigmask ∧ .raise .sigalrm ∈ labels) ∨ ∃ i, .brokenPipe i ∈ labels) ∧
    (∀ thread logging, .deliver .sigalrm thread logging ∈ labels →
      p.died = true ∧ .raise .sigalrm ∈ labels) ∧
    ∀ signal, signal ≠ .sigalrm → .raise signal ∈ labels →
      p.died = true ∨ signal ∈ p.pending ∨ p.handling.Nonempty ∨ p.sigExit = true ∨
        signal = .sigterm ∧ .call (.timer (.sigwait 0 Aesd.Server.sigterm)) ∈ labels := by
  obtain ⟨-, done⟩ := contained run masked
  refine ⟨done.died, done.alarms, fun signal request raised => ?_⟩
  rcases requests run request raised with requested | taken
  · exact requested.imp_right (.imp_right (.imp_right .inl))
  · exact .inr (.inr (.inr (.inr taken)))

theorem signals_contained_shutdown : ∃ p, Run Step (start [] ∅) shutdown p ∧
    (p.died = true → (p.main = .setexitTerm ∨ p.main = .setexitInt) ∨
      (p.main = .sigmask ∧ .raise .sigalrm ∈ shutdown) ∨ ∃ i, .brokenPipe i ∈ shutdown) ∧
    ∀ signal, signal ≠ .sigalrm → .raise signal ∈ shutdown →
      p.died = true ∨ signal ∈ p.pending ∨ p.handling.Nonempty ∨ p.sigExit = true ∨
        signal = .sigterm ∧ .call (.timer (.sigwait 0 Aesd.Server.sigterm)) ∈ shutdown := by
  obtain ⟨p, run, -⟩ := shutdown_run
  obtain ⟨died, -, requests⟩ := signals_contained run (by simp [shutdown])
  exact ⟨p, run, died, requests⟩

end SignalServer

end Aesd.Server
