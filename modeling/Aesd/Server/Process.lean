import Aesd.Server.FileServer
import Aesd.Server.Releases
import Aesd.Server.Startup
import Aesd.Server.TimerReleases

/-! The server as a process: its threads name files and sockets by descriptors, and a descriptor
that one thread closed is given to the next that opens. Each call goes to whatever its descriptor
refers to at that time, which proves to be the thread's own file or socket. -/

namespace Aesd.Server

open ProofKit

/-- The server with its table. Of each thread it has the variables that hold descriptors: none is
created for a connection without a descriptor, and `fd` is -1 after a failed `open`. Library code
has descriptors of its own, for the log and the like. -/
structure Process where
  server : FileServer
  sockFd : Nat
  table : Descriptors Object
  accepted : Nat
  descriptor : Nat → Option Nat
  fd : Nat → Option Nat
  timerFd : Option Nat
  library : List Nat

/-- A connection that was accepted, a call of a thread, or library code at work. -/
inductive ProcessLabel
  | accept
  | call (label : Label)
  | libraryOpens
  | libraryCloses (fd : Nat)
  deriving DecidableEq, Repr

def ProcessLabel.label : ProcessLabel → Option Label
  | .call label => some label
  | _ => none

/-- A call that neither opens nor closes. -/
def Event.keepsTable : Event → Bool
  | .openFile _ | .closeFd _ | .closeConn _ => false
  | _ => true

def TimerEvent.keepsTable : TimerEvent → Bool
  | .openFile _ | .closeFd _ => false
  | _ => true

namespace FileServer

/-- `write` to a descriptor of `o`. -/
def writeTo (s : FileServer) (chars : List UInt8) : Object → Option FileServer
  | .file i =>
    let file := s.file ++ chars
    some { s with file, offset := Function.update s.offset i file.length }
  | .timerFile => some { s with file := s.file ++ chars }
  | .socket i => some { s with sent := Function.update s.sent i (s.sent i ++ chars) }
  | .listener => none
  | .inherited | .null | .library => some s

/-- `read` that returned `buffer`. The timer thread opens its file for writing only. -/
def readFrom (s : FileServer) (buffer : List UInt8) : Object → Option FileServer
  | .file i =>
    if canRead s.file (s.offset i) buffer then
      some { s with offset := Function.update s.offset i (s.offset i + buffer.length) }
    else none
  | .null => if buffer = [] then some s else none
  | .timerFile | .listener => none
  | .inherited | .socket _ | .library => some s

/-- `lseek` to the start. -/
def seekTo (s : FileServer) : Object → Option FileServer
  | .file i => some { s with offset := Function.update s.offset i 0 }
  | .socket _ | .listener => none
  | .inherited | .null | .library | .timerFile => some s

/-- `send`, which is for sockets only. -/
def sendTo (s : FileServer) (chars : List UInt8) : Object → Option FileServer
  | .socket i => some { s with sent := Function.update s.sent i (s.sent i ++ chars) }
  | _ => none

/-- `recv` that succeeds. -/
def recvFrom (s : FileServer) : Object → Option FileServer
  | .socket _ => some s
  | _ => none

end FileServer

namespace Process

/-- The process when `main` comes to its accept loop. -/
def start (file : List UInt8) (sockFd : Nat) (table : Descriptors Object) : Process where
  server := .start file
  sockFd := sockFd
  table := table
  accepted := 0
  descriptor _ := none
  fd _ := none
  timerFd := none
  library := []

/-- A call that succeeds on what the descriptor refers to. -/
def onObject (p : Process) (fd : Option Nat) (effect : Object → Option FileServer) :
    Option Process := do
  let fd ← fd
  let o ← p.table.object fd
  let server ← effect o
  return { p with server }

/-- `close`, which frees the descriptor also when it reports an error of the file. -/
def close (p : Process) (fd : Option Nat) (ok : Bool) : Option Process :=
  match fd.bind p.table.close with
  | some table => some { p with table }
  | none => if ok then none else some p

/-- What a call of connection `i` does outside its thread. -/
def connEffect (p : Process) (i : Nat) (event : Event) : Option Process :=
  match (p.server.conn i).pc, event with
  | _, .openFile true =>
    let (fd, table) := p.table.opens (.file i)
    some { p with
      table
      fd := Function.update p.fd i (some fd)
      server := { p.server with offset := Function.update p.server.offset i 0 } }
  | _, .openFile false => some { p with fd := Function.update p.fd i none }
  | _, .getline (some _) => p.onObject (p.descriptor i) p.server.recvFrom
  | _, .lock error => do
    let server ← p.server.mutexLock (.conn i) error
    return { p with server }
  | _, .unlock error => some { p with server := p.server.mutexUnlock error }
  | .write chars, .write (some bytesSent) =>
    p.onObject (p.fd i) (p.server.writeTo (chars.left.take bytesSent))
  | _, .lseek true => p.onObject (p.fd i) p.server.seekTo
  | _, .read (some buffer) => p.onObject (p.fd i) (p.server.readFrom buffer)
  | .send chars, .send (some bytesSent) =>
    p.onObject (p.descriptor i) (p.server.sendTo (chars.left.take bytesSent))
  | _, .closeFd ok => p.close (p.fd i) ok
  | _, .closeConn ok => p.close (p.descriptor i) ok
  | _, _ => some p

/-- What a call of the timer thread does outside it. -/
def timerEffect (p : Process) (event : TimerEvent) : Option Process :=
  match p.server.timer.pc, event with
  | _, .openFile true =>
    let (fd, table) := p.table.opens .timerFile
    some { p with table, timerFd := some fd }
  | _, .openFile false => some { p with timerFd := none }
  | _, .lock error => do
    let server ← p.server.mutexLock .timer error
    return { p with server }
  | _, .unlock error => some { p with server := p.server.mutexUnlock error }
  | .write chars, .write (some bytesSent) =>
    p.onObject p.timerFd (p.server.writeTo (chars.left.take bytesSent))
  | _, .closeFd ok => p.close p.timerFd ok
  | _, _ => some p

def step (p : Process) : ProcessLabel → Option Process
  | .accept =>
    if p.table.object p.sockFd = some .listener then
      let (connFd, table) := p.table.opens (.socket p.accepted)
      -- 0 is taken for no connection
      let descriptor :=
        if connFd > 0 then Function.update p.descriptor p.accepted (some connFd) else p.descriptor
      some { p with table, descriptor, accepted := p.accepted + 1 }
    else none
  | .call (.conn i event) =>
    if (p.descriptor i).isSome then do
      let h ← (p.server.conn i).step false event
      let p' ← p.connEffect i event
      return { p' with server := { p'.server with conn := Function.update p.server.conn i h } }
    else none
  | .call (.timer event) => do
    let h ← p.server.timer.step event
    let p' ← p.timerEffect event
    return { p' with server := { p'.server with timer := h } }
  | .libraryOpens =>
    let (fd, table) := p.table.opens .library
    some { p with table, library := fd :: p.library }
  | .libraryCloses fd =>
    if fd ∈ p.library then do
      let table ← p.table.close fd
      return { p with table, library := p.library.filter (· ≠ fd) }
    else none

def Step (p : Process) (label : ProcessLabel) (p' : Process) : Prop := p.step label = some p'

/-- The thread or the library that has `o` open, and has it at `n`. -/
def Holds (p : Process) : Object → Nat → Prop
  | .library, n => n ∈ p.library
  | .timerFile, n => p.timerFd = some n ∧ .fd ∈ p.server.timer.pc.held
  | .file i, n => p.fd i = some n ∧ .fd ∈ (p.server.conn i).pc.held
  | .socket i, n => p.descriptor i = some n ∧ .descriptor ∈ (p.server.conn i).pc.held
  | .inherited, _ | .null, _ | .listener, _ => False

variable {p p' : Process} {t : Descriptors Object} {i : Nat} {event : Event} {h : ConnHandler}

/-- What can be said of a process that was started with the table `t`. -/
structure Tidy (t : Descriptors Object) (p : Process) : Prop where
  owned : Descriptors.Owned t p.Holds p.table
  lasting : ∀ n o, t.object n = some o → o = .inherited ∨ o = .null ∨ o = .listener
  std : (t.object 0).isSome
  listening : t.object p.sockFd = some .listener
  created : ∀ i, (p.descriptor i).isSome ↔ i < p.accepted
  waiting : ∀ i, p.descriptor i = none → p.server.conn i = .start

theorem onObject_eq {fd : Option Nat} {effect : Object → Option FileServer} {o : Object}
    (mine : ∀ n, fd = some n → p.table.object n = some o)
    (called : p.onObject fd effect = some p') :
    ∃ server, effect o = some server ∧ p' = { p with server } := by
  simp only [onObject, Option.bind_eq_bind, Option.bind_eq_some_iff] at called
  obtain ⟨n, given, o', found, server, does, same⟩ := called
  obtain rfl : o' = o := Option.some.inj (found.symm.trans (mine n given))
  exact ⟨server, does, (Option.some.inj same).symm⟩

theorem close_server {fd : Option Nat} {ok : Bool} (closed : p.close fd ok = some p') :
    p'.server = p.server := by
  unfold Process.close at closed
  repeat' split at closed
  all_goals first | contradiction | (cases closed; rfl)

/-- A descriptor of its own that a thread or the library closes. -/
theorem Tidy.close (tidy : p.Tidy t) {o : Object} {fd : Option Nat} {ok : Bool}
    (mine : ∀ n, p.Holds o n ↔ fd = some n) (closed : p.close fd ok = some p') :
    (∃ table, p' = { p with table }) ∧
      Descriptors.Owned t (fun j n => p.Holds j n ∧ j ≠ o) p'.table := by
  cases fd with
  | none =>
    simp only [Process.close, Option.bind_none] at closed
    split at closed
    · contradiction
    · cases closed
      refine ⟨⟨_, rfl⟩, tidy.owned.congr fun j n => and_iff_left_of_imp ?_⟩
      rintro held rfl
      exact absurd ((mine n).mp held) (by simp)
  | some m =>
    have held := (mine m).mpr rfl
    rw [Process.close, Option.bind_some, Descriptors.close_eq (tidy.owned.object held)] at closed
    cases closed
    refine ⟨⟨_, rfl⟩, tidy.owned.closes held ?_ fun j n => and_congr_right fun other => ?_⟩
    · intro fixed
      rcases tidy.lasting m o fixed with rfl | rfl | rfl <;> exact held
    · refine not_congr ⟨?_, And.left⟩
      rintro rfl
      exact ⟨rfl, (Option.some.inj ((mine n).mp other)).symm⟩

/-- What a call of connection `i` does to the table. -/
inductive ConnMoves (p : Process) (i : Nat) : Event → Process → Prop
  | opened (server : FileServer) : ConnMoves p i (.openFile true)
      { p with
        server
        table := (p.table.opens (.file i)).2
        fd := Function.update p.fd i (some p.table.lowest) }
  | openFailed : ConnMoves p i (.openFile false) { p with fd := Function.update p.fd i none }
  | closedFd (ok : Bool) (p' : Process) (closed : p.close (p.fd i) ok = some p') :
      ConnMoves p i (.closeFd ok) p'
  | closedConn (ok : Bool) (p' : Process) (closed : p.close (p.descriptor i) ok = some p') :
      ConnMoves p i (.closeConn ok) p'
  | other (event : Event) (server : FileServer) (other : event.keepsTable = true) :
      ConnMoves p i event { p with server }

/-- A call goes to the thread's own file or socket. -/
theorem Tidy.connEffect (tidy : p.Tidy t) (moved : (p.server.conn i).step false event = some h)
    (called : p.connEffect i event = some p') :
    p.server.connEffect i event = some p'.server ∧ p.ConnMoves i event p' := by
  have file (held : .fd ∈ (p.server.conn i).pc.held) (n : Nat) (given : p.fd i = some n) :
      p.table.object n = some (.file i) :=
    tidy.owned.object (show p.Holds (.file i) n from ⟨given, held⟩)
  have socket (held : .descriptor ∈ (p.server.conn i).pc.held) (n : Nat)
      (given : p.descriptor i = some n) : p.table.object n = some (.socket i) :=
    tidy.owned.object (show p.Holds (.socket i) n from ⟨given, held⟩)
  cases ConnHandler.step_moves moved with
  | openFile pc =>
    cases called
    exact ⟨rfl, .opened _⟩
  | openFailed pc =>
    cases called
    exact ⟨rfl, .openFailed⟩
  | getline pc packet =>
    obtain ⟨server, does, rfl⟩ := onObject_eq (socket (by rw [pc]; decide)) called
    cases does
    exact ⟨rfl, .other _ _ rfl⟩
  | lock pc error =>
    simp only [Process.connEffect, Option.bind_eq_bind, Option.bind_eq_some_iff] at called
    obtain ⟨server, does, same⟩ := called
    cases same
    exact ⟨does, .other _ _ rfl⟩
  | unlock _ pc =>
    cases called
    exact ⟨rfl, .other _ _ rfl⟩
  | unlockFailed _ pc error =>
    cases called
    exact ⟨rfl, .other _ _ rfl⟩
  | write chars pc bytesSent =>
    simp only [Process.connEffect, pc] at called
    obtain ⟨server, does, rfl⟩ := onObject_eq (file (by simp [pc, Pc.held])) called
    cases does
    exact ⟨by simp only [FileServer.connEffect, pc], .other _ _ rfl⟩
  | lseek pc =>
    obtain ⟨server, does, rfl⟩ := onObject_eq (file (by rw [pc]; decide)) called
    cases does
    exact ⟨rfl, .other _ _ rfl⟩
  | readEnd pc =>
    obtain ⟨server, does, rfl⟩ := onObject_eq (file (by rw [pc]; decide)) called
    exact ⟨does, .other _ _ rfl⟩
  | read pc buffer =>
    obtain ⟨server, does, rfl⟩ := onObject_eq (file (by rw [pc]; decide)) called
    exact ⟨does, .other _ _ rfl⟩
  | send chars pc bytesSent =>
    simp only [Process.connEffect, pc] at called
    obtain ⟨server, does, rfl⟩ := onObject_eq (socket (by simp [pc, Pc.held])) called
    cases does
    exact ⟨by simp only [FileServer.connEffect, pc], .other _ _ rfl⟩
  | closeFd pc ok => exact ⟨congrArg some (close_server called).symm, .closedFd ok p' called⟩
  | closeConn pc ok => exact ⟨congrArg some (close_server called).symm, .closedConn ok p' called⟩
  | getlineFailed | ioctl | ioctlFailed | lseekFailed | readFailed | free =>
    cases called
    exact ⟨rfl, .other _ _ rfl⟩
  | writeFailed | sendFailed =>
    simp only [Process.connEffect] at called
    cases called
    exact ⟨by simp only [FileServer.connEffect], .other _ _ rfl⟩

/-- After a call of connection `i`, what is held is to be seen for its own file and socket. -/
theorem holds_conn {q : Process} {held : Object → Nat → Prop}
    (timer : q.server.timer = p.server.timer) (fd : ∀ j, j ≠ i → q.fd j = p.fd j)
    (descriptor : q.descriptor = p.descriptor) (timerFd : q.timerFd = p.timerFd)
    (library : q.library = p.library)
    (file : ∀ n, q.fd i = some n ∧ .fd ∈ h.pc.held ↔ held (.file i) n)
    (socket : ∀ n, p.descriptor i = some n ∧ .descriptor ∈ h.pc.held ↔ held (.socket i) n)
    (others : ∀ o n, o ≠ .file i → o ≠ .socket i → (p.Holds o n ↔ held o n)) (o : Object)
    (n : Nat) :
    ({ q with
        server := { q.server with
          conn := Function.update p.server.conn i h } } : Process).Holds o n ↔ held o n := by
  cases o with
  | file j =>
    by_cases same : j = i
    · subst j
      simp [← file, Holds]
    · simp [← others _ _ (by simpa using same : Object.file j ≠ .file i), Holds, same, fd j same]
  | socket j =>
    by_cases same : j = i
    · subst j
      simp [← socket, Holds, descriptor]
    · simp [← others _ _ (by simp) (by simpa using same : Object.socket j ≠ .socket i), Holds,
        same, descriptor]
  | inherited | null | listener | library | timerFile =>
    rw [← others _ n (by simp) (by simp)]
    simp [Holds, timer, timerFd, library]

/-- A call that leaves the table alone leaves the descriptors that the thread holds. -/
theorem mem_held (moved : (p.server.conn i).step false event = some h)
    (other : event.keepsTable = true) {r : Resource} (named : r = .descriptor ∨ r = .fd) :
    r ∈ h.pc.held ↔ r ∈ (p.server.conn i).pc.held := by
  have acts : Act.acquire r ∉ event.acts false ∧ Act.release r ∉ event.acts false := by
    cases event with
    | openFile | closeFd | closeConn => simp [Event.keepsTable] at other
    | getline packet =>
      cases packet <;> rcases named with rfl | rfl <;> simp [Event.acts]
    | _ => rcases named with rfl | rfl <;> simp [Event.acts]
  exact (ConnHandler.Step.custody moved).mem_iff acts.1 acts.2

/-- The calls of a connection keep the process tidy, and are those of the server. -/
theorem Tidy.conn (tidy : p.Tidy t) (step : p.Step (.call (.conn i event)) p') :
    p'.Tidy t ∧ p.server.Step (.conn i event) p'.server := by
  simp only [Step, Process.step, Option.ite_none_right_eq_some, Option.bind_eq_bind,
    Option.bind_eq_some_iff] at step
  obtain ⟨thread, h, moved, q, called, same⟩ := step
  cases same
  obtain ⟨effect, moves⟩ := tidy.connEffect moved called
  have timer : q.server.timer = p.server.timer := (FileServer.connEffect_threads effect).2
  refine ⟨?_, by simp [FileServer.Step, FileServer.step, moved, effect]⟩
  have waiting (j : Nat) (none : p.descriptor j = none) :
      Function.update p.server.conn i h j = .start := by
    rw [Function.update_of_ne (by rintro rfl; simp [none] at thread), tidy.waiting j none]
  cases moves with
  | opened server =>
    refine ⟨tidy.owned.opens (k := .file i) ?_, tidy.lasting, tidy.std, tidy.listening,
      tidy.created, waiting⟩
    cases ConnHandler.step_moves moved with
    | openFile pc =>
      refine holds_conn timer (fun j other => Function.update_of_ne other _ _) rfl rfl rfl
        (fun n => ?_) (fun n => ?_) fun o n notFile _ => ?_
      · simp [Holds, pc, Pc.held, eq_comm]
      · simp [Holds, pc, Pc.held]
      · simp [notFile]
  | openFailed =>
    refine ⟨tidy.owned.congr ?_, tidy.lasting, tidy.std, tidy.listening, tidy.created, waiting⟩
    cases ConnHandler.step_moves moved with
    | openFailed pc =>
      refine holds_conn timer (fun j other => Function.update_of_ne other _ _) rfl rfl rfl
        (fun n => ?_) (fun n => ?_) fun _ _ _ _ => Iff.rfl
      · simp [Holds, pc, Pc.held]
      · simp [Holds, pc, Pc.held]
  | closedFd ok q closed =>
    cases ConnHandler.step_moves moved with
    | closeFd pc =>
      have mine (n : Nat) : p.Holds (.file i) n ↔ p.fd i = some n := by simp [Holds, pc, Pc.held]
      obtain ⟨⟨table, rfl⟩, owned⟩ := tidy.close mine closed
      refine ⟨owned.congr ?_, tidy.lasting, tidy.std, tidy.listening, tidy.created, waiting⟩
      refine holds_conn timer (fun _ _ => rfl) rfl rfl rfl (fun n => ?_) (fun n => ?_)
        fun o n notFile _ => ?_
      · simp [Pc.held]
      · simp [Holds, pc, Pc.held]
      · simp [notFile]
  | closedConn ok q closed =>
    cases ConnHandler.step_moves moved with
    | closeConn pc =>
      have mine (n : Nat) : p.Holds (.socket i) n ↔ p.descriptor i = some n := by
        simp [Holds, pc, Pc.held]
      obtain ⟨⟨table, rfl⟩, owned⟩ := tidy.close mine closed
      refine ⟨owned.congr ?_, tidy.lasting, tidy.std, tidy.listening, tidy.created, waiting⟩
      refine holds_conn timer (fun _ _ => rfl) rfl rfl rfl (fun n => ?_) (fun n => ?_)
        fun o n _ notSocket => ?_
      · simp [Holds, pc, Pc.held]
      · simp [Pc.held]
      · simp [notSocket]
  | other event server other =>
    refine ⟨tidy.owned.congr ?_, tidy.lasting, tidy.std, tidy.listening, tidy.created, waiting⟩
    exact holds_conn timer (fun _ _ => rfl) rfl rfl rfl
      (fun n => and_congr_right fun _ => mem_held moved other (.inr rfl))
      (fun n => and_congr_right fun _ => mem_held moved other (.inl rfl)) fun _ _ _ _ => Iff.rfl

section Timer

variable {event : TimerEvent} {h : TimerHandler}

/-- What a call of the timer thread does to the table. -/
inductive TimerMoves (p : Process) : TimerEvent → Process → Prop
  | opened : TimerMoves p (.openFile true)
      { p with table := (p.table.opens .timerFile).2, timerFd := some p.table.lowest }
  | openFailed : TimerMoves p (.openFile false) { p with timerFd := none }
  | closed (ok : Bool) (p' : Process) (closed : p.close p.timerFd ok = some p') :
      TimerMoves p (.closeFd ok) p'
  | other (event : TimerEvent) (server : FileServer) (other : event.keepsTable = true) :
      TimerMoves p event { p with server }

theorem Tidy.timerEffect (tidy : p.Tidy t) (moved : p.server.timer.step event = some h)
    (called : p.timerEffect event = some p') :
    p.server.timerEffect event = some p'.server ∧ p.TimerMoves event p' := by
  have file (held : .fd ∈ p.server.timer.pc.held) (n : Nat) (given : p.timerFd = some n) :
      p.table.object n = some .timerFile :=
    tidy.owned.object (show p.Holds .timerFile n from ⟨given, held⟩)
  cases TimerHandler.Step.outcome moved with
  | openFile =>
    cases called
    exact ⟨rfl, .opened⟩
  | openFailed =>
    cases called
    exact ⟨rfl, .openFailed⟩
  | lock =>
    simp only [Process.timerEffect, Option.bind_eq_bind, Option.bind_eq_some_iff] at called
    obtain ⟨server, does, same⟩ := called
    cases same
    exact ⟨does, .other _ _ rfl⟩
  | lockFailed =>
    simp only [Process.timerEffect, Option.bind_eq_bind, Option.bind_eq_some_iff] at called
    obtain ⟨server, does, same⟩ := called
    cases same
    exact ⟨does, .other _ _ rfl⟩
  | write chars pc bytesSent =>
    simp only [Process.timerEffect, pc] at called
    obtain ⟨server, does, rfl⟩ := onObject_eq (file (by simp [pc, TimerPc.held])) called
    cases does
    exact ⟨by simp only [FileServer.timerEffect, pc], .other _ _ rfl⟩
  | closeFd pc ok => exact ⟨congrArg some (close_server called).symm, .closed ok p' called⟩
  | writeFailed =>
    simp only [Process.timerEffect] at called
    cases called
    exact ⟨by simp only [FileServer.timerEffect], .other _ _ rfl⟩
  | _ =>
    cases called
    exact ⟨rfl, .other _ _ rfl⟩

/-- The timer thread has its file open from the call of `open` to that of `close`. -/
theorem timer_mem_held (moved : p.server.timer.step event = some h)
    (other : event.keepsTable = true) :
    .fd ∈ h.pc.held ↔ .fd ∈ p.server.timer.pc.held := by
  by_cases created : event = .timerCreate false
  · subst created
    cases TimerHandler.Step.outcome moved with
    | timerFailed pc => simp [pc, TimerHandler.cleanup, TimerPc.held]
  · have opened : event ≠ .openFile false := by
      rintro rfl
      simp [TimerEvent.keepsTable] at other
    have acts : Act.acquire .fd ∉ event.acts ∧ Act.release .fd ∉ event.acts := by
      cases event with
      | openFile | closeFd => simp [TimerEvent.keepsTable] at other
      | timerCreate ok => cases ok <;> simp [TimerEvent.acts]
      | lock error | unlock error => by_cases ok : error = 0 <;> simp [TimerEvent.acts, ok]
      | _ => simp [TimerEvent.acts]
    cases keeps : event.keepsMutex with
    | false => exact (TimerHandler.Step.custody moved opened created keeps).mem_iff acts.1 acts.2
    | true =>
      have kept := (TimerHandler.Step.keeps moved keeps).2.mem_iff acts.1 acts.2
      simpa using kept

theorem holds_timer {q : Process} {held : Object → Nat → Prop}
    (conn : q.server.conn = p.server.conn) (fd : q.fd = p.fd)
    (descriptor : q.descriptor = p.descriptor) (library : q.library = p.library)
    (file : ∀ n, q.timerFd = some n ∧ .fd ∈ h.pc.held ↔ held .timerFile n)
    (others : ∀ o n, o ≠ .timerFile → (p.Holds o n ↔ held o n)) (o : Object) (n : Nat) :
    ({ q with server := { q.server with timer := h } } : Process).Holds o n ↔ held o n := by
  cases o with
  | timerFile => simp [← file, Holds]
  | inherited | null | listener | library | file | socket =>
    rw [← others _ n (by simp)]
    simp [Holds, conn, fd, descriptor, library]

/-- The calls of the timer thread keep the process tidy, and are those of the server. -/
theorem Tidy.timer (tidy : p.Tidy t) (step : p.Step (.call (.timer event)) p') :
    p'.Tidy t ∧ p.server.Step (.timer event) p'.server := by
  simp only [Step, Process.step, Option.bind_eq_bind, Option.bind_eq_some_iff] at step
  obtain ⟨h, moved, q, called, same⟩ := step
  cases same
  obtain ⟨effect, moves⟩ := tidy.timerEffect moved called
  have conn : q.server.conn = p.server.conn := (FileServer.timerEffect_threads effect).1
  refine ⟨?_, by simp [FileServer.Step, FileServer.step, moved, effect]⟩
  have waiting (j : Nat) (none : p.descriptor j = none) : q.server.conn j = .start := by
    rw [conn, tidy.waiting j none]
  cases moves with
  | opened =>
    refine ⟨tidy.owned.opens (k := .timerFile) ?_, tidy.lasting, tidy.std, tidy.listening,
      tidy.created, waiting⟩
    cases TimerHandler.Step.outcome moved with
    | openFile pc =>
      refine holds_timer conn rfl rfl rfl (fun n => ?_) fun o n other => ?_
      · simp [Holds, pc, TimerPc.held, eq_comm]
      · simp [other]
  | openFailed =>
    refine ⟨tidy.owned.congr ?_, tidy.lasting, tidy.std, tidy.listening, tidy.created, waiting⟩
    cases TimerHandler.Step.outcome moved with
    | openFailed pc =>
      refine holds_timer conn rfl rfl rfl (fun n => ?_) fun _ _ _ => Iff.rfl
      simp [Holds, pc, TimerPc.held]
  | closed ok q closed =>
    cases TimerHandler.Step.outcome moved with
    | closeFd pc =>
      have mine (n : Nat) : p.Holds .timerFile n ↔ p.timerFd = some n := by
        simp [Holds, pc, TimerPc.held]
      obtain ⟨⟨table, rfl⟩, owned⟩ := tidy.close mine closed
      refine ⟨owned.congr ?_, tidy.lasting, tidy.std, tidy.listening, tidy.created, waiting⟩
      refine holds_timer conn rfl rfl rfl (fun n => ?_) fun o n other => ?_
      · simp [TimerPc.held]
      · simp [other]
  | other event server other =>
    refine ⟨tidy.owned.congr ?_, tidy.lasting, tidy.std, tidy.listening, tidy.created, waiting⟩
    exact holds_timer conn rfl rfl rfl
      (fun n => and_congr_right fun _ => timer_mem_held moved other) fun _ _ _ => Iff.rfl

end Timer

/-- `accept` never gives 0, which the loop takes for no connection. -/
theorem Tidy.accept_eq (tidy : p.Tidy t) (step : p.Step .accept p') :
    p' = { p with
      table := (p.table.opens (.socket p.accepted)).2
      accepted := p.accepted + 1
      descriptor := Function.update p.descriptor p.accepted (some p.table.lowest) } := by
  have std : (p.table.object 0).isSome := by
    obtain ⟨o, used⟩ := Option.isSome_iff_exists.mp tidy.std
    rw [(tidy.owned 0 o).mpr (.inl used)]
    rfl
  have above : (p.table.opens (.socket p.accepted)).1 > 0 :=
    Nat.pos_of_ne_zero (Descriptors.ne_lowest std).symm
  simp only [Step, Process.step, if_pos above, Option.ite_none_right_eq_some] at step
  exact (Option.some.inj step.2).symm

theorem Tidy.accept (tidy : p.Tidy t) (step : p.Step .accept p') :
    p'.Tidy t ∧ p'.server = p.server := by
  obtain rfl := tidy.accept_eq step
  have new : p.descriptor p.accepted = none := by
    rw [← Option.not_isSome_iff_eq_none, tidy.created]
    exact Nat.lt_irrefl _
  have descriptor (i : Nat) (other : i ≠ p.accepted) :
      Function.update p.descriptor p.accepted (some p.table.lowest) i = p.descriptor i :=
    Function.update_of_ne other _ _
  refine ⟨⟨tidy.owned.opens (k := .socket p.accepted) fun o n => ?_, tidy.lasting, tidy.std,
    tidy.listening, fun i => ?_, fun i none => ?_⟩, rfl⟩
  · cases o with
    | socket i =>
      by_cases same : i = p.accepted
      · subst same
        simp [Holds, new, tidy.waiting _ new, ConnHandler.start, Pc.held, eq_comm]
      · simp [Holds, same]
    | _ => simp [Holds]
  · by_cases same : i = p.accepted
    · simp [same]
    · have before := tidy.created i
      simp only [descriptor i same, before]
      omega
  · by_cases same : i = p.accepted
    · simp [same] at none
    · exact tidy.waiting i (by rw [← descriptor i same]; exact none)

theorem Tidy.libraryOpens (tidy : p.Tidy t) (step : p.Step .libraryOpens p') :
    p'.Tidy t ∧ p'.server = p.server := by
  cases step
  refine ⟨⟨tidy.owned.opens (k := .library) fun o n => ?_, tidy.lasting, tidy.std, tidy.listening,
    tidy.created, tidy.waiting⟩, rfl⟩
  cases o with
  | library => simp [Holds, or_comm]
  | _ => simp [Holds]

theorem Tidy.libraryCloses {fd : Nat} (tidy : p.Tidy t) (step : p.Step (.libraryCloses fd) p') :
    p'.Tidy t ∧ p'.server = p.server := by
  simp only [Step, Process.step, Option.ite_none_right_eq_some, Option.bind_eq_bind,
    Option.bind_eq_some_iff] at step
  obtain ⟨mine, table, closed, same⟩ := step
  have held : p.Holds .library fd := mine
  rw [Descriptors.close_eq (tidy.owned.object held)] at closed
  cases closed
  cases same
  refine ⟨⟨tidy.owned.closes held (fun fixed => ?_) fun o n => ?_, tidy.lasting, tidy.std,
    tidy.listening, tidy.created, tidy.waiting⟩, rfl⟩
  · simpa using tidy.lasting fd .library fixed
  · cases o with
    | library => simp [Holds]
    | _ => simp [Holds]

/-- A step of the process is one of the server, or none. -/
theorem Tidy.step {label : ProcessLabel} (tidy : p.Tidy t) (step : p.Step label p') :
    p'.Tidy t ∧ Run FileServer.Step p.server label.label.toList p'.server := by
  cases label with
  | accept =>
    obtain ⟨tidy, same⟩ := tidy.accept step
    exact ⟨tidy, same ▸ .nil _⟩
  | call label =>
    cases label with
    | conn i event => exact (tidy.conn step).imp_right .single
    | timer event => exact (tidy.timer step).imp_right .single
  | libraryOpens =>
    obtain ⟨tidy, same⟩ := tidy.libraryOpens step
    exact ⟨tidy, same ▸ .nil _⟩
  | libraryCloses fd =>
    obtain ⟨tidy, same⟩ := tidy.libraryCloses step
    exact ⟨tidy, same ▸ .nil _⟩

theorem Tidy.run {labels : List ProcessLabel} (tidy : p.Tidy t) (run : Run Step p labels p') :
    p'.Tidy t ∧ Run FileServer.Step p.server (labels.filterMap ProcessLabel.label) p'.server :=
  run.project (fun _ _ _ tidy step => tidy.step step) tidy

/-- From a start with 0, 1 and 2 in use, the server does with its descriptors what it does with the
files and sockets themselves: each run of the process is a run of the server. What is open is what
was open when the loop began, with the socket that listens, and each thread's own file and socket
as long as it has not closed them. No connection is lost by having got 0 as its descriptor. -/
theorem descriptors_kept {t t' : Descriptors Object} {daemonMode : Bool} {sockEnv : SockEnv}
    {daemonEnv : DaemonEnv} {sockFd : Nat} {file : List UInt8} {labels : List ProcessLabel}
    (inherits : ∀ n o, t.object n = some o → o = .inherited) (std : ∀ n < 3, (t.object n).isSome)
    (started : startup t daemonMode sockEnv daemonEnv = some (sockFd, t'))
    (run : Run Step (start file sockFd t') labels p) :
    Run FileServer.Step (.start file) (labels.filterMap ProcessLabel.label) p.server ∧
    (∀ n o, p.table.object n = some o ↔ t'.object n = some o ∨ p.Holds o n) ∧
    p.table.object p.sockFd = some .listener ∧
    ∀ i < p.accepted, (p.descriptor i).isSome := by
  have object := startup_object std started
  have tidy : (start file sockFd t').Tidy t' := by
    refine ⟨fun n o => ?_, fun n o used => ?_, ?_, ?_, fun i => by simp [start], fun _ _ => rfl⟩
    · cases o <;> simp [start, Holds]
    · rw [object] at used
      split at used
      · exact .inr (.inr (Option.some.inj used).symm)
      · split at used
        · exact .inr (.inl (Option.some.inj used).symm)
        · exact .inl (inherits n o used)
    · rw [object]
      split
      · rfl
      · split
        · rfl
        · exact std 0 (by omega)
    · rw [start, object, if_pos rfl]
  obtain ⟨tidy, server⟩ := tidy.run run
  exact ⟨server, tidy.owned, (tidy.owned _ _).mpr (.inl tidy.listening),
    fun i below => (tidy.created i).mpr below⟩

/-- The file of the second connection is opened at the descriptor that the first one closed. -/
theorem descriptors_kept_reused : ∃ p : Process, p.fd 0 = some 5 ∧ p.fd 1 = some 5 ∧
    p.table.object 5 = some (.file 1) ∧ p.table.object 4 = some (.socket 0) ∧
    Run FileServer.Step (.start []) [.conn 0 (.openFile true), .conn 0 (.getline none),
      .conn 0 (.closeFd true), .conn 1 (.openFile true)] p.server := by
  have inherits : ∀ n o, Descriptors.object [some .inherited, some .inherited, some .inherited] n =
      some o → o = Object.inherited := by
    intro n o used
    rcases n with _ | _ | _ | n <;> simp [Descriptors.object] at used <;> exact used.symm
  have run : ∃ p, Run Step
      (start [] 3 [some .null, some .null, some .null, some .listener, none])
      [.accept, .call (.conn 0 (.openFile true)), .accept, .call (.conn 0 (.getline none)),
        .call (.conn 0 (.closeFd true)), .call (.conn 1 (.openFile true))] p ∧
      p.fd 0 = some 5 ∧ p.fd 1 = some 5 ∧ p.descriptor 0 = some 4 ∧
      .fd ∈ (p.server.conn 1).pc.held ∧ .descriptor ∈ (p.server.conn 0).pc.held :=
    ⟨_, .cons rfl (.cons rfl (.cons rfl (.cons rfl (.cons rfl (.cons rfl (.nil _)))))), rfl, rfl,
      rfl, by decide, by decide⟩
  obtain ⟨p, run, first, second, conn, file, socket⟩ := run
  have started : startup [some .inherited, some .inherited, some .inherited] true
      ⟨true, true, true, true⟩ ⟨true, true, true, true⟩ =
        some (3, [some .null, some .null, some .null, some .listener, none]) := by decide
  obtain ⟨server, kept, -⟩ := descriptors_kept inherits (by decide) started run
  exact ⟨p, first, second, (kept 5 (.file 1)).mpr (.inr ⟨second, file⟩),
    (kept 4 (.socket 0)).mpr (.inr ⟨conn, socket⟩), server⟩

end Process

end Aesd.Server
