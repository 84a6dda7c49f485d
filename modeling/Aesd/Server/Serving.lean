import Aesd.Server.Orderly

/-! The service of one request: only one thread runs, and no call of it fails for lack of resources.
Whatever lengths the calls return, the thread ends after a bounded number of calls, and what is then
stored, sent and returned is a function of what was stored before and of the line received. -/

namespace Aesd.Server

open Aesd.CInt Aesd.Driver ProofKit

/-- What is stored after a request, the bytes sent, and the result of the thread. -/
structure Answer where
  stored : List (List UInt8)
  response : List UInt8
  result : Int

/-- The answer to a line: a seek command is answered with the contents from its target on, and
refused without a target, and any other line is stored and answered with the contents. -/
def answer (stored : List (List UInt8)) (line : List UInt8) : Answer :=
  if seektoPrefix.isPrefixOf line then
    match (parseSeekto (line.drop seektoPrefix.length)).bind (seekTarget stored) with
    | some q => ⟨stored, stored.flatten.drop q, 0⟩
    | none => ⟨stored, [], -1⟩
  else
    let stored := window 10 (stored ++ [line])
    ⟨stored, stored.flatten, 0⟩

/-- A request: a line without NUL that `kmalloc` has a block for. -/
structure Request (line : List UInt8) : Prop where
  whole : IsLine line
  noNul : 0 ∉ line
  short : line.length < 2 ^ 31

/-- Nothing interrupts the call, the memory of the thread is valid, the line arrives, and no
resource is missing. A `send` takes at least one byte. -/
def DeviceCall.Granted (call : DeviceCall) (heap : KHeap) (line : List UInt8) : Prop :=
  call.env.interrupted = false ∧ call.env.uncopied = 0 ∧
    match call.event with
    | .openFile ok | .closeFd ok | .closeConn ok => ok = true
    | .getline packet => packet = some line
    | .lock error | .unlock error => error = 0
    | .write _ => ∃ found, call.env.allocation = some found ∧ found.addr ∉ heap
    | .send bytesSent => ∃ n, bytesSent = some n ∧ 0 < n
    | .ioctl _ | .lseek _ | .read _ | .free => True

/-- A call of connection `i` while it serves `line`. -/
structure ServeStep (i : Nat) (line : List UInt8) (s : DeviceServer) (call : DeviceCall)
    (s' : DeviceServer) : Prop where
  mine : call.conn = i
  granted : call.Granted s.module.kernel.heap line
  step : s.Step call s'

/-- The response once `got` was read: the rest of it is what the file position has in front. -/
def Streaming (a : Answer) (i : Nat) (s : DeviceServer) (got : List UInt8) : Prop :=
  s.stored = a.stored ∧ (s.conn i).abort = false ∧ a.result = 0 ∧
    ∃ p : Nat, s.module.fPos i = p ∧ p ≤ s.contents.length ∧ got ++ s.contents.drop p = a.response

/-- Nothing was done yet, or only the packet was received. -/
def Untouched (kernel : Kernel) (i : Nat) (s : DeviceServer) : Prop :=
  s.stored = kernel.stored ∧ s.sent i = [] ∧ (s.conn i).abort = false

/-- The stages of the service of `line` by connection `i`, which began when the device was
`kernel`. -/
def Stages (kernel : Kernel) (line : List UInt8) (i : Nat) (s : DeviceServer) : Prop :=
  let a := answer kernel.stored line
  match (s.conn i).pc with
  | .openFile | .getline => s.mutex = none ∧ Untouched kernel i s
  | .ioctl seekto => s.mutex = none ∧ Untouched kernel i s ∧ (s.conn i).packet = line ∧
      (s.conn i).isData = false ∧
      parseSeekto (line.drop seektoPrefix.length) = some seekto
  | .lock => s.mutex = none ∧ Untouched kernel i s ∧ (s.conn i).packet = line ∧
      (s.conn i).isData = true
  | .write _ => Untouched kernel i s ∧ (s.conn i).packet = line ∧ (s.conn i).isData = true
  | .unlock _ => s.stored = a.stored ∧ s.sent i = [] ∧ (s.conn i).abort = false ∧
      (s.conn i).packet = line ∧ (s.conn i).isData = true
  | .lseek => s.mutex = none ∧ s.stored = a.stored ∧ s.sent i = [] ∧ (s.conn i).abort = false ∧
      (s.conn i).packet = line ∧ (s.conn i).isData = true
  | .read => s.mutex = none ∧ Streaming a i s (s.sent i)
  | .send chars => s.mutex = none ∧ chars.left ≠ [] ∧ Streaming a i s (s.sent i ++ chars.left)
  | .free | .closeFd | .closeConn | .exited => s.mutex = none ∧ s.stored = a.stored ∧
      s.sent i = a.response ∧ (s.conn i).retval = a.result

/-- A service in progress. A seek command leaves the device as it is. -/
structure Serving (kernel : Kernel) (line : List UInt8) (i : Nat) (s : DeviceServer) : Prop where
  orderly : Orderly s
  stages : Stages kernel line i s
  device : seektoPrefix.isPrefixOf line → s.module.kernel = kernel

variable {kernel : Kernel} {line : List UInt8} {i : Nat} {s s' : DeviceServer} {call : DeviceCall}
  {chars : Putchars} {event : Event} {env : CallEnv}

namespace Serving

theorem stage (serving : Serving kernel line i s) {pc : Pc} (here : (s.conn i).pc = pc) :
    Stages kernel line i s ∧ (s.conn i).pc = pc := ⟨serving.stages, here⟩

/-- The working entry and the rest of the packet fit in one block. -/
theorem write_fits (serving : Serving kernel line i s) (request : Request line)
    (pc : (s.conn i).pc = .write chars) :
    s.pending.length + (userBuf chars.left).bytes.length + 1 ≤ kmallocMaxSize := by
  have stages := serving.stages
  rw [Stages, pc] at stages
  obtain ⟨-, packet, -⟩ := stages
  obtain ⟨-, -, buffer, -, pending⟩ := serving.orderly.writes pc
  have len := congrArg List.length buffer
  have short := request.short
  have limit : kmallocMaxSize = 2 ^ 31 := rfl
  rw [packet] at len
  simp only [Putchars.buffer, List.length_append] at len
  simp only [userBuf, List.length_take, pending]
  omega

theorem position (serving : Serving kernel line i s) (pc : (s.conn i).pc = .read) :
    ∃ p : Nat, s.module.fPos i = p ∧ p < 2 ^ 63 := by
  have stages := serving.stages
  rw [Stages, pc] at stages
  obtain ⟨-, -, -, -, p, here, le, -⟩ := stages
  have bound := serving.orderly.owned.length_contents
  change s.contents.length ≤ _ at bound
  exact ⟨p, here, by omega⟩

theorem ok (serving : Serving kernel line i s) (request : Request line)
    (step : ServeStep i line s call s') : call.Ok := by
  obtain ⟨rfl, ⟨free, copied, granted⟩, step⟩ := step
  obtain ⟨h, e, moves, effect, -⟩ := DeviceServer.step_eq_some step
  obtain ⟨i, event, env⟩ := call
  have own := serving.orderly.owned
  simp only at serving moves effect free copied granted
  cases ConnHandler.step_moves moves with
  | openFailed | getlineFailed | sendFailed => simp at granted
  | closeFd pc ok | closeConn pc ok =>
    obtain rfl : ok = true := granted
    exact .inl rfl
  | lock pc error | unlockFailed writeStatus pc error =>
    obtain rfl : error = 0 := granted
    exact .inl rfl
  | ioctlFailed => exact .inr rfl
  | writeFailed chars pc =>
    obtain ⟨d, reply, write, returned, -⟩ := DeviceServer.effect_of_op effect (by simp)
      (by simp only [pc]; rfl)
    obtain ⟨found, allocation, fresh⟩ := granted
    obtain ⟨d', reply', write', good⟩ := own.write_total i (userBuf chars.left) _ env.stray fresh
      (serving.write_fits request pc)
    simp only [free, copied, allocation] at write
    rw [write'] at write
    cases write
    have bad : reply.retval < 0 := by
      by_contra positive
      simp [pc, Pc.returns, positive] at returned
    omega
  | lseekFailed pc =>
    obtain ⟨d, reply, seek, returned, -⟩ := DeviceServer.effect_of_op effect (by simp)
      (by simp only [pc]; rfl)
    have bad : reply.retval < 0 := by simpa [pc, Pc.returns] using returned
    rcases own.llseek_start seek with ⟨interrupted, -⟩ | ⟨-, good, -⟩
    · simp [free] at interrupted
    · omega
  | readFailed pc =>
    obtain ⟨d, reply, read, returned, -⟩ := DeviceServer.effect_of_op effect (by simp)
      (by simp only [pc]; rfl)
    obtain ⟨p, here, small⟩ := serving.position pc
    obtain ⟨d', reply', read', good⟩ := own.read_total i connBufsize here small (by decide)
    simp only [free, copied] at read
    rw [read'] at read
    cases read
    have bad : reply.retval < 0 := by
      by_contra positive
      simp [pc, Pc.returns, positive] at returned
    omega
  | _ => exact .inl rfl

theorem lines (request : Request line) (step : ServeStep i line s call s') : call.Lines := by
  obtain ⟨-, ⟨-, -, granted⟩, -⟩ := step
  intro packet received
  cases event : call.event with
  | getline result =>
    rw [event] at granted received
    obtain rfl : packet = line := Option.some.inj (received.symm.trans granted)
    exact request.whole
  | _ => simp [event, Event.received] at received

end Serving

theorem answer_of_data {stored : List (List UInt8)} (data : seektoPrefix.isPrefixOf line = false) :
    answer stored line =
      ⟨window 10 (stored ++ [line]), (window 10 (stored ++ [line])).flatten, 0⟩ := by
  rw [answer, data]
  rfl

theorem answer_of_target {stored : List (List UInt8)} {seekto : AesdSeekto} {q : Nat}
    (seek : seektoPrefix.isPrefixOf line = true)
    (parsed : parseSeekto (line.drop seektoPrefix.length) = some seekto)
    (target : seekTarget stored seekto = some q) :
    answer stored line = ⟨stored, stored.flatten.drop q, 0⟩ := by
  rw [answer, seek, parsed, Option.bind_some, target]
  rfl

theorem answer_of_refused {stored : List (List UInt8)} (seek : seektoPrefix.isPrefixOf line = true)
    (refused : (parseSeekto (line.drop seektoPrefix.length)).bind (seekTarget stored) = none) :
    answer stored line = ⟨stored, [], -1⟩ := by
  rw [answer, seek, refused]
  rfl

theorem Streaming.start {a : Answer} {p : Nat} (stored : s.stored = a.stored)
    (abort : (s.conn i).abort = false) (result : a.result = 0) (here : s.module.fPos i = p)
    (le : p ≤ a.stored.flatten.length) (response : a.response = a.stored.flatten.drop p) :
    Streaming a i s [] := by
  have contents : s.contents = a.stored.flatten := congrArg List.flatten stored
  refine ⟨stored, abort, result, p, here, by rwa [contents], ?_⟩
  rw [contents, response, List.nil_append]

/-- A `read` gives the next part of the response, or nothing when it is complete. -/
theorem Streaming.next {a : Answer} {got buffer : List UInt8} {d : Loaded} {h : ConnHandler}
    (streaming : Streaming a i s got) (owned : s.module.Owned) (same : SameData i s.module d)
    (abort : h.abort = (s.conn i).abort)
    (next : ∀ p : Nat, s.module.fPos i = p → p < 2 ^ 63 →
      ∃ n, (n = 0 ↔ s.contents.length ≤ p) ∧ (0 < n → p + n ≤ s.contents.length) ∧
        buffer = (s.contents.drop p).take n ∧ d.fPos i = (p + n : Nat)) :
    if buffer = [] then got = a.response else Streaming a i (s.moved i d h) (got ++ buffer) := by
  obtain ⟨stored, clean, result, p, here, le, response⟩ := streaming
  have bound := owned.length_contents
  change s.contents.length ≤ _ at bound
  obtain ⟨n, atEnd, fits, rfl, moved⟩ := next p here (by omega)
  by_cases past : s.contents.length ≤ p
  · rw [if_pos (by rw [atEnd.mpr past, List.take_zero])]
    rwa [List.drop_eq_nil_of_le past, List.append_nil] at response
  · have pos : 0 < n := Nat.pos_of_ne_zero fun zero => past (atEnd.mp zero)
    have room := fits pos
    have some_ : (s.contents.drop p).take n ≠ [] := by
      intro empty
      have len := congrArg List.length empty
      simp only [List.length_take, List.length_drop, List.length_nil] at len
      omega
    have contents : (s.moved i d h).contents = s.contents :=
      congrArg Kernel.contents same.kernel
    rw [if_neg some_]
    refine ⟨(congrArg Kernel.stored same.kernel).trans stored, ?_, result, p + n, moved, ?_, ?_⟩
    · rwa [DeviceServer.moved_conn_self, abort]
    · rwa [contents]
    · rw [contents, ← List.drop_drop, List.append_assoc, List.take_append_drop, response]

namespace Serving

/-- What is left of the service after a call of the thread. -/
theorem stages_step (serving : Serving kernel line i s) (request : Request line)
    (acts : Acts s i env event s') (free : env.interrupted = false) (copied : env.uncopied = 0)
    (arrives : ∀ packet ∈ event.received, packet = line) : Stages kernel line i s' := by
  have stages := serving.stages
  have orderly := serving.orderly
  rw [Stages] at stages ⊢
  cases acts with
  | openFile pc same =>
    rw [pc] at stages
    rw [DeviceServer.moved_conn_self]
    obtain ⟨mutex, stored, sent, abort⟩ := stages
    refine ⟨mutex, (congrArg Kernel.stored same.kernel).trans stored, sent, ?_⟩
    rwa [DeviceServer.moved_conn_self]
  | getline pc packet =>
    rw [pc] at stages
    obtain rfl : packet = line := arrives packet rfl
    obtain ⟨mutex, stored, sent, abort⟩ := stages
    rw [DeviceServer.moved_conn_self]
    rcases ConnHandler.dispatch_cases { s.conn i with packet } with
      ⟨data, eq⟩ | ⟨seek, ⟨refused, eq⟩ | ⟨seekto, parsed, eq⟩⟩
    · rw [eq]
      exact ⟨mutex, ⟨stored, sent, by simpa using abort⟩, rfl, data⟩
    · rw [eq]
      have prefixed := ConnHandler.isData_eq_false.mp seek
      simp only at refused
      rw [answer_of_refused prefixed (by rw [refused]; rfl)]
      exact ⟨mutex, stored, sent, rfl⟩
    · rw [eq]
      exact ⟨mutex, ⟨stored, sent, by simpa using abort⟩, rfl, seek, parsed⟩
  | @ioctl d seekto q pc same target here =>
    rw [pc] at stages
    obtain ⟨mutex, ⟨stored, sent, abort⟩, packet, seek, parsed⟩ := stages
    have prefixed : seektoPrefix.isPrefixOf line = true :=
      packet ▸ ConnHandler.isData_eq_false.mp seek
    rw [stored] at target
    rw [answer_of_target prefixed parsed target, DeviceServer.moved_conn_self]
    refine ⟨mutex, ?_⟩
    simp only [DeviceServer.moved_sent, sent]
    exact .start ((congrArg Kernel.stored same.kernel).trans stored) (by simpa using abort) rfl
      here (seekTarget_le target).le rfl
  | @ioctlFailed d seekto pc same refused =>
    rw [pc] at stages
    obtain ⟨mutex, ⟨stored, sent, abort⟩, packet, seek, parsed⟩ := stages
    have prefixed : seektoPrefix.isPrefixOf line = true :=
      packet ▸ ConnHandler.isData_eq_false.mp seek
    have none := refused free copied
    rw [stored] at none
    rw [answer_of_refused prefixed (by rw [parsed]; exact none), DeviceServer.moved_conn_self]
    exact ⟨mutex, (congrArg Kernel.stored same.kernel).trans stored, sent, rfl⟩
  | lock pc =>
    rw [pc] at stages
    obtain ⟨mutex, untouched, packet, data⟩ := stages
    rw [DeviceServer.moved_conn_self]
    rcases ConnHandler.writePc_cases (.start (s.conn i).packet) with ⟨left, eq⟩ | ⟨-, eq⟩
    · have empty : line = [] := packet.symm.trans left
      exact absurd request.whole.1 (by simp [empty])
    · rw [eq]
      exact ⟨⟨untouched.1, untouched.2.1, by simpa using untouched.2.2⟩, packet, data⟩
  | @write d chars pc fPos data =>
    rw [pc] at stages
    obtain ⟨⟨stored, sent, abort⟩, packet, isData⟩ := stages
    rw [DeviceServer.moved_conn_self]
    have notSeek : seektoPrefix.isPrefixOf line = false :=
      packet ▸ ConnHandler.isData_eq_true.mp isData
    rcases orderly.write_cases pc data with ⟨left, stores, -⟩ | ⟨more, same, -⟩
    · rcases ConnHandler.writePc_cases (chars.advance (chunk chars).length) with ⟨-, eq⟩ | ⟨more, -⟩
      · rw [eq, answer_of_data notSeek]
        rw [stored, packet] at stores
        exact ⟨stores, sent, by simpa using abort, packet, isData⟩
      · exact absurd left more
    · rcases ConnHandler.writePc_cases (chars.advance (chunk chars).length) with ⟨left, -⟩ | ⟨-, eq⟩
      · exact absurd left more
      · rw [eq]
        exact ⟨⟨same.trans stored, sent, by simpa using abort⟩, packet, isData⟩
  | unlock pc =>
    rw [pc] at stages
    rw [DeviceServer.moved_conn_self]
    exact ⟨rfl, stages⟩
  | unlockFailed pc bad => exact absurd (orderly.unlocks pc).2.1 (Int.ne_of_lt bad)
  | lseek pc same here =>
    rw [pc] at stages
    obtain ⟨mutex, stored, sent, abort, packet, data⟩ := stages
    have notSeek : seektoPrefix.isPrefixOf line = false :=
      packet ▸ ConnHandler.isData_eq_true.mp data
    rw [DeviceServer.moved_conn_self]
    refine ⟨mutex, ?_⟩
    simp only [DeviceServer.moved_sent, sent]
    exact .start ((congrArg Kernel.stored same.kernel).trans stored) (by simpa using abort)
      (by rw [answer_of_data notSeek]) here (Nat.zero_le _) (by rw [answer_of_data notSeek]; rfl)
  | @read d buffer pc same next =>
    rw [pc] at stages
    obtain ⟨mutex, streaming⟩ := stages
    have went := streaming.next (h := { s.conn i with
      pc := if buffer = [] then .free else .send (.start buffer) }) orderly.owned same rfl next
    rw [DeviceServer.moved_conn_self]
    by_cases empty : buffer = []
    · rw [if_pos empty] at went
      simp only [if_pos empty]
      refine ⟨mutex, (congrArg Kernel.stored same.kernel).trans streaming.1, went, ?_⟩
      rw [streaming.2.2.1]
      simp [ConnHandler.retval, streaming.2.1]
    · rw [if_neg empty] at went
      simp only [if_neg empty] at went ⊢
      exact ⟨mutex, empty, went⟩
  | @send chars bytesSent pc le =>
    rw [pc] at stages
    obtain ⟨mutex, -, stored, abort, result, rest⟩ := stages
    rw [DeviceServer.moved_conn_self]
    have sent : s.sent i ++ chars.left =
        Function.update s.sent i (s.sent i ++ chars.left.take bytesSent) i ++
          (chars.advance bytesSent).left := by
      rw [Function.update_self, List.append_assoc, Putchars.advance_left, List.take_append_drop]
    rw [sent] at rest
    rcases ConnHandler.sendPc_cases (chars.advance bytesSent) with ⟨left, eq⟩ | ⟨more, eq⟩
    · rw [left, List.append_nil] at rest
      rw [eq]
      exact ⟨mutex, stored, by simpa using abort, result, rest⟩
    · rw [eq]
      exact ⟨mutex, more, stored, by simpa using abort, result, rest⟩
  | free pc =>
    rw [pc] at stages
    rw [DeviceServer.moved_conn_self]
    exact stages
  | closeFd pc same =>
    rw [pc] at stages
    obtain ⟨mutex, stored, rest⟩ := stages
    rw [DeviceServer.moved_conn_self]
    exact ⟨mutex, (congrArg Kernel.stored same.kernel).trans stored, rest⟩
  | closeConn pc =>
    rw [pc] at stages
    rw [DeviceServer.moved_conn_self]
    exact stages

/-- Only a line that is stored changes the device. -/
theorem device_step (serving : Serving kernel line i s) (acts : Acts s i env event s')
    (seek : seektoPrefix.isPrefixOf line) : s'.module.kernel = kernel := by
  rw [← serving.device seek]
  apply acts.kernel
  rintro n rfl
  cases acts with
  | write pc =>
    have stages := serving.stages
    rw [Stages, pc] at stages
    obtain ⟨-, packet, data⟩ := stages
    rw [ConnHandler.isData_eq_true, packet, seek] at data
    contradiction

theorem step (serving : Serving kernel line i s) (request : Request line)
    (step : ServeStep i line s call s') : Serving kernel line i s' := by
  have ok := serving.ok request step
  have lines := lines request step
  obtain ⟨rfl, ⟨free, copied, granted⟩, went⟩ := step
  have acts := DeviceServer.step_acts serving.orderly.owned went ok
  refine ⟨serving.orderly.step went ok lines, serving.stages_step request acts free copied ?_,
    serving.device_step acts⟩
  intro packet received
  cases event : call.event with
  | getline result =>
    rw [event] at granted received
    exact Option.some.inj (received.symm.trans granted)
  | _ => simp [event, Event.received] at received

end Serving

end Aesd.Server
