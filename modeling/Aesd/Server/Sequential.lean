import Aesd.Server.Serving
import Mathlib.Data.Fintype.EquivFin

/-! The server that keeps its data in the device as a sequential server: requests that are served
one after the other are answered from the last ten lines stored. -/

namespace Aesd.Server

open Aesd.CInt Aesd.Driver ProofKit

/-- A bound on the calls that are left in the service of `line`, when `total` bytes are stored at
its end. -/
def work (total : Nat) (line : List UInt8) (i : Nat) (s : DeviceServer) : Nat :=
  match (s.conn i).pc with
  | .openFile => line.length + 2 * total + 9
  | .getline => line.length + 2 * total + 8
  | .lock => line.length + 2 * total + 7
  | .write chars => chars.left.length + 2 * total + 6
  | .unlock _ => 2 * total + 6
  | .ioctl _ | .lseek => 2 * total + 5
  -- a byte that was not read yet takes at most a read and a send
  | .read => 2 * (total - (s.module.fPos i).toNat) + 4
  | .send chars => chars.left.length + 2 * (total - (s.module.fPos i).toNat) + 4
  | .free => 3
  | .closeFd => 2
  | .closeConn => 1
  | .exited => 0

variable {kernel : Kernel} {line : List UInt8} {i : Nat} {s s' : DeviceServer} {call : DeviceCall}
  {event : Event} {env : CallEnv}

theorem exists_fresh (heap : KHeap) : ∃ p, p ∉ heap := by
  obtain ⟨p, fresh⟩ := Infinite.exists_notMem_finset heap.keys.toFinset
  exact ⟨p, fun mem => fresh (List.mem_toFinset.mpr mem)⟩

namespace Serving

/-- Every call leaves less to do. -/
theorem work_lt (serving : Serving kernel line i s) (request : Request line)
    (step : ServeStep i line s call s') :
    work (answer kernel.stored line).stored.flatten.length line i s' <
      work (answer kernel.stored line).stored.flatten.length line i s := by
  have ok := serving.ok request step
  obtain ⟨rfl, ⟨-, -, granted⟩, went⟩ := step
  have acts := DeviceServer.step_acts serving.orderly.owned went ok
  obtain ⟨i, event, env⟩ := call
  have stages := serving.stages
  have orderly := serving.orderly
  simp only at stages granted acts ⊢
  rw [Stages] at stages
  clear went ok serving
  cases acts with
  | openFile pc | free pc | closeFd pc | closeConn pc => simp [work, pc]
  | ioctlFailed pc => simp [work, pc, ConnHandler.cleanup]
  | unlock pc => simp [work, pc]
  | unlockFailed pc bad => exact absurd (orderly.unlocks pc).2.1 (Int.ne_of_lt bad)
  | ioctl pc same target here | lseek pc same here =>
    simp only [work, pc, DeviceServer.moved_conn_self, DeviceServer.moved_module, here]
    omega
  | getline pc packet =>
    obtain rfl : packet = line := Option.some.inj granted
    rcases ConnHandler.dispatch_cases { s.conn i with packet } with
      ⟨-, eq⟩ | ⟨-, ⟨-, eq⟩ | ⟨seekto, -, eq⟩⟩
    all_goals
      rw [eq]
      simp only [work, pc, DeviceServer.moved_conn_self, ConnHandler.cleanup]
      omega
  | lock pc =>
    rw [pc] at stages
    obtain ⟨-, -, packet, -⟩ := stages
    rcases ConnHandler.writePc_cases (.start (s.conn i).packet) with ⟨-, eq⟩ | ⟨-, eq⟩
    all_goals
      rw [eq]
      simp only [work, pc, DeviceServer.moved_conn_self, packet, Putchars.start]
      omega
  | @write d chars pc =>
    have more := List.length_pos_iff.mpr (orderly.writes pc).2.2.2.1
    rcases ConnHandler.writePc_cases (chars.advance (chunk chars).length) with ⟨-, eq⟩ | ⟨-, eq⟩
    all_goals
      rw [eq]
      simp only [work, pc, DeviceServer.moved_conn_self, Putchars.advance_left, List.length_drop,
        chunk, List.length_take, maxRwCount]
      omega
  | @read d buffer pc same next =>
    rw [pc] at stages
    obtain ⟨-, stored, -, -, p, here, le, -⟩ := stages
    have contents : s.contents = (answer kernel.stored line).stored.flatten :=
      congrArg List.flatten stored
    have bound := orderly.owned.length_contents
    change s.contents.length ≤ _ at bound
    obtain ⟨n, atEnd, fits, bytes, moved⟩ := next p here (by omega)
    rw [contents] at fits bytes atEnd
    simp only [work, pc, DeviceServer.moved_conn_self, DeviceServer.moved_module, here, moved]
    by_cases empty : buffer = []
    · simp only [if_pos empty]
      omega
    · have pos : 0 < n := by
        apply Nat.pos_of_ne_zero
        rintro rfl
        exact empty bytes
      have room := fits pos
      have len := congrArg List.length bytes
      simp only [List.length_take, List.length_drop] at len
      simp only [if_neg empty, Putchars.start, Int.toNat_natCast]
      omega
  | @send chars bytesSent pc le =>
    rw [pc] at stages
    obtain ⟨-, more, -⟩ := stages
    have left := List.length_pos_iff.mpr more
    obtain ⟨n, rfl, pos⟩ : ∃ n, bytesSent = n ∧ 0 < n := by simpa using granted
    rcases ConnHandler.sendPc_cases (chars.advance bytesSent) with ⟨-, eq⟩ | ⟨-, eq⟩
    all_goals
      rw [eq]
      simp only [work, pc, DeviceServer.moved_conn_self, DeviceServer.moved_module,
        Putchars.advance_left, List.length_drop]
      omega

theorem call_device (event : Event) (env : CallEnv) {op : Op} {d : Loaded} {reply : Reply}
    {h : ConnHandler}
    (granted : DeviceCall.Granted ⟨i, event, env⟩ s.module.kernel.heap line)
    (onDevice : (s.conn i).pc.op i env = some op) (went : s.module.step op = .ok (d, reply))
    (returned : (s.conn i).pc.returns reply = some event) (opened : event ≠ .openFile false)
    (moves : (s.conn i).step true event = some h) :
    ∃ call s', ServeStep i line s call s' :=
  ⟨⟨i, event, env⟩, _, rfl, granted, DeviceServer.step_of_effect moves
    (DeviceServer.effect_op opened onDevice went returned)⟩

/-- Until the thread exits it can make its next call. -/
theorem progress (serving : Serving kernel line i s) (request : Request line)
    (running : (s.conn i).pc ≠ .exited) : ∃ call s', ServeStep i line s call s' := by
  have orderly := serving.orderly
  have own := orderly.owned
  obtain ⟨base, ring, wip, frame, holds⟩ := orderly.owned
  have stages := serving.stages
  rw [Stages] at stages
  cases pc : (s.conn i).pc with
  | openFile =>
    exact call_device (.openFile true) {} ⟨rfl, rfl, rfl⟩ (by rw [pc]; rfl) rfl
      (by rw [pc]; rfl) (by simp) (by unfold ConnHandler.step; rw [pc])
  | getline =>
    refine ⟨⟨i, .getline (some line), {}⟩, _, rfl, ⟨rfl, rfl, rfl⟩,
      DeviceServer.step_of_effect (e := s) (by unfold ConnHandler.step; rw [pc]) ?_⟩
    simp [DeviceServer.effect, pc, Pc.op]
  | ioctl seekto =>
    obtain ⟨d, reply, went, -⟩ := Loaded.step_total holds (.ioctl i aesdcharIocseekto seekto {})
    cases ok : decide (0 ≤ reply.retval) with
    | true =>
      exact call_device (.ioctl true) {} ⟨rfl, rfl, trivial⟩ (by rw [pc]; rfl) went
        (by rw [pc, Pc.returns, ok]) (by simp) (by unfold ConnHandler.step; rw [pc])
    | false =>
      exact call_device (.ioctl false) {} ⟨rfl, rfl, trivial⟩ (by rw [pc]; rfl)
        went (by rw [pc, Pc.returns, ok]) (by simp) (by unfold ConnHandler.step; rw [pc])
  | lock =>
    rw [pc] at stages
    refine ⟨⟨i, .lock 0, {}⟩, _, rfl, ⟨rfl, rfl, rfl⟩,
      DeviceServer.step_of_effect (e := { s with mutex := some i })
        (by unfold ConnHandler.step; rw [pc]) ?_⟩
    simp [DeviceServer.effect, pc, Pc.op, stages.1]
  | write chars =>
    obtain ⟨addr, fresh⟩ := exists_fresh s.module.kernel.heap
    obtain ⟨d, reply, went, good⟩ := own.write_total i (userBuf chars.left)
      ⟨addr, fun _ => 0⟩ 0 fresh (serving.write_fits request pc)
    have count := (own.write went good).1
    have le : reply.retval.toNat ≤ chars.left.length := by
      simp only [count, Int.toNat_natCast, userBuf, List.length_take]
      omega
    exact call_device (.write (some reply.retval.toNat))
      { allocation := some ⟨addr, fun _ => 0⟩ } ⟨rfl, rfl, _, rfl, fresh⟩
      (by rw [pc]; rfl) went (by simp [pc, Pc.returns, Int.not_lt.mpr good]) (by simp)
      (by unfold ConnHandler.step; rw [pc]; exact if_pos le)
  | unlock writeStatus =>
    obtain ⟨-, rfl, -⟩ := orderly.unlocks pc
    refine ⟨⟨i, .unlock 0, {}⟩, _, rfl, ⟨rfl, rfl, rfl⟩,
      DeviceServer.step_of_effect (e := { s with mutex := none })
        (by unfold ConnHandler.step; rw [pc]; exact if_neg (by simp)) ?_⟩
    simp [DeviceServer.effect, pc, Pc.op]
  | lseek =>
    obtain ⟨d, reply, went, -⟩ := Loaded.step_total holds (.llseek i 0 seekSet false)
    obtain ⟨good, -⟩ := ((own.llseek_start went).resolve_left (by simp)).2
    exact call_device (.lseek true) {} ⟨rfl, rfl, trivial⟩ (by rw [pc]; rfl) went
      (by simp [pc, Pc.returns, good]) (by simp) (by unfold ConnHandler.step; rw [pc])
  | read =>
    obtain ⟨p, here, small⟩ := serving.position pc
    obtain ⟨d, reply, went, good⟩ := own.read_total i connBufsize here small (by decide)
    obtain ⟨n, le, -, -, bytes, -⟩ := own.read went good here small (by decide)
    obtain ⟨h, moves⟩ : ∃ h, (s.conn i).step true
        (.read (some (reply.copied.take reply.retval.toNat))) = some h := by
      have short : (reply.copied.take reply.retval.toNat).length ≤ connBufsize := by
        rw [bytes, List.length_take]
        omega
      unfold ConnHandler.step
      rw [pc]
      by_cases empty : reply.copied.take reply.retval.toNat = []
      · exact ⟨_, if_pos empty⟩
      · exact ⟨_, (if_neg empty).trans (if_pos short)⟩
    exact call_device _ {} ⟨rfl, rfl, trivial⟩ (by rw [pc]; rfl) went
      (by simp [pc, Pc.returns, Int.not_lt.mpr good]) (by simp) moves
  | send chars =>
    rw [pc] at stages
    refine ⟨⟨i, .send (some chars.left.length), {}⟩, _, rfl,
      ⟨rfl, rfl, _, rfl, List.length_pos_iff.mpr stages.2.1⟩,
      DeviceServer.step_of_effect
        (by unfold ConnHandler.step; rw [pc]; exact if_pos (Nat.le_refl _))
        (by simp [DeviceServer.effect, pc, Pc.op]; rfl)⟩
  | free =>
    refine ⟨⟨i, .free, {}⟩, _, rfl, ⟨rfl, rfl, trivial⟩,
      DeviceServer.step_of_effect (e := s) (by unfold ConnHandler.step; rw [pc]) ?_⟩
    simp [DeviceServer.effect, pc, Pc.op]
  | closeFd =>
    exact call_device (.closeFd true) {} ⟨rfl, rfl, rfl⟩ (by rw [pc]; rfl) rfl
      (by rw [pc]; rfl) (by simp) (by unfold ConnHandler.step; rw [pc])
  | closeConn =>
    refine ⟨⟨i, .closeConn true, {}⟩, _, rfl, ⟨rfl, rfl, rfl⟩,
      DeviceServer.step_of_effect (e := s) (by unfold ConnHandler.step; rw [pc]) ?_⟩
    simp [DeviceServer.effect, pc, Pc.op]
  | exited => exact absurd pc running

end Serving

theorem answer_stored_of_seek {stored : List (List UInt8)}
    (seek : seektoPrefix.isPrefixOf line = true) : (answer stored line).stored = stored := by
  rw [answer, seek, if_pos rfl]
  split <;> rfl

/-- A seek command as the clients write it, with the numbers `x` and `y` in decimal. -/
def seekLine (x y : List UInt8) : List UInt8 :=
  seektoPrefix ++ (x ++ comma :: y ++ [newline])

/-- The answer to a seek command: a number that is too large to be parsed is too large for any
stored line. -/
theorem answer_seekLine {stored : List (List UInt8)} {x y : List UInt8} (numX : Numeral x)
    (numY : Numeral y) (smallX : decimal x < 2 ^ 32) (smallY : decimal y < 2 ^ 32)
    (count : stored.length ≤ 10) (short : ∀ l ∈ stored, l.length < 2 ^ 31) :
    answer stored (seekLine x y) =
      match stored[decimal x]? with
      | some l =>
        if decimal y < l.length then
          ⟨stored, stored.flatten.drop ((stored.take (decimal x)).flatten.length + decimal y), 0⟩
        else ⟨stored, [], -1⟩
      | none => ⟨stored, [], -1⟩ := by
  have seek : seektoPrefix.isPrefixOf (seekLine x y) = true :=
    List.isPrefixOf_iff_prefix.mpr (List.prefix_append _ _)
  have rest : (seekLine x y).drop seektoPrefix.length = x ++ comma :: y ++ [newline] :=
    List.drop_left
  obtain ⟨result, parsed, refused, values⟩ := parseSeekto_numerals numX numY smallX smallY
  rw [← rest] at parsed
  cases result with
  | none =>
    have large := refused.mp rfl
    rw [answer_of_refused seek (by rw [parsed]; rfl)]
    cases found : stored[decimal x]? with
    | none => rfl
    | some l =>
      obtain ⟨lt, rfl⟩ := List.getElem?_eq_some_iff.mp found
      have bound := short _ (List.getElem_mem lt)
      have outside : ¬ decimal y < stored[decimal x].length := by omega
      simp only [if_neg outside]
  | some seekto =>
    obtain ⟨cmd, offset⟩ := values seekto rfl
    cases found : stored[decimal x]? with
    | none =>
      have target : seekTarget stored seekto = none := by simp [seekTarget, cmd, found]
      exact answer_of_refused seek (by rw [parsed]; exact target)
    | some l =>
      have target : seekTarget stored seekto = if decimal y < l.length then
          some ((stored.take (decimal x)).flatten.length + decimal y) else none := by
        simp [seekTarget, cmd, offset, found]
      by_cases inside : decimal y < l.length
      · simp only [if_pos inside] at target ⊢
        exact answer_of_target seek parsed target
      · simp only [if_neg inside] at target ⊢
        exact answer_of_refused seek (by rw [parsed]; exact target)

/-- Connection `request.1` serves the line `request.2`, from its start to its end, and no other
thread makes a call meanwhile. -/
def Served (s : DeviceServer) (request : Nat × List UInt8) (s' : DeviceServer) : Prop :=
  s.conn request.1 = .start ∧ (∃ calls, Run (ServeStep request.1 request.2) s calls s') ∧
    (s'.conn request.1).pc = .exited

/-- The lines among some requests that are not seek commands. -/
def dataLines (requests : List (Nat × List UInt8)) : List (List UInt8) :=
  (requests.map Prod.snd).filter fun line => !seektoPrefix.isPrefixOf line

/-- Between two requests: the device holds the last ten of `lines`. -/
structure Idle (s : DeviceServer) (lines : List (List UInt8)) : Prop where
  orderly : Orderly s
  stored : s.stored = window 10 lines
  mutex : s.mutex = none
  unsent : ∀ i, s.conn i = .start → s.sent i = []

namespace Serving

theorem run {calls : List DeviceCall} (serving : Serving kernel line i s) (request : Request line)
    (run : Run (ServeStep i line) s calls s') : Serving kernel line i s' :=
  run.invariant (fun _ _ _ serving step => serving.step request step) serving

theorem frame {calls : List DeviceCall} (serving : Serving kernel line i s)
    (request : Request line) (run : Run (ServeStep i line) s calls s') {j : Nat} (ne : j ≠ i) :
    s'.conn j = s.conn j ∧ s'.sent j = s.sent j := by
  induction run with
  | nil => exact ⟨rfl, rfl⟩
  | cons step _ ih =>
    have acts := DeviceServer.step_acts serving.orderly.owned step.step (serving.ok request step)
    rw [step.mine] at acts
    obtain ⟨conn, sent, -⟩ := acts.frame ne
    rw [← conn, ← sent]
    exact ih (serving.step request step)

theorem exited (serving : Serving kernel line i s) (pc : (s.conn i).pc = .exited) :
    s.mutex = none ∧ s.stored = (answer kernel.stored line).stored ∧
      s.sent i = (answer kernel.stored line).response ∧
      (s.conn i).retval = (answer kernel.stored line).result := by
  have stages := serving.stages
  rwa [Stages, pc] at stages

end Serving

namespace Idle

variable {lines : List (List UInt8)}

theorem serving (idle : Idle s lines) (fresh : s.conn i = .start) (line : List UInt8) :
    Serving s.module.kernel line i s where
  orderly := idle.orderly
  stages := by
    rw [Stages, fresh]
    exact ⟨idle.mutex, rfl, idle.unsent i fresh, by rw [fresh]; rfl⟩
  device _ := rfl

theorem start {heap : KHeap} {initEnv : InitEnv}
    (init : aesdInitModule heap initEnv = (0, kernel)) :
    Idle (.start kernel) [] where
  orderly := .start init
  stored := by
    obtain ⟨base, holds⟩ := aesdInitModule_holds init
    exact holds.stored_eq
  mutex := rfl
  unsent _ _ := rfl

theorem served (idle : Idle s lines) (request : Request line) (served : Served s (i, line) s') :
    Idle s' (lines ++ if seektoPrefix.isPrefixOf line then [] else [line]) := by
  obtain ⟨fresh, ⟨calls, run⟩, pc⟩ := served
  have before := idle.serving fresh line
  have after := before.run request run
  obtain ⟨mutex, stored, -⟩ := after.exited pc
  refine ⟨after.orderly, ?_, mutex, ?_⟩
  · rw [stored]
    have here : s.module.kernel.stored = window 10 lines := idle.stored
    cases seek : seektoPrefix.isPrefixOf line with
    | true => rw [answer_stored_of_seek seek, here, if_pos rfl, List.append_nil]
    | false => rw [answer_of_data seek, here, window_window_append]; rfl
  · intro j start
    by_cases mine : j = i
    · rw [mine] at start
      simp [start, ConnHandler.start] at pc
    · obtain ⟨conn, sent⟩ := before.frame request run mine
      rw [sent]
      exact idle.unsent j (conn ▸ start)

theorem run {requests : List (Nat × List UInt8)} (idle : Idle s [])
    (run : Run Served s requests s') (ok : ∀ request ∈ requests, Request request.2) :
    Idle s' (dataLines requests) := by
  refine run.history (P := fun requests s => (∀ request ∈ requests, Request request.2) →
    Idle s (dataLines requests)) (fun _ => idle) ?_ ok
  rintro earlier ⟨i, line⟩ s s' - ih served ok
  simp only [List.forall_mem_append, List.forall_mem_singleton] at ok
  have next := (ih ok.1).served ok.2 served
  rw [dataLines, List.map_append, List.filter_append]
  cases seek : seektoPrefix.isPrefixOf line with
  | true => simpa [seek, dataLines] using next
  | false => simpa [seek, dataLines] using next

end Idle

/-- What the handler owes the client for a line, when the device holds the last ten of `lines`. -/
structure Answered (lines : List (List UInt8)) (line : List UInt8) (i : Nat)
    (s s' : DeviceServer) : Prop where
  data : seektoPrefix.isPrefixOf line = false →
    s'.sent i = (window 10 (lines ++ [line])).flatten ∧ (s'.conn i).retval = 0
  seek : ∀ x y, Numeral x → Numeral y → decimal x < 2 ^ 32 → decimal y < 2 ^ 32 →
    line = seekLine x y →
    s'.module.kernel = s.module.kernel ∧
    (∀ l, (window 10 lines)[decimal x]? = some l → decimal y < l.length →
      s'.sent i = (window 10 lines).flatten.drop
        (((window 10 lines).take (decimal x)).flatten.length + decimal y) ∧
      (s'.conn i).retval = 0) ∧
    ((∀ l, (window 10 lines)[decimal x]? = some l → l.length ≤ decimal y) →
      s'.sent i = [] ∧ (s'.conn i).retval = -1)

theorem Idle.answered {lines : List (List UInt8)} (idle : Idle s lines) (request : Request line)
    (served : Served s (i, line) s') : Answered lines line i s s' := by
  obtain ⟨fresh, ⟨calls, run⟩, pc⟩ := served
  have after := (idle.serving fresh line).run request run
  obtain ⟨-, -, sent, retval⟩ := after.exited pc
  have here : s.module.kernel.stored = window 10 lines := idle.stored
  rw [here] at sent retval
  constructor
  · intro data
    rw [answer_of_data data, window_window_append] at sent retval
    exact ⟨sent, retval⟩
  · intro x y numX numY smallX smallY eq
    have prefixed : seektoPrefix.isPrefixOf line = true := by
      rw [eq]
      exact List.isPrefixOf_iff_prefix.mpr (List.prefix_append _ _)
    have count := idle.orderly.owned.length_stored
    have short := idle.orderly.owned.stored_short
    rw [here] at count short
    rw [eq, answer_seekLine numX numY smallX smallY count short] at sent retval
    refine ⟨after.device prefixed, ?_, ?_⟩
    · intro l found inside
      simp only [found, if_pos inside] at sent retval
      exact ⟨sent, retval⟩
    · intro outside
      cases found : (window 10 lines)[decimal x]? with
      | none =>
        simp only [found] at sent retval
        exact ⟨sent, retval⟩
      | some l =>
        simp only [found, if_neg (Nat.not_lt.mpr (outside l found))] at sent retval
        exact ⟨sent, retval⟩

/-- The server is a sequential server of the last ten lines. After any sequence of requests the
service of the next one ends, however its calls go, and answers it from the lines so far. -/
theorem sequential_server {heap : KHeap} {initEnv : InitEnv}
    {requests : List (Nat × List UInt8)} (init : aesdInitModule heap initEnv = (0, kernel))
    (run : Run Served (.start kernel) requests s)
    (ok : ∀ request ∈ requests, Request request.2) (request : Request line)
    (fresh : s.conn i = .start) :
    (∃ s', Served s (i, line) s') ∧
    (∃ bound, ∀ calls s', Run (ServeStep i line) s calls s' → calls.length ≤ bound ∧
      ((s'.conn i).pc ≠ .exited → ∃ call s'', ServeStep i line s' call s'')) ∧
    ∀ s', Served s (i, line) s' → Answered (dataLines requests) line i s s' := by
  have idle := (Idle.start init).run run ok
  have serving := idle.serving fresh line
  have keeps : ∀ t call t', Serving s.module.kernel line i t → ServeStep i line t call t' →
      Serving s.module.kernel line i t' := fun _ _ _ serving step => serving.step request step
  have less : ∀ t call t', Serving s.module.kernel line i t → ServeStep i line t call t' → _ :=
    fun _ _ _ serving step => serving.work_lt request step
  refine ⟨?_, ⟨work (answer s.module.kernel.stored line).stored.flatten.length line i s, ?_⟩,
    fun s' served => idle.answered request served⟩
  · have ended : ∃ calls s', Run (ServeStep i line) s calls s' ∧ (s'.conn i).pc = .exited :=
      Run.exists_final keeps less (fun _ serving running => serving.progress request running)
        serving
    obtain ⟨calls, s', went, pc⟩ := ended
    exact ⟨s', fresh, ⟨calls, went⟩, pc⟩
  · intro calls s' went
    refine ⟨Nat.le_of_add_right_le (Run.length_le keeps less went serving), ?_⟩
    intro running
    exact (serving.run request went).progress request running

/-- A line is stored, and a seek command is answered from its second byte on. -/
theorem sequential_two_requests : ∃ s s', Served (.start loadedKernel) (0, [97, 98, newline]) s ∧
    Served s (1, seekLine [48] [49]) s' ∧ s'.sent 1 = [98, newline] := by
  have first : Request [97, 98, newline] := ⟨by decide, by decide, by decide⟩
  have second : Request (seekLine [48] [49]) := ⟨by decide, by decide, by decide⟩
  obtain ⟨⟨s, served⟩, -⟩ := sequential_server loadedKernel_eq (.nil _) (by simp) first
    (show (DeviceServer.start loadedKernel).conn 0 = .start from rfl)
  have fresh : s.conn 1 = .start := by
    obtain ⟨start, ⟨calls, run⟩, -⟩ := served
    exact (((Idle.start loadedKernel_eq).serving start _).frame first run (by decide)).1
  obtain ⟨⟨s', served'⟩, -, answered⟩ := sequential_server loadedKernel_eq (.single served)
    (by simpa using first) second fresh
  refine ⟨s, s', served, served', ?_⟩
  have digit (c : UInt8) (digit : isdigit c) : Numeral [c] :=
    ⟨List.cons_ne_nil c [], List.forall_mem_singleton.mpr digit⟩
  exact (((answered s' served').seek [48] [49] (digit 48 (by decide)) (digit 49 (by decide))
    (by decide) (by decide) rfl).2.1 [97, 98, newline] (by decide) (by decide)).1

end Aesd.Server
