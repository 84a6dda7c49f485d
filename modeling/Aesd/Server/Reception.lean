import Aesd.Server.DeviceRecords
import Aesd.Server.FirstLine
import Aesd.Server.Sessions

/-! From the bytes on the socket to the data of the server. The servers above take the packet of a
connection from an event; here the calls of `recv` that bring it are steps of their own, between the
steps of the other threads, and the packet is what `sock_getline` makes of them. -/

namespace Aesd.Server

open Aesd.CInt Aesd.Driver ProofKit

namespace Getline

variable {initial : Fin buflen → UInt8} {buffer line : List UInt8} {input last : Input}
  {inputs before : List Input}

/-- A `recv` that fills the buffer replaces all that stood in it before. -/
theorem cstr_fill_full (terminated : Terminated buffer)
    (full : input.bytes.length = sockReadbufsize) (noNul : 0 ∉ input.bytes) :
    cstr 0 (fill buffer input.bytes) = input.bytes := by
  obtain ⟨inside, stop⟩ := List.getElem_of_getElem? terminated.stop
  rw [fill, full, List.drop_eq_getElem_cons inside, stop, cstr_append_stop noNul]

theorem quiet_of_full (terminated : Terminated buffer)
    (full : ∀ input ∈ inputs, input.received.isSome ∧ input.bytes.length = sockReadbufsize)
    (noNul : 0 ∉ received inputs) (noNewline : newline ∉ received inputs) :
    Quiet buffer inputs := by
  induction inputs generalizing buffer with
  | nil => trivial
  | cons input inputs ih =>
    simp only [List.forall_mem_cons] at full
    simp only [received, List.flatMap_cons, List.mem_append, not_or] at noNul noNewline
    obtain ⟨⟨delivered, whole⟩, full⟩ := full
    refine ⟨delivered, ?_, ih (terminated.fill (Nat.le_of_eq whole)) full noNul.2 noNewline.2⟩
    rw [Shows, cstr_fill_full terminated whole noNul.1]
    exact noNewline.1

theorem room_of_short {n : Nat} (short : n < 2 * sockReadbufsize) : n + 1 ≤ allocated n := by
  have grown : capacityFor (sockReadbufsize + (n - sockReadbufsize)) =
      if capacityFor sockReadbufsize < _ then _ else _ :=
    capacityFor_add sockReadbufsize (by omega)
  rw [capacityFor_of_le (Nat.le_refl _)] at grown
  unfold allocated
  split
  · rename_i small
    exact Nat.succ_le_succ small
  · rename_i large
    rw [if_pos (by omega), Nat.add_sub_cancel' (by omega)] at grown
    omega

/-- At most one `recv` fills the buffer in front of the end of a line of less than 128 bytes. -/
theorem fits_of_short {buffer : List UInt8} (terminated : Terminated buffer)
    (full : ∀ input ∈ before, input.bytes.length = sockReadbufsize)
    (ends : copied (fill (bufferAfter buffer before) last.bytes) = last.bytes)
    (short : (received (before ++ [last])).length < 2 * sockReadbufsize) :
    Fits buffer (before ++ [last]) := by
  have copies : copied (bufferAfter buffer (before ++ [last])) = last.bytes := by
    rw [bufferAfter_append]
    exact ends
  have bytes : received (before ++ [last]) = received before ++ last.bytes := by simp [received]
  refine fits_snoc.mpr ⟨?_, fun _ _ => ?_⟩
  · rcases before with - | ⟨first, - | ⟨second, more⟩⟩
    · exact fits_nil
    · have strlen := (terminated.fill (length_bytes_le first)).length_cstr_le
      have front : copied (fill buffer first.bytes) <+: cstr 0 (fill buffer first.bytes) :=
        upTo_prefix
      have copied := front.length_le.trans strlen
      have whole := full first (by simp)
      have next := @fits_snoc buffer first []
      refine next.mpr ⟨fits_nil, fun _ _ => ?_⟩
      change 0 + _ + 1 ≤ allocated (first.bytes ++ []).length
      rw [List.append_nil, whole, Nat.zero_add]
      exact Nat.succ_le_succ copied
    · have one := full first (by simp)
      have two := full second (by simp)
      simp only [received, List.cons_append, List.flatMap_cons, List.length_append, one, two]
        at short
      omega
  · have room := room_of_short short
    rw [copies]
    rw [bytes, List.length_append] at room ⊢
    omega

/-- A line without a NUL and of less than 128 bytes gets through when each `recv` but the last fills
the buffer, whatever was in the buffer and in the block. -/
theorem lineArrives_of_short (isLine : IsLine line) (noNul : 0 ∉ line)
    (short : line.length < 2 * sockReadbufsize)
    (full : ∀ input ∈ before, input.received.isSome ∧ input.bytes.length = sockReadbufsize)
    (delivered : last.received.isSome) (some_ : last.bytes ≠ [])
    (pieces : received (before ++ [last]) = line) :
    LineArrives initial (before ++ [last]) ∧
      upTo newline (stream (before ++ [last])) = line := by
  obtain ⟨body, rfl, one⟩ := isLine.eq_append
  have split : received before ++ last.bytes = body ++ [newline] := by
    simpa [received] using pieces
  obtain ⟨front, chunk⟩ : ∃ front, last.bytes = front ++ [newline] := by
    rcases List.eq_nil_or_concat last.bytes with empty | ⟨front, x, concat⟩
    · exact absurd empty some_
    · rw [concat, List.concat_eq_append, ← List.append_assoc] at split
      obtain ⟨-, same⟩ := List.append_inj' split rfl
      exact ⟨front, by rw [concat, List.concat_eq_append, same]⟩
  have inner : received before ++ front = body := by
    rw [chunk, ← List.append_assoc] at split
    exact (List.append_inj' split rfl).1
  have clean : 0 ∉ received before ∧ 0 ∉ last.bytes := by
    rw [← split, List.mem_append, not_or] at noNul
    exact noNul
  have dark : newline ∉ received before := fun mem =>
    one (inner ▸ List.mem_append_left _ mem)
  have delivers : ∀ input ∈ before ++ [last], input.received.isSome := by
    intro input mem
    rcases List.mem_append.mp mem with old | new
    · exact (full input old).1
    · exact List.mem_singleton.mp new ▸ delivered
  have whole : stream (before ++ [last]) = body ++ [newline] := by
    have bytes := stream_append delivers []
    rw [List.append_nil] at bytes
    rw [bytes, pieces]
    exact List.append_nil _
  have first : upTo newline (body ++ [newline]) = body ++ [newline] := upTo_append one
  have string (ys : List UInt8) : cstr 0 (last.bytes ++ ys) = front ++ newline :: cstr 0 ys := by
    rw [cstr_append_of_not_mem clean.2, chunk, List.append_assoc, List.singleton_append]
  have shows : Shows (bufferAfter (firstBuffer initial) (before ++ [last])) := by
    rw [bufferAfter_append, Shows]
    change newline ∈ cstr 0 (fill _ last.bytes)
    rw [fill, string]
    simp
  have ends : copied (fill (bufferAfter (firstBuffer initial) before) last.bytes) = last.bytes := by
    rw [copied, fill, string, chunk]
    exact upTo_append fun mem => one (inner ▸ List.mem_append_right _ mem)
  have quiet : Quiet (firstBuffer initial) before :=
    quiet_of_full (terminated_firstBuffer initial) full clean.1 dark
  refine ⟨⟨before, last, [], rfl, ⟨quiet, delivered, shows⟩, ?_, ?_,
    fun input mem nul => ?_, ?_⟩, ?_⟩
  · rw [whole]
    simp
  · rw [whole, first, pieces]
  · refine clean.1 ?_
    simp only [received, List.mem_flatMap]
    exact ⟨input, mem, List.dropLast_subset _ nul⟩
  · exact fits_of_short (terminated_firstBuffer initial) (fun input mem => (full input mem).2) ends
      (pieces ▸ short)
  · rw [whole, first]

end Getline

/-- A server whose steps are the calls of its threads: when the thread of a connection is in
`sock_getline`, and the step in which that returns a packet, or nothing. -/
structure Listener (σ ι : Type) where
  step : σ → ι → σ → Prop
  receives : σ → Nat → Prop
  deliver : Nat → Option (List UInt8) → ι
  isDelivery : ι → Prop

/-- How `sock_getline` stands for each connection, and what its calls of `recv` brought. -/
structure Reception where
  getline : Nat → Getline × Getline.Status
  inputs : Nat → List Input

/-- A call of a thread, or a `recv` of connection `i`. -/
inductive NetLabel (ι : Type)
  | call (label : ι)
  | recv (i : Nat) (input : Input)

/-- What `sock_getline` returns once its loop has ended. -/
def Getline.result : Getline × Getline.Status → Option (List UInt8)
  | (g, .line) => some g.returned
  | _ => none

namespace Reception

/-- Before any `recv`, for what the buffers and the blocks hold at first. -/
def start (initial : Nat → Fin Getline.buflen → UInt8) (block : Nat → Nat → UInt8) : Reception where
  getline i := (.start (initial i) (block i), .looping)
  inputs _ := []

/-- After an iteration of the loop of connection `i`. -/
def recv (r : Reception) (i : Nat) (input : Input) : Reception where
  getline := Function.update r.getline i ((r.getline i).1.iterate input)
  inputs := Function.update r.inputs i (r.inputs i ++ [input])

end Reception

section Net

variable {σ ι : Type} (listener : Listener σ ι)

/-- A call of a thread other than `sock_getline`, an iteration of its loop that does not end it, or
one that does. -/
inductive NetStep : σ × Reception → NetLabel ι → σ × Reception → Prop
  | call {s s' : σ} {r : Reception} {label : ι} (other : ¬ listener.isDelivery label)
      (step : listener.step s label s') : NetStep (s, r) (.call label) (s', r)
  | recv {s : σ} {r : Reception} {i : Nat} {input : Input} (receives : listener.receives s i)
      (looping : (r.getline i).2 = .looping)
      (goes : ((r.recv i input).getline i).2 = .looping) :
      NetStep (s, r) (.recv i input) (s, r.recv i input)
  | ended {s s' : σ} {r : Reception} {i : Nat} {input : Input} (receives : listener.receives s i)
      (looping : (r.getline i).2 = .looping)
      (ends : ((r.recv i input).getline i).2 ≠ .looping)
      (step : listener.step s
        (listener.deliver i (Getline.result ((r.recv i input).getline i))) s') :
      NetStep (s, r) (.recv i input) (s', r.recv i input)

variable {listener} {initial : Nat → Fin Getline.buflen → UInt8} {block : Nat → Nat → UInt8}
  {s₀ : σ} {net : σ × Reception} {labels : List (NetLabel ι)}

/-- The state of each `sock_getline` is what its inputs lead to. -/
def Reception.Follows (initial : Nat → Fin Getline.buflen → UInt8) (block : Nat → Nat → UInt8)
    (r : Reception) : Prop :=
  ∀ i, r.getline i = Getline.getline (.start (initial i) (block i)) (r.inputs i)

theorem Reception.Follows.recv {r : Reception} (follows : r.Follows initial block) {i : Nat}
    (input : Input) (looping : (r.getline i).2 = .looping) :
    (r.recv i input).Follows initial block := by
  intro j
  by_cases mine : j = i
  · subst mine
    have so : Getline.getline (.start (initial j) (block j)) (r.inputs j) =
        ((r.getline j).1, .looping) := by
      rw [← follows j, ← looping]
    simp only [Reception.recv, Function.update_self, Getline.getline_append, so,
      Getline.getline_singleton]
  · simp only [Reception.recv, Function.update_of_ne mine]
    exact follows j

/-- A packet that was delivered is what `sock_getline` returned. -/
def Reception.Delivered (listener : Listener σ ι) (r : Reception) (label : ι) : Prop :=
  ∃ i, (r.getline i).2 ≠ .looping ∧ label = listener.deliver i (Getline.result (r.getline i))

theorem Reception.Delivered.recv {r : Reception} {label : ι}
    (delivered : r.Delivered listener label) {i : Nat} (input : Input)
    (looping : (r.getline i).2 = .looping) : (r.recv i input).Delivered listener label := by
  obtain ⟨j, ended, rfl⟩ := delivered
  have other : j ≠ i := by
    rintro rfl
    exact ended looping
  refine ⟨j, ?_, ?_⟩
  · simpa only [Reception.recv, Function.update_of_ne other] using ended
  · simp only [Reception.recv, Function.update_of_ne other]

/-- A run with the calls of `recv` is a run of the server, in which each packet is what
`sock_getline` made of the bytes received. -/
theorem NetStep.project
    (run : Run (NetStep listener) (s₀, .start initial block) labels net) :
    net.2.Follows initial block ∧ ∃ ls, Run listener.step s₀ ls net.1 ∧
      ∀ label ∈ ls, .call label ∈ labels ∧ ¬ listener.isDelivery label ∨
        net.2.Delivered listener label := by
  refine run.history (P := fun labels net => net.2.Follows initial block ∧
    ∃ ls, Run listener.step s₀ ls net.1 ∧
      ∀ label ∈ ls, .call label ∈ labels ∧ ¬ listener.isDelivery label ∨
        net.2.Delivered listener label) ⟨fun _ => rfl, [], .nil _, by simp⟩ ?_
  rintro earlier label ⟨s, r⟩ net' - ⟨follows, ls, run, labelled⟩ step
  cases step with
  | call other step =>
    refine ⟨follows, ls ++ [_], run.append (.single step), fun label mem => ?_⟩
    rcases List.mem_append.mp mem with old | new
    · exact (labelled label old).imp_left fun made => ⟨List.mem_append_left _ made.1, made.2⟩
    · obtain rfl := List.mem_singleton.mp new
      exact .inl ⟨by simp, other⟩
  | recv receives looping goes =>
    refine ⟨follows.recv _ looping, ls, run, fun label mem => ?_⟩
    exact (labelled label mem).imp (fun made => ⟨List.mem_append_left _ made.1, made.2⟩)
      fun delivered => delivered.recv _ looping
  | ended receives looping ends step =>
    refine ⟨follows.recv _ looping, ls ++ [_], run.append (.single step), fun label mem => ?_⟩
    rcases List.mem_append.mp mem with old | new
    · exact (labelled label old).imp (fun made => ⟨List.mem_append_left _ made.1, made.2⟩)
        fun delivered => delivered.recv _ looping
    · exact .inr ⟨_, ends, List.mem_singleton.mp new⟩

end Net

theorem Getline.result_eq_some {g : Getline × Status} {packet : List UInt8} :
    Getline.result g = some packet ↔ g.2 = .line ∧ g.1.returned = packet := by
  obtain ⟨g, _ | _ | _⟩ := g <;> simp [Getline.result]

/-- The first line that client `i` sent. -/
def Reception.line (r : Reception) (i : Nat) : List UInt8 :=
  upTo newline (Getline.stream (r.inputs i))

/-- `strcpy` keeps to the block of each connection; and where `sock_getline` returned a packet, the
bytes that `recv` brought were exactly the first line, and but for the last bytes of the calls none
came behind a NUL. -/
def Reception.Arrived (initial : Nat → Fin Getline.buflen → UInt8) (r : Reception) : Prop :=
  ∀ i, Getline.Fits (Getline.firstBuffer (initial i)) (r.inputs i) ∧
    ((r.getline i).2 = .line →
      Getline.Granted (r.inputs i) ∧ Getline.LineArrives (initial i) (r.inputs i))

/-- Then the packet is that line. -/
theorem Reception.Follows.packet {initial : Nat → Fin Getline.buflen → UInt8}
    {block : Nat → Nat → UInt8} {r : Reception} (follows : r.Follows initial block)
    (arrived : r.Arrived initial) {i : Nat} {packet : List UInt8}
    (result : Getline.result (r.getline i) = some packet) : packet = r.line i := by
  rw [Getline.result_eq_some] at result
  obtain ⟨granted, arrives⟩ := (arrived i).2 result.1
  obtain ⟨g, line, returned⟩ := arrives.line (block i) granted
  rw [← result.2, follows i, line, returned, Reception.line]

theorem Reception.Arrived.isLine {initial : Nat → Fin Getline.buflen → UInt8} {r : Reception}
    (arrived : r.Arrived initial) {i : Nat} (returned : (r.getline i).2 = .line) :
    IsLine (r.line i) := by
  obtain ⟨-, -, -, -, -, -, arrives, -⟩ := (arrived i).2 returned
  obtain ⟨body, line, one⟩ := upTo_eq_append arrives
  rw [Reception.line, line]
  exact ⟨by simp, by simpa using one⟩

namespace ConnHandler

/-- `P` holds of the packet, once there is one. -/
def Known (P : List UInt8 → Prop) (h : ConnHandler) : Prop :=
  match h.pc with
  | .openFile | .getline => True
  | .closeFd | .closeConn | .exited => h.abort = true ∨ P h.packet
  | _ => P h.packet

variable {P : List UInt8 → Prop} {h h' : ConnHandler} {useAesdCharDevice : Bool} {event : Event}

theorem dispatch_packet (useAesdCharDevice : Bool) (h : ConnHandler) :
    (dispatch useAesdCharDevice h).packet = h.packet := by
  unfold dispatch
  split
  · split <;> rfl
  · rfl

theorem Known.step (known : h.Known P) (step : h.step useAesdCharDevice event = some h')
    (received : ∀ packet, event = .getline (some packet) → P packet) : h'.Known P := by
  unfold Known at known
  cases step_moves step with
  | openFile pc => trivial
  | openFailed pc => exact .inl rfl
  | getline pc packet =>
    have new : P (dispatch useAesdCharDevice { h with packet }).packet := by
      rw [dispatch_packet]
      exact received packet rfl
    rcases dispatch_pc useAesdCharDevice { h with packet } with pc | pc | ⟨seekto, pc⟩ <;>
      simpa only [Known, pc] using new
  | getlineFailed pc => exact .inl rfl
  | ioctl _ pc | ioctlFailed _ pc | writeFailed _ pc | unlock _ pc | unlockFailed _ pc | lseek pc
    | lseekFailed pc | readEnd pc | read pc | readFailed pc | sendFailed _ pc =>
    simp only [pc] at known
    exact known
  | lock pc | write _ pc =>
    simp only [pc] at known
    rcases writePc_cases _ with ⟨-, next⟩ | ⟨-, next⟩ <;> rw [next] <;> exact known
  | send _ pc =>
    simp only [pc] at known
    rcases sendPc_cases _ with ⟨-, next⟩ | ⟨-, next⟩ <;> rw [next] <;> exact known
  | free pc =>
    simp only [pc] at known
    exact .inr known
  | closeFd pc | closeConn pc =>
    simp only [pc] at known
    exact known.imp_left fun abort => by simp [abort]

end ConnHandler

theorem ConnHandler.Known.mono {P Q : List UInt8 → Prop} {h : ConnHandler} (known : h.Known P)
    (weaker : ∀ packet, P packet → Q packet) : h.Known Q := by
  unfold Known at known ⊢
  cases pc : h.pc with
  | openFile | getline => trivial
  | closeFd | closeConn | exited =>
    simp only [pc] at known ⊢
    exact known.imp_right (weaker _)
  | _ =>
    simp only [pc] at known ⊢
    exact weaker _ known

theorem ConnHandler.Known.of_writeStatus {P : List UInt8 → Prop} {h : ConnHandler} {returned : Int}
    (known : h.Known P) (status : h.writeStatus = some returned) : P h.packet := by
  unfold writeStatus at status
  split at status
  · rename_i pc
    simpa only [Known, pc] using known
  · contradiction

/-! The server that keeps its data in a file. -/

/-- The file server, with the records noted down. -/
def fileListener : Listener Ledger Label where
  step := Ledger.Step
  receives l i := (l.server.conn i).pc = .getline
  deliver i packet := .conn i (.getline packet)
  isDelivery label := ∃ i packet, label = .conn i (.getline packet)

theorem Ledger.known {file : List UInt8} {labels : List Label} {l : Ledger}
    (run : Run Ledger.Step (.start file) labels l) :
    (∀ i, (l.server.conn i).Known fun packet => .conn i (.getline (some packet)) ∈ labels) ∧
      ∀ call ∈ l.calls, ∀ i, call.thread = .conn i →
        .conn i (.getline (some call.record)) ∈ labels := by
  refine run.history (P := fun labels l =>
    (∀ i, (l.server.conn i).Known fun packet => .conn i (.getline (some packet)) ∈ labels) ∧
      ∀ call ∈ l.calls, ∀ i, call.thread = .conn i →
        .conn i (.getline (some call.record)) ∈ labels)
    ⟨fun _ => trivial, by simp [Ledger.start]⟩ ?_
  rintro earlier label l l' - ⟨known, recorded⟩ ⟨step, -, calls⟩
  have known' : ∀ i, (l'.server.conn i).Known fun packet =>
      .conn i (.getline (some packet)) ∈ earlier ++ [label] := by
    intro i
    have old := (known i).mono (Q := fun packet =>
      .conn i (.getline (some packet)) ∈ earlier ++ [label]) fun _ => List.mem_append_left _
    by_cases mine : label.thread = .conn i
    · cases label with
      | timer event => exact absurd mine (by simp [Label.thread])
      | conn j event =>
        obtain rfl : j = i := by simpa [Label.thread] using mine
        obtain ⟨h, e, moved, -, same⟩ := FileServer.step_conn step
        rw [same]
        simpa using old.step moved fun packet is => is ▸ List.mem_append_right _ (by simp)
    · rw [(step.frame mine).1]
      exact old
  refine ⟨known', fun call mem i thread => ?_⟩
  rw [calls] at mem
  rcases List.mem_append.mp mem with old | new
  · exact List.mem_append_left _ (recorded call old i thread)
  · unfold FileServer.returns at new
    split at new
    · rename_i returned status
      obtain rfl := List.mem_singleton.mp new
      cases label with
      | timer event => exact absurd thread (by simp [Label.thread])
      | conn j event =>
        obtain rfl : j = i := by simpa [Label.thread] using thread
        exact (known' j).of_writeStatus status
    · simp at new

theorem Ledger.forget {l l' : Ledger} {labels : List Label} (run : Run Ledger.Step l labels l') :
    Run FileServer.Step l.server labels l'.server := by
  induction run with
  | nil => exact .nil _
  | cons step _ ih => exact .cons step.1 ih

/-- When the lines of the clients arrive as `Arrived` asks, a run with the calls of
`recv` is a run of the server in which each packet is the line that its client sent. -/
theorem NetStep.project_file {initial : Nat → Fin Getline.buflen → UInt8}
    {block : Nat → Nat → UInt8} {file : List UInt8} {labels : List (NetLabel Label)} {l : Ledger}
    {r : Reception}
    (run : Run (NetStep fileListener) (.start file, .start initial block) labels (l, r))
    (arrived : r.Arrived initial) :
    ∃ ls, Run Ledger.Step (.start file) ls l ∧
      (∀ label ∈ ls, .call label ∈ labels ∨ ∃ i packet, label = .conn i (.getline packet)) ∧
      ∀ i packet, .conn i (.getline (some packet)) ∈ ls →
        (r.getline i).2 = .line ∧ packet = r.line i := by
  obtain ⟨follows, ls, calls, labelled⟩ := NetStep.project run
  refine ⟨ls, calls, fun label mem => ?_, fun i packet mem => ?_⟩
  · exact (labelled label mem).imp And.left fun ⟨i, _, made⟩ => ⟨i, _, made⟩
  · rcases labelled _ mem with ⟨-, other⟩ | ⟨j, -, same⟩
    · exact absurd ⟨i, some packet, rfl⟩ other
    · obtain ⟨rfl, result⟩ : i = j ∧ some packet = Getline.result (r.getline j) := by
        simpa [fileListener] using same
      exact ⟨(Getline.result_eq_some.mp result.symm).1, follows.packet arrived result.symm⟩

/-- The server that keeps its data in a file, from the bytes on the sockets on. In a run in which
the mutex works, no `strcpy` leaves its block, and `sock_getline` returns only where the bytes
received were exactly a line, the file is what it was at first and one block for each call of
`putchars` that returned; such a call of a connection was about the first line that its client sent;
and a client whose session succeeded was sent the file at some moment, with its line in it. -/
theorem lines_served {initial : Nat → Fin Getline.buflen → UInt8} {block : Nat → Nat → UInt8}
    {file : List UInt8} {labels : List (NetLabel Label)} {l : Ledger} {r : Reception}
    (run : Run (NetStep fileListener) (.start file, .start initial block) labels (l, r))
    (ok : ∀ label, .call label ∈ labels → label.mutexError = 0)
    (arrived : r.Arrived initial) :
    (∃ blocks current, l.server.file = file ++ blocks.flatten ++ current ∧
      List.Forall₂ Call.Left l.calls blocks) ∧
    (∀ call ∈ l.calls, ∀ i, call.thread = .conn i → call.record = r.line i) ∧
    ∀ i, (l.server.conn i).Succeeded → r.line i <:+: l.server.sent i ∧
      file <+: l.server.sent i ∧ l.server.sent i <+: l.server.file := by
  obtain ⟨ls, calls, labelled, line⟩ := NetStep.project_file run arrived
  have works : ∀ label ∈ ls, label.mutexError = 0 := by
    intro label mem
    rcases labelled label mem with made | ⟨i, packet, rfl⟩
    · exact ok label made
    · rfl
  obtain ⟨known, recorded⟩ := Ledger.known calls
  refine ⟨?_, fun call mem i thread => (line i _ (recorded call mem i thread)).2, fun i done => ?_⟩
  · obtain ⟨-, returned, -⟩ := Ledger.simulates calls works
    obtain ⟨blocks, current, log, kept, -⟩ := Ledger.intact calls works
    refine ⟨blocks, current, log, ?_⟩
    have kept := (List.forall₂_and_left _ _).mpr ⟨returned, List.forall₂_map_left_iff.mp kept⟩
    exact kept.imp fun _ _ left => Call.left_of_kept left.1 left.2
  · have server := Ledger.forget calls
    obtain ⟨before, after, m, rfl, first, -, whole, own⟩ := done.snapshot server works
    have packet : (l.server.conn i).packet = r.line i := by
      have known := known i
      simp only [ConnHandler.Known, done.1] at known
      refine (line i _ (known.resolve_left fun abort => ?_)).2
      have success := done.2
      simp [ConnHandler.retval, abort] at success
    rw [← packet, whole]
    exact ⟨own, FileServer.grows first,
      (FileServer.file_of_earlier first server (List.prefix_append _ _)).2⟩

/-- Connection 0 received a line of 66 bytes in two pieces, with newlines on its stack before. -/
def twoReads : Reception :=
  Getline.longLine.foldl (fun r input => r.recv 0 input)
    (.start (fun _ _ => newline) fun _ i => i.toUInt8)

theorem twoReads_line :
    Getline.LineArrives (fun _ => newline) (twoReads.inputs 0) ∧
      twoReads.line 0 = List.replicate 64 97 ++ [98, newline] := by
  have inputs : twoReads.inputs 0 =
      [.of (List.replicate 64 97) (by decide)] ++ [.of [98, newline] (by decide)] := rfl
  rw [Reception.line, inputs]
  exact Getline.lineArrives_of_short (by decide) (by decide) (by decide)
    (by simp [Input.of, Input.bytes, sockReadbufsize]) rfl (by simp [Input.of, Input.bytes]) rfl

theorem twoReads_other {i : Nat} (other : i ≠ 0) : (twoReads.getline i).2 = .looping ∧
    twoReads.inputs i = [] := by
  simp only [twoReads, Getline.longLine, List.foldl_cons, List.foldl_nil, Reception.recv,
    Function.update_of_ne other]
  exact ⟨rfl, rfl⟩

theorem twoReads_arrived : twoReads.Arrived fun _ _ => newline := by
  intro i
  by_cases own : i = 0
  · subst own
    have granted : Getline.Granted (twoReads.inputs 0) :=
      Getline.longLine_granted
    exact ⟨Getline.longLine_fits, fun _ => ⟨granted, twoReads_line.1⟩⟩
  · obtain ⟨looping, none⟩ := twoReads_other own
    rw [looping, none]
    exact ⟨Getline.fits_nil, fun returned => by cases returned⟩

/-- The line that a client sends is sent back to it. -/
theorem lines_served_one : ∃ l : Ledger, twoReads.line 0 <:+: l.server.sent 0 ∧
    l.server.sent 0 <+: l.server.file := by
  have run : Run (NetStep fileListener)
      (.start [], .start (fun _ _ => newline) (fun _ i => i.toUInt8))
      [.call (.conn 0 (.openFile true)), .recv 0 (.of (List.replicate 64 97) (by decide)),
        .recv 0 (.of [98, newline] (by decide)), .call (.conn 0 (.lock 0)),
        .call (.conn 0 (.write (some 66))), .call (.conn 0 (.unlock 0)),
        .call (.conn 0 (.lseek true)),
        .call (.conn 0 (.read (some (List.replicate 64 97 ++ [98, newline])))),
        .call (.conn 0 (.send (some 66))), .call (.conn 0 (.read (some []))), .call (.conn 0 .free),
        .call (.conn 0 (.closeFd true)), .call (.conn 0 (.closeConn true))] (_, twoReads) :=
    .cons (.call (by simp [fileListener]) (Ledger.step_noted rfl))
      (.cons (.recv rfl rfl (by decide))
      (.cons (.ended rfl rfl (by decide) (Ledger.step_noted rfl))
      (.cons (.call (by simp [fileListener]) (Ledger.step_noted rfl))
      (.cons (.call (by simp [fileListener]) (Ledger.step_noted rfl))
      (.cons (.call (by simp [fileListener]) (Ledger.step_noted rfl))
      (.cons (.call (by simp [fileListener]) (Ledger.step_noted rfl))
      (.cons (.call (by simp [fileListener]) (Ledger.step_noted rfl))
      (.cons (.call (by simp [fileListener]) (Ledger.step_noted rfl))
      (.cons (.call (by simp [fileListener]) (Ledger.step_noted rfl))
      (.cons (.call (by simp [fileListener]) (Ledger.step_noted rfl))
      (.cons (.call (by simp [fileListener]) (Ledger.step_noted rfl))
      (.cons (.call (by simp [fileListener]) (Ledger.step_noted rfl)) (.nil _)))))))))))))
  obtain ⟨-, -, served⟩ := lines_served run (by simp [Label.mutexError]) twoReads_arrived
  obtain ⟨line, -, front⟩ := served 0 ⟨rfl, rfl⟩
  exact ⟨_, line, front⟩

/-! The server that keeps its data in the device. -/

namespace ConnHandler

/-- `P` holds of the packet, once it was written without an error. -/
def Written (P : List UInt8 → Prop) (h : ConnHandler) : Prop :=
  match h.pc with
  | .openFile | .getline | .lock | .write _ => True
  | .ioctl _ => h.isData = false
  | .unlock writeStatus => 0 ≤ writeStatus → P h.packet
  | .lseek => P h.packet
  | .read | .send _ => h.isData = true → P h.packet
  | .free | .closeFd | .closeConn | .exited => h.abort = false → h.isData = true → P h.packet

theorem Written.mono {P Q : List UInt8 → Prop} {h : ConnHandler} (written : h.Written P)
    (weaker : ∀ packet, P packet → Q packet) : h.Written Q := by
  unfold Written at written ⊢
  cases pc : h.pc with
  | openFile | getline | lock | write => trivial
  | ioctl =>
    simp only [pc] at written ⊢
    exact written
  | lseek =>
    simp only [pc] at written ⊢
    exact weaker _ written
  | unlock | read | send =>
    simp only [pc] at written ⊢
    exact fun so => weaker _ (written so)
  | free | closeFd | closeConn | exited =>
    simp only [pc] at written ⊢
    exact fun clean data => weaker _ (written clean data)

theorem written_writePc {P : List UInt8 → Prop} {h : ConnHandler} {chars : Putchars}
    (wrote : ConnHandler.writeStatus { h with pc := writePc chars } = some 0 → P h.packet) :
    Written P { h with pc := writePc chars } := by
  rcases writePc_cases chars with ⟨-, next⟩ | ⟨-, next⟩
  · rw [next] at wrote ⊢
    exact fun _ => wrote rfl
  · rw [next]
    trivial

theorem Written.step {P : List UInt8 → Prop} {h h' : ConnHandler} {event : Event}
    (written : h.Written P) (step : h.step true event = some h')
    (wrote : h'.writeStatus = some 0 → P h'.packet) : h'.Written P := by
  unfold Written at written
  cases step_moves step with
  | openFile pc => trivial
  | openFailed pc | getlineFailed pc | ioctlFailed _ pc | unlockFailed _ pc | lseekFailed pc
    | readFailed pc | sendFailed _ pc => exact fun clean => absurd clean (by simp [cleanup])
  | getline pc packet =>
    rcases dispatch_cases { h with packet } with
      ⟨-, next⟩ | ⟨seek, ⟨-, next⟩ | ⟨seekto, -, next⟩⟩ <;> rw [next]
    · trivial
    · exact fun clean => absurd clean (by simp [cleanup])
    · exact seek
  | ioctl _ pc =>
    simp only [pc] at written
    exact fun data => absurd (data.symm.trans written) (by decide)
  | lock pc | write _ pc => exact written_writePc wrote
  | writeFailed _ pc => exact fun positive => absurd positive (by decide)
  | unlock _ pc ok =>
    simp only [pc] at written
    exact written ok
  | lseek pc =>
    simp only [pc] at written
    exact fun _ => written
  | readEnd pc =>
    simp only [pc] at written
    exact fun _ => written
  | read pc =>
    simp only [pc] at written
    exact written
  | send _ pc =>
    simp only [pc] at written
    rcases sendPc_cases _ with ⟨-, next⟩ | ⟨-, next⟩ <;> rw [next] <;> exact written
  | free pc =>
    simp only [pc] at written
    exact written
  | closeFd pc ok | closeConn pc ok =>
    simp only [pc] at written
    exact fun clean => written (Bool.or_eq_false_iff.mp clean).1

end ConnHandler

/-- The device server, with the records noted down. -/
def deviceListener : Listener DeviceLedger DeviceCall where
  step := DeviceLedger.Step
  receives l i := (l.server.conn i).pc = .getline
  deliver i packet := ⟨i, .getline packet, {}⟩
  isDelivery call := ∃ packet, call.event = .getline packet

/-- Connection `i` was given `packet` in the run. -/
def Received (calls : List DeviceCall) (i : Nat) (packet : List UInt8) : Prop :=
  ∃ env, ⟨i, .getline (some packet), env⟩ ∈ calls

theorem DeviceLedger.known {kernel : Kernel} {calls : List DeviceCall} {l : DeviceLedger}
    (run : Run DeviceLedger.Step (.start kernel) calls l) :
    (∀ i, (l.server.conn i).Known (Received calls i) ∧
      (l.server.conn i).Written fun packet => (i, packet, true) ∈ l.records) ∧
      ∀ record ∈ l.records, Received calls record.1 record.2.1 := by
  refine run.history (P := fun calls l =>
    (∀ i, (l.server.conn i).Known (Received calls i) ∧
      (l.server.conn i).Written fun packet => (i, packet, true) ∈ l.records) ∧
      ∀ record ∈ l.records, Received calls record.1 record.2.1)
    ⟨fun _ => ⟨trivial, trivial⟩, by simp [DeviceLedger.start]⟩ ?_
  rintro earlier ⟨j, event, env⟩ l l' - ⟨known, recorded⟩ ⟨s', step, rfl⟩
  obtain ⟨h, e, moves, -, rfl⟩ := DeviceServer.step_eq_some step
  have given (i : Nat) (packet : List UInt8) (old : Received earlier i packet) :
      Received (earlier ++ [⟨j, event, env⟩]) i packet := by
    obtain ⟨env', mem⟩ := old
    exact ⟨env', List.mem_append_left _ mem⟩
  have mine : h.Known (Received (earlier ++ [⟨j, event, env⟩]) j) :=
    ((known j).1.mono (given j)).step moves fun packet (is : event = _) => ⟨env, by simp [is]⟩
  refine ⟨fun i => ?_, fun record mem => ?_⟩
  · by_cases own : i = j
    · subst own
      simp only [DeviceLedger.next, Function.update_self]
      refine ⟨mine, ((known i).2.mono fun _ => List.mem_append_left _).step moves fun status => ?_⟩
      simp [DeviceServer.returns, status]
    · simp only [DeviceLedger.next, Function.update_of_ne own]
      exact ⟨(known i).1.mono (given i), (known i).2.mono fun _ => List.mem_append_left _⟩
  · rcases List.mem_append.mp mem with old | new
    · exact given _ _ (recorded record old)
    · simp only [DeviceServer.returns, Function.update_self] at new
      split at new
      · rename_i returned status
        obtain rfl := List.mem_singleton.mp new
        exact mine.of_writeStatus status
      · simp at new

/-- The server that keeps its data in the device, from the bytes on the sockets on, whatever calls
of the threads fail. When no `strcpy` leaves its block, `sock_getline` returns only where the bytes
received were exactly a line, and each line is short enough for one `write`, the device took the
lines of different clients, one entry each, its ring holds the last ten of them, and no byte waits.
A client whose session succeeded, and whose line is not a seek command, is one of them. -/
theorem lines_stored {initial : Nat → Fin Getline.buflen → UInt8} {block : Nat → Nat → UInt8}
    {heap : KHeap} {initEnv : InitEnv} {kernel : Kernel} {labels : List (NetLabel DeviceCall)}
    {l : DeviceLedger} {r : Reception} (init : aesdInitModule heap initEnv = (0, kernel))
    (run : Run (NetStep deviceListener) (.start kernel, .start initial block) labels (l, r))
    (arrived : r.Arrived initial)
    (short : ∀ i, (r.getline i).2 = .line → (r.line i).length ≤ maxRwCount) :
    ∃ clients : List Nat, clients.Nodup ∧ l.evicted ++ l.server.stored = clients.map r.line ∧
      l.server.stored = window 10 (clients.map r.line) ∧ l.server.pending = [] ∧
      ∀ i, (l.server.conn i).Succeeded → (l.server.conn i).isData → i ∈ clients := by
  obtain ⟨follows, ls, calls, labelled⟩ := NetStep.project run
  have line : ∀ i packet, Received ls i packet →
      (r.getline i).2 = .line ∧ packet = r.line i := by
    rintro i packet ⟨env, mem⟩
    rcases labelled _ mem with ⟨-, other⟩ | ⟨j, -, same⟩
    · exact absurd ⟨some packet, rfl⟩ other
    · obtain ⟨rfl, result, -⟩ : i = j ∧ some packet = Getline.result (r.getline j) ∧ _ := by
        simpa [deviceListener] using same
      exact ⟨(Getline.result_eq_some.mp result.symm).1, follows.packet arrived result.symm⟩
  have records : ∀ call ∈ ls, ∀ packet ∈ call.event.received, IsRecord packet := by
    rintro ⟨i, event, env⟩ mem packet received
    obtain rfl : event = .getline (some packet) := by
      cases event with
      | getline => exact congrArg Event.getline received
      | _ => simp [Event.received] at received
    obtain ⟨returned, rfl⟩ := line i packet ⟨env, mem⟩
    exact ⟨arrived.isLine returned, short i returned⟩
  have tidy := DeviceLedger.Tidy.run init calls records
  obtain ⟨known, recorded⟩ := DeviceLedger.known calls
  have lines : l.lines = ((l.records.filter fun record => record.2.2).map Prod.fst).map r.line := by
    rw [DeviceLedger.lines, List.map_map]
    refine List.map_congr_left fun record mem => ?_
    exact (line _ _ (recorded record (List.mem_of_mem_filter mem))).2
  refine ⟨(l.records.filter fun record => record.2.2).map Prod.fst, ?_, lines ▸ tidy.whole,
    lines ▸ tidy.recent, tidy.waiting, fun i done data => ?_⟩
  · exact tidy.once.sublist (List.filter_sublist.map _)
  · have clean : (l.server.conn i).abort = false := by
      have success := done.2
      by_contra abort
      simp [ConnHandler.retval, abort] at success
    have written := (known i).2
    simp only [ConnHandler.Written, done.1] at written
    exact List.mem_map.mpr ⟨_, List.mem_filter.mpr ⟨written clean data, rfl⟩, rfl⟩

/-- The line that a client sends is stored. -/
theorem lines_stored_one : ∃ l : DeviceLedger, ∃ clients : List Nat,
    l.lines = [List.replicate 64 97 ++ [98, newline]] ∧
    l.evicted ++ l.server.stored = clients.map twoReads.line ∧ l.server.pending = [] := by
  have run : Run (NetStep deviceListener)
      (.start loadedKernel, .start (fun _ _ => newline) (fun _ i => i.toUInt8))
      [.call ⟨0, .openFile true, {}⟩, .recv 0 (.of (List.replicate 64 97) (by decide)),
        .recv 0 (.of [98, newline] (by decide)), .call ⟨0, .lock 0, {}⟩,
        .call ⟨0, .write (some 66), { allocation := some ⟨2, fun _ => 0⟩ }⟩] (_, twoReads) :=
    .cons (.call (by simp [deviceListener]) ⟨_, rfl, rfl⟩)
      (.cons (.recv rfl rfl (by decide))
      (.cons (.ended rfl rfl (by decide) ⟨_, rfl, rfl⟩)
      (.cons (.call (by simp [deviceListener]) ⟨_, rfl, rfl⟩)
      (.cons (.call (by simp [deviceListener]) ⟨_, rfl, rfl⟩) (.nil _)))))
  have short : ∀ i, (twoReads.getline i).2 = .line → (twoReads.line i).length ≤ maxRwCount := by
    intro i returned
    obtain rfl : i = 0 := by
      by_contra other
      rw [(twoReads_other other).1] at returned
      cases returned
    rw [twoReads_line.2]
    decide
  obtain ⟨clients, -, taken, -, waiting, -⟩ :=
    lines_stored loadedKernel_eq run twoReads_arrived short
  exact ⟨_, clients, rfl, taken, waiting⟩

end Aesd.Server
