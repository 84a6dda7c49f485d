import Aesd.Driver.Calls
import Aesd.Driver.Statements

/-! Many files used at the same time, one call at a time on each, with the statements of the calls
in any order that the lock of the device lets through. What the callers see is what they see when
the calls are made one after another, as `Loaded.Step` makes them. -/

namespace Aesd.Driver

open Aesd.CInt ProofKit

/-- A call on an open file, with what the kernel decides while it runs. -/
inductive Request
  | openFile
  | release
  | read (count : Nat) (env : ReadEnv)
  | write (buf : UserBuf) (env : WriteEnv)
  | llseek (off : Int) (whence : Nat) (interrupted : Bool)
  | ioctl (cmd : UInt32) (arg : AesdSeekto) (env : IoctlEnv)

namespace Request

/-- The call as an operation on a file. -/
def op (file : Nat) : Request → Op
  | openFile => .openFile file
  | release => .release file
  | read count env => .read file count env
  | write buf env => .write file buf env
  | llseek off whence interrupted => .llseek file off whence interrupted
  | ioctl cmd arg env => .ioctl file cmd arg env

/-- A call that answers without the lock, and leaves the position. -/
def answer (retval : Int) : Critical Fault Kernel Int Reply :=
  .unlocked fun fPos => (⟨retval, []⟩, fPos)

/-- `mutex_lock_interruptible` in front of `body`. -/
def lock (interrupted : Bool) (body : Code Reply) : Critical Fault Kernel Int Reply :=
  if interrupted then answer (-erestartsys) else .locked body

/-- What a call does: what it checks before it asks for the lock, and its statements with the
lock. -/
def code : Request → Critical Fault Kernel Int Reply
  | openFile => .unlocked fun _ => (⟨aesdOpen, []⟩, 0)
  | release => answer aesdRelease
  | read count env => lock env.interrupted (aesdReadCode count env.uncopied)
  | write buf env => lock env.interrupted (aesdWriteCode buf env)
  | llseek off whence interrupted => lock interrupted (aesdLlseekCode off whence)
  | ioctl cmd arg env =>
    if cmd = aesdcharIocseekto then
      if env.uncopied ≠ 0 then answer (-efault)
      else if aesdcharMaxWriteOperationsSupported ≤ arg.writeCmd.toNat then answer (-einval)
      else lock env.interrupted (aesdAdjustFileOffsetCode arg.writeCmd arg.writeCmdOffset)
    else answer (-enotty)

end Request

/-- The loaded module with a caller for each open file. -/
abbrev Callers := Threads Fault Kernel Int Request Reply Nat

variable {kernel : Kernel} {fPos : Int} {d d' : Loaded}

open Request

@[simp] theorem Request.run_answer (retval : Int) :
    (answer retval).run (kernel, fPos) = .ok (⟨retval, []⟩, kernel, fPos) := rfl

@[simp] theorem Request.run_interrupted (body : Code Reply) :
    (lock true body).run (kernel, fPos) = .ok (⟨-erestartsys, []⟩, kernel, fPos) := rfl

@[simp] theorem Request.run_locked (body : Code Reply) :
    (lock false body).run (kernel, fPos) = body.run (kernel, fPos) := rfl

/-- A write tests no byte outside its block. -/
def Request.Tests (kernel : Kernel) : Request → Prop
  | write buf env => env.interrupted = true ∨ TestsInside kernel buf env
  | _ => True

/-- A call made as one action does what `Loaded.step` says. -/
theorem Request.code_run (file : Nat) {request : Request} (tests : request.Tests d.kernel) :
    request.code.run (d.kernel, d.fPos file) =
      (d.step (request.op file)).map fun (d', reply) => (reply, d'.kernel, d'.fPos file) := by
  cases request with
  | openFile => simp [code, op, Critical.run, Loaded.step, Except.map]
  | release => rfl
  | read count env =>
    obtain ⟨interrupted, uncopied⟩ := env
    have alone : (code (.read count ⟨interrupted, uncopied⟩)).run (d.kernel, d.fPos file) =
        (aesdRead d.kernel count (d.fPos file) ⟨interrupted, uncopied⟩).map fun result =>
          (⟨result.retval, result.copied⟩, d.kernel, result.fPos) := by
      cases interrupted with
      | true => rfl
      | false => exact aesdReadCode_run count uncopied
    rw [alone, op, Loaded.step]
    cases aesdRead d.kernel count (d.fPos file) ⟨interrupted, uncopied⟩ with
    | error fault => rfl
    | ok result => simp [Except.map, pure, Except.pure]
  | write buf env =>
    have alone : (code (.write buf env)).run (d.kernel, d.fPos file) =
        (aesdWrite d.kernel buf (d.fPos file) env).map fun result =>
          (⟨result.retval, []⟩, result.kernel, result.fPos) := by
      cases free : env.interrupted with
      | true => simp [code, free, aesdWrite, Except.map]
      | false =>
        rw [code, free]
        exact (aesdWriteCode_run buf env free).1 (tests.resolve_left (by simp [free]))
    rw [alone, op, Loaded.step]
    cases aesdWrite d.kernel buf (d.fPos file) env with
    | error fault => rfl
    | ok result => simp [Except.map, pure, Except.pure]
  | llseek off whence interrupted =>
    have alone : (code (.llseek off whence interrupted)).run (d.kernel, d.fPos file) =
        .ok (⟨(aesdLlseek d.kernel (d.fPos file) off whence interrupted).1, []⟩, d.kernel,
          (aesdLlseek d.kernel (d.fPos file) off whence interrupted).2) := by
      rw [code]
      cases interrupted with
      | true => rw [run_interrupted, aesdLlseek, if_pos rfl]
      | false => rw [run_locked, aesdLlseekCode_run]
    rw [alone]
    simp [op, Loaded.step, Except.map]
  | ioctl cmd arg env =>
    have alone : (code (.ioctl cmd arg env)).run (d.kernel, d.fPos file) =
        .ok (⟨(aesdIoctl d.kernel (d.fPos file) cmd arg env).1, []⟩, d.kernel,
          (aesdIoctl d.kernel (d.fPos file) cmd arg env).2) := by
      rw [code, aesdIoctl]
      by_cases seeks : cmd = aesdcharIocseekto
      · rw [if_pos seeks, if_pos seeks]
        by_cases uncopied : env.uncopied ≠ 0
        · rw [if_pos uncopied, if_pos uncopied, run_answer]
        · rw [if_neg uncopied, if_neg uncopied]
          by_cases unknown : aesdcharMaxWriteOperationsSupported ≤ arg.writeCmd.toNat
          · rw [if_pos unknown, run_answer, aesdAdjustFileOffset, if_pos unknown]
          · rw [if_neg unknown]
            cases interrupted : env.interrupted with
            | true => rw [run_interrupted, aesdAdjustFileOffset, if_neg unknown, if_pos rfl]
            | false =>
              rw [run_locked]
              exact aesdAdjustFileOffsetCode_run arg.writeCmd arg.writeCmdOffset unknown
      · rw [if_neg seeks, if_neg seeks, run_answer]
    rw [alone]
    simp [op, Loaded.step, Except.map]

/-- A write that tests a byte outside its block does not come to its end. -/
theorem Request.code_fault (file : Nat) {request : Request} (outside : ¬request.Tests d.kernel) :
    ∃ fault, request.code.run (d.kernel, d.fPos file) = .error fault := by
  cases request with
  | write buf env =>
    obtain ⟨free, outside⟩ := not_or.mp outside
    rw [code, Bool.eq_false_of_not_eq_true free]
    exact (aesdWriteCode_run buf env (Bool.eq_false_of_not_eq_true free)).2 outside
  | _ => exact absurd trivial outside

@[simp] theorem Request.file_op (file : Nat) (request : Request) :
    (request.op file).file = file := by
  cases request <;> rfl

/-- The calls of all files as operations of the module. -/
def operations (order : List (Nat × Request × Reply)) : List (Op × Reply) :=
  order.map fun (file, request, reply) => (request.op file, reply)

theorem Loaded.step_of_atomic {file : Nat} {request : Request} {reply : Reply}
    {s : Kernel × (Nat → Int)}
    (call : Threads.Atomic Request.code (d.kernel, d.fPos) (file, request, reply) s) :
    Loaded.Step d (request.op file, reply) ⟨s.1, s.2⟩ := by
  obtain ⟨kernel, fPos, ok, rfl⟩ := call
  have tests : request.Tests d.kernel := by
    by_contra outside
    obtain ⟨fault, failed⟩ := code_fault file outside
    exact absurd (failed.symm.trans ok) (by simp)
  simp only [code_run file tests] at ok
  cases step : d.step (request.op file) with
  | error fault =>
    rw [step] at ok
    contradiction
  | ok result =>
    obtain ⟨d', reply'⟩ := result
    rw [step] at ok
    simp only [Except.map, Except.ok.injEq, Prod.mk.injEq] at ok
    obtain ⟨rfl, rfl, rfl⟩ := ok
    -- the positions of the other files stay
    have others : d'.fPos = Function.update d.fPos file (d'.fPos file) := by
      funext other
      by_cases same : other = file
      · subst same
        rw [Function.update_self]
      · rw [Function.update_of_ne same]
        exact Loaded.step_fPos step (by rwa [file_op])
    rw [Loaded.Step, step, ← others]

theorem Loaded.run_of_atomic {order : List (Nat × Request × Reply)} {s s' : Kernel × (Nat → Int)}
    (run : Run (Threads.Atomic Request.code) s order s') :
    Run Loaded.Step ⟨s.1, s.2⟩ (operations order) ⟨s'.1, s'.2⟩ := by
  induction run with
  | nil => exact .nil _
  | @cons s m s' call order first _ ih =>
    exact .cons (Loaded.step_of_atomic (d := ⟨s.1, s.2⟩) first) ih

/-- No call has more than 35 statements to run with the lock. -/
theorem Request.locked_atMost {request : Request} {body : Code Reply}
    (locked : request.code = .locked body) : body.AtMost 35 := by
  have of_lock {interrupted : Bool} {code : Code Reply} {n : Nat}
      (locked : lock interrupted code = .locked body) (bound : code.AtMost n) (le : n ≤ 35) :
      body.AtMost 35 := by
    cases interrupted with
    | true => contradiction
    | false =>
      obtain rfl := Critical.locked.inj locked
      exact bound.mono le
  cases request with
  | openFile => contradiction
  | release => contradiction
  | read count env => exact of_lock locked (aesdReadCode_atMost _ _) (by decide)
  | write buf env => exact of_lock locked (aesdWriteCode_atMost _ _) (by decide)
  | llseek off whence interrupted => exact of_lock locked (aesdLlseekCode_atMost _ _) (by decide)
  | ioctl cmd arg env =>
    rw [code] at locked
    split at locked
    · split at locked
      · contradiction
      · split at locked
        · contradiction
        · rename_i known
          exact of_lock locked (aesdAdjustFileOffsetCode_atMost _ _ known) (by decide)
    · contradiction

/-- A write has bytes. -/
def Request.Brings : Request → Prop
  | write buf _ => buf.bytes ≠ []
  | _ => True

theorem Holds.testsInside {base : Nat × List UInt8} {ring : List Held} {wip : Option Held}
    {frame : KHeap} (h : Holds kernel base ring wip frame) {buf : UserBuf} (env : WriteEnv)
    (brings : buf.bytes ≠ []) : TestsInside kernel buf env := by
  intro bptr heap filled freed granted fills copied frees
  rw [h.request_eq buf] at granted
  obtain ⟨found, allocation, rfl, -, -⟩ := kmalloc_eq_some granted
  rw [allocation] at granted
  obtain ⟨filled', freed', fills', frees', working⟩ := h.working buf granted
  rw [copied] at fills
  obtain rfl := Except.ok.inj (fills.symm.trans fills')
  obtain rfl := Except.ok.inj (frees.symm.trans frees')
  have some_ := List.length_pos_of_ne_nil brings
  have short : (kernel.pending ++ buf.bytes).length < 2 ^ 31 :=
    working.small ⟨found.addr, kernel.pending ++ buf.bytes⟩ (by simp)
  rw [List.length_append] at short
  have last : toSizeT (((kernel.pending ++ buf.bytes).length : Int) - 1) =
      (kernel.pending ++ buf.bytes).length - 1 := by
    rw [List.length_append, ← Int.natCast_pred_of_pos (by omega)]
    exact toSizeT_of_lt (by omega)
  rw [h.newSize_eq buf, last]
  let held : Held := ⟨found.addr, kernel.pending ++ buf.bytes⟩
  have mem : held.block ∈ base :: (ring ++ (some held).toList).map Held.block := by simp
  refine ⟨_, load_owned working.owns mem ?_⟩
  change _ ≤ (kernel.pending ++ buf.bytes ++ [0]).length
  simp only [List.length_append, List.length_singleton]
  omega

theorem Loaded.Owned.total (own : d.Owned) :
    Threads.Total Request.code Request.Brings (d.kernel, d.fPos) := by
  intro file request body brings locked
  obtain ⟨base, ring, wip, frame, h⟩ := own
  have tests : request.Tests d.kernel := by
    cases request with
    | write buf env => exact .inr (h.testsInside env brings)
    | _ => trivial
  obtain ⟨d', reply, step, -⟩ := Loaded.step_total h (request.op file)
  have run := code_run (d := d) file tests
  rw [locked, step] at run
  exact ⟨_, run⟩

section Callers

variable {heap : KHeap} {env : InitEnv} {ls more : List (Nat × Action Request Reply)}
  {c c' : Callers} {t u : Nat}

/-- What the callers of a loaded module have got to: the calls settled so far are a run of the
module, in that order. -/
theorem callers_follow (init : aesdInitModule heap env = (0, kernel))
    (run : Run (Threads.Step Request.code) (.start kernel fun _ => 0) ls c) :
    ∃ d, Run Loaded.Step (.start kernel) (operations (Threads.settled ls)) d ∧ d.Owned ∧
      c.Follows Request.code (d.kernel, d.fPos) := by
  obtain ⟨s, settled, follows⟩ := (Threads.follows_start kernel fun _ => 0).run run
  have reached := Loaded.run_of_atomic settled
  exact ⟨⟨s.1, s.2⟩, reached, Loaded.Reachable.holds ⟨heap, env, kernel, _, init, reached⟩, follows⟩

/-- With one call at a time on each open file, the statements of the calls may run in any order that
the lock lets through, each call decided by the kernel in any way: there is an order of the calls
such that the module, making them one after another, gives each caller the results that it got. A
call that returned before another was made is in front of it, and when nobody has the lock, the
memory, the device and the positions are those that this order leaves. -/
theorem interleaved_calls (init : aesdInitModule heap env = (0, kernel))
    (run : Run (Threads.Step Request.code) (.start kernel fun _ => 0) ls c) :
    ∃ order d, Run Loaded.Step (.start kernel) (operations order) d ∧
      Threads.Explains ls order ∧
      (c.owner = none → c.shared = d.kernel ∧ c.own = d.fPos) := by
  obtain ⟨d, reached, -, follows⟩ := callers_follow init run
  refine ⟨_, d, reached, Threads.explains run, fun free => ?_⟩
  obtain ⟨shared, own, -⟩ := follows.free free
  exact ⟨shared, own⟩

/-- When every write has a byte: in whatever order the statements run, no caller gets to an access
outside the live blocks or a bad free, and only the owner of the lock is between taking it and
giving it back. A caller whose call is not over can go on, or the owner of the lock that it waits
for can; and from when a caller takes the lock, it runs at most 35 statements before it gives the
lock back, whatever the others do meanwhile. (A write of no byte may look at the byte in front of
its block.) -/
theorem interleaved_safe (init : aesdInitModule heap env = (0, kernel))
    (run : Run (Threads.Step Request.code) (.start kernel fun _ => 0) ls c)
    (brings : ∀ t request, (t, .call request) ∈ ls → request.Brings) :
    (∀ t request fault, c.place t ≠ .inside request (.fault fault)) ∧
    (∀ t, ¬(c.place t).Outside → c.owner = some t) ∧
    (∀ t, c.place t ≠ .idle → ∃ u act c', (u = t ∨ c.owner = some u) ∧
      Threads.Step Request.code c (u, act) c') ∧
    ∀ t m more c', Threads.Step Request.code c (t, .enter) m →
      Run (Threads.Step Request.code) m more c' → (∀ k r, (t, .settle k r) ∉ more) →
      c'.owner = some t ∧ Threads.statements t more ≤ 35 := by
  obtain ⟨d, -, own, follows⟩ := callers_follow init run
  have only := Threads.only_of_called run brings
  refine ⟨fun t request fault => follows.no_fault own.total only, fun t => follows.owner_eq,
    fun t => follows.progress own.total only, fun t m more c' enter later keeps => ?_⟩
  obtain ⟨a, -, next⟩ := follows.step enter
  cases enter with
  | @enter _ request body place locked free =>
    obtain ⟨owner, left⟩ := next.run_left rfl later keeps
    refine ⟨owner, ?_⟩
    have bound : body.cost (c.shared, c.own t) ≤ 35 := locked_atMost locked _
    simp only [Threads.left, Function.update_self] at left
    omega

/-- File 0 asks for its position while file 1 has the lock to read, so that file 0 waits; a write
on file 2 that is interrupted goes past both. -/
theorem interleaved_calls_waiting : ∃ (c : Callers) (order : List (Nat × Request × Reply)),
    c.owner = some 1 ∧ Threads.callsOf 2 order =
      [(.write ⟨[97], by decide⟩ ⟨true, none, 0, 0⟩, ⟨-erestartsys, []⟩)] := by
  let write : Request := .write ⟨[97], by decide⟩ ⟨true, none, 0, 0⟩
  let refused : Int → Reply × Int := fun fPos => (⟨-erestartsys, []⟩, fPos)
  let loaded := aesdInitModule ∅ ⟨0, some ⟨1, fun _ => 0⟩, 0⟩
  obtain ⟨c, run, owner⟩ : ∃ c : Callers, Run (Threads.Step Request.code)
      (.start loaded.2 fun _ => 0)
      [(0, .call (.llseek 0 seekCur false)), (1, .call (.read 4 {})), (1, .enter),
        (2, .call write), (1, .statement), (2, .settle write ⟨-erestartsys, []⟩),
        (2, .return_ write ⟨-erestartsys, []⟩)] c ∧ c.owner = some 1 :=
    ⟨_, .cons (.call _ rfl) (.cons (.call _ rfl) (.cons (.enter rfl rfl rfl) (.cons (.call _ rfl)
      (.cons (.statement rfl) (.cons (.answer (k := write) (f := refused) rfl rfl)
        (.cons (.return_ rfl) (.nil _))))))), rfl⟩
  obtain ⟨order, d, -, explains, -⟩ := interleaved_calls (rfl : loaded = (0, _)) run
  refine ⟨c, order, owner, ?_⟩
  obtain ⟨⟨rest, split⟩, made⟩ := explains.program 2
  have one := made.length_le
  rw [← split] at one ⊢
  have none_ : rest = [] := by simpa [Threads.called, Threads.returned] using one
  rw [none_]
  rfl

/-- A writer that has taken the lock of a fresh device, and a reader that waits for it. -/
theorem interleaved_safe_writer : ∃ c : Callers, c.owner = some 0 ∧
    (∀ t request fault, c.place t ≠ .inside request (.fault fault)) ∧
    ∀ more c', Run (Threads.Step Request.code) c more c' → (∀ k r, (0, .settle k r) ∉ more) →
      c'.owner = some 0 ∧ Threads.statements 0 more ≤ 35 := by
  let loaded := aesdInitModule ∅ ⟨0, some ⟨1, fun _ => 0⟩, 0⟩
  let write : Request := .write ⟨[97, newline], by decide⟩ { allocation := some ⟨2, fun _ => 0⟩ }
  obtain ⟨c, m, run, enter, owner⟩ : ∃ c m : Callers, Run (Threads.Step Request.code)
      (.start loaded.2 fun _ => 0) [(1, .call (.read 4 {})), (0, .call write)] c ∧
      Threads.Step Request.code c (0, .enter) m ∧ m.owner = some 0 :=
    ⟨_, _, .cons (.call _ rfl) (.cons (.call _ rfl) (.nil _)), .enter rfl rfl rfl, rfl⟩
  have init : loaded = (0, loaded.2) := rfl
  have brings (t : Nat) (request : Request) (called : t = 1 ∧ request = .read 4 {} ∨
      t = 0 ∧ request = write) : request.Brings := by
    rcases called with ⟨-, rfl⟩ | ⟨-, rfl⟩
    · trivial
    · exact List.cons_ne_nil _ _
  obtain ⟨-, -, -, bound⟩ := interleaved_safe init run (by simpa using brings)
  obtain ⟨inside, -⟩ := interleaved_safe init (run.append (.single enter)) (by simpa using brings)
  exact ⟨m, owner, inside, fun more c' => bound 0 m more c' enter⟩

end Callers

end Aesd.Driver
