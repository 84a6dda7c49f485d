import Aesd.Driver.Leaks

/-! The module over its whole life on one machine: loaded, used and unloaded any number of times.
What stays behind is counted exactly: a block for each load that fails at `cdev_add` and for each
write that fails at `copy_from_user`, and a region of device numbers for each load that finds no
memory. -/

namespace Aesd.Driver

open Aesd.CInt ProofKit

/-- How loading the module ends. -/
inductive InitOutcome
  | noRegion
  | noMemory
  | noCdev
  | loaded
  deriving DecidableEq, Repr

/-- The way `aesd_init_module` goes. -/
def initOutcome (heap : KHeap) (env : InitEnv) : InitOutcome :=
  if env.region < 0 then .noRegion
  else if (kmalloc heap sizeofAesdCircularBuffer env.allocation).isNone then .noMemory
  else if env.cdev ≠ 0 then .noCdev
  else .loaded

/-- The regions of device numbers that `aesd_init_module` leaves registered: it gives its region
back when `aesd_setup_cdev` fails, but not when it finds no memory. -/
def InitOutcome.regions : InitOutcome → Nat
  | .noRegion | .noCdev => 0
  | .noMemory | .loaded => 1

/-- The machine: kernel memory, the module in it if it is loaded, and the number of regions of
device numbers that are registered. -/
inductive Host
  | unloaded (heap : KHeap) (regions : Nat)
  | loaded (d : Loaded) (regions : Nat)

inductive HostEvent
  | insmod (env : InitEnv) (outcome : InitOutcome)
  | call (op : Op) (reply : Reply)
  | rmmod (freed : List Nat)

/-- The services return 0 or an error number below 0, and the module is kept when
`aesd_init_module` returns 0. -/
inductive Host.Step : Host → HostEvent → Host → Prop
  | load {heap : KHeap} {regions : Nat} {env : InitEnv} {kernel : Kernel}
      (init : aesdInitModule heap env = (0, kernel)) :
      Step (.unloaded heap regions) (.insmod env (initOutcome heap env))
        (.loaded (.start kernel) (regions + (initOutcome heap env).regions))
  | fail {heap : KHeap} {regions : Nat} {env : InitEnv} {result : Int} {kernel : Kernel}
      (init : aesdInitModule heap env = (result, kernel)) (failed : result < 0) :
      Step (.unloaded heap regions) (.insmod env (initOutcome heap env))
        (.unloaded kernel.heap (regions + (initOutcome heap env).regions))
  | call {d d' : Loaded} {regions : Nat} {op : Op} {reply : Reply}
      (step : d.step op = .ok (d', reply)) :
      Step (.loaded d regions) (.call op reply) (.loaded d' regions)
  | unload {d : Loaded} {regions : Nat} {heap : KHeap} {freed : List Nat}
      (cleanup : aesdCleanupModule d.kernel = .ok (heap, freed)) :
      Step (.loaded d regions) (.rmmod freed) (.unloaded heap (regions - 1))

/-- The events that leave a block behind. -/
def HostEvent.leaks : HostEvent → Bool
  | .insmod _ outcome => outcome = .noCdev
  | .call (.write _ _ _) reply => reply.retval = -efault
  | _ => false

/-- The events that leave a region behind. -/
def HostEvent.leaksRegion : HostEvent → Bool
  | .insmod _ outcome => outcome = .noMemory
  | _ => false

/-- `after` is `before` with `n` blocks more. -/
inductive Grown (before : KHeap) : Nat → KHeap → Prop
  | same : Grown before 0 before
  | leak {after : KHeap} {n p : Nat} {block : List UInt8} (fresh : p ∉ after) :
      Grown before n after → Grown before (n + 1) (after.insert p block)

variable {before after frame : KHeap} {n p : Nat} {d d' : Loaded} {kernel : Kernel}
  {base : Nat × List UInt8} {ring : List Held} {wip : Option Held} {op : Op} {reply : Reply}

theorem Grown.count (grown : Grown before n after) :
    after.keys.length = before.keys.length + n := by
  induction grown with
  | same => rfl
  | @leak after n p block fresh _ ih =>
    rw [AList.keys_insert, List.length_cons, List.erase_of_not_mem fresh, ih]
    rfl

theorem Grown.trans {m : Nat} {last : KHeap} (first : Grown before n after)
    (second : Grown after m last) : Grown before (n + m) last := by
  induction second with
  | same => exact first
  | leak fresh _ ih => exact .leak fresh ih

theorem Grown.kept (grown : Grown before n after) (live : p ∈ before) :
    after.lookup p = before.lookup p := by
  induction grown with
  | same => rfl
  | @leak after n q block fresh _ ih =>
    rw [AList.lookup_insert_ne, ih]
    rintro rfl
    rw [← AList.lookup_isSome, ← ih, AList.lookup_isSome] at live
    exact fresh live

/-- What `aesd_init_module` returns, and the memory that it leaves. -/
theorem aesdInitModule_outcome {heap : KHeap} {env : InitEnv} {result : Int}
    (init : aesdInitModule heap env = (result, kernel)) :
    match initOutcome heap env with
    | .noRegion | .noMemory => result ≠ 0 ∧ kernel.heap = heap
    | .noCdev => result ≠ 0 ∧ ∃ p block, p ∉ heap ∧ kernel.heap = heap.insert p block
    | .loaded => result = 0 := by
  unfold aesdInitModule at init
  unfold initOutcome
  by_cases noRegion : env.region < 0
  · rw [if_pos noRegion] at init ⊢
    obtain ⟨rfl, rfl⟩ := Prod.mk.inj init
    exact ⟨by omega, rfl⟩
  rw [if_neg noRegion] at init ⊢
  cases request : kmalloc heap sizeofAesdCircularBuffer env.allocation with
  | none =>
    rw [request] at init
    obtain ⟨rfl, rfl⟩ := Prod.mk.inj init
    rw [if_pos Option.isNone_none]
    exact ⟨by decide, rfl⟩
  | some new =>
    obtain ⟨p, heap'⟩ := new
    rw [request] at init
    obtain ⟨rfl, rfl⟩ := Prod.mk.inj init
    rw [Option.isNone_some, if_neg Bool.false_ne_true]
    by_cases noCdev : env.cdev ≠ 0
    · rw [if_pos noCdev]
      obtain ⟨found, -, -, -, alloc⟩ := kmalloc_eq_some request
      refine ⟨noCdev, p, (List.range sizeofAesdCircularBuffer).map found.junk,
        Heap.not_mem_of_alloc alloc, ?_⟩
      rw [Heap.alloc, if_neg (Heap.not_mem_of_alloc alloc)] at alloc
      exact (Option.some.inj alloc).symm
    · rw [if_neg noCdev]
      exact not_not.mp noCdev

theorem Holds.frame_congr {frame' : KHeap} (h : Holds kernel base ring wip frame)
    (same : ∀ p, frame.lookup p = frame'.lookup p) : Holds kernel base ring wip frame' := by
  have mem (p : Nat) : p ∈ frame' ↔ p ∈ frame := by
    rw [← AList.lookup_isSome, ← same, AList.lookup_isSome]
  refine ⟨h.bufferptr, ⟨h.owns.nodup, h.owns.held, fun x hx => ?_, fun p hp => ?_⟩, h.represents,
    h.wipEntry, h.small⟩
  · rw [mem]
    exact h.owns.apart x hx
  · rw [← same]
    exact h.owns.rest p hp

/-- An operation changes the memory that is not the driver's only when it leaves a block behind. -/
theorem Loaded.step_frame (h : Holds d.kernel base ring wip frame)
    (step : d.step op = .ok (d', reply)) :
    ∃ ring' wip' frame', Holds d'.kernel base ring' wip' frame' ∧
      Grown frame (if (HostEvent.call op reply).leaks then 1 else 0) frame' := by
  cases Loaded.step_cases h step with
  | written _ _ _ _ holds =>
    refine ⟨_, _, frame, holds, ?_⟩
    rw [if_neg]
    · exact .same
    · simp [HostEvent.leaks, efault]
  | other notWrite kernel =>
    refine ⟨ring, wip, frame, kernel ▸ h, ?_⟩
    rw [if_neg]
    · exact .same
    · cases op with
      | write file buf env => exact absurd rfl (notWrite _ _ _)
      | openFile | release | read | llseek | ioctl => exact Bool.false_ne_true
  | @failed file buf env _ _ _ bad =>
    by_cases lock : env.interrupted = true
    · simp only [Loaded.step, aesdWrite_interrupted buf _ env lock, ok_bind, pure, Except.pure]
        at step
      cases step
      exact ⟨ring, wip, frame, h, .same⟩
    cases request : kmalloc d.kernel.heap (d.kernel.pending.length + buf.bytes.length + 1)
      env.allocation with
    | none =>
      simp only [Loaded.step, aesdWrite_noMemory h buf _ env lock request, ok_bind, pure,
        Except.pure] at step
      cases step
      exact ⟨ring, wip, frame, h, .same⟩
    | some new =>
      have granted : (kmalloc d.kernel.heap (d.kernel.pending.length + buf.bytes.length + 1)
          env.allocation).isSome := by rw [request]; rfl
      have faulted : env.uncopied ≠ 0 := fun copied =>
        bad ⟨Bool.eq_false_iff.mpr lock, copied, granted⟩
      obtain ⟨found, heap', block, -, fresh, ok, holds⟩ := aesdWrite_faulted h buf (d.fPos file)
        env (Bool.eq_false_iff.mpr lock) faulted granted
      simp only [Loaded.step, ok, ok_bind, pure, Except.pure] at step
      obtain ⟨rfl, same⟩ := Prod.mk.inj (Except.ok.inj step)
      obtain rfl := congrArg Reply.retval same
      refine ⟨ring, wip, _, holds, .leak (fun live => fresh ?_) .same⟩
      exact h.owns.mem_iff.mpr (.inr live)

namespace Host

/-- The memory of the machine. -/
def heap : Host → KHeap
  | .unloaded heap _ => heap
  | .loaded d _ => d.kernel.heap

def regions : Host → Nat
  | .unloaded _ regions | .loaded _ regions => regions

/-- The number of blocks that the loaded module holds: the circular buffer and the buffers that its
entries name. -/
def blocksHeld : Host → Nat
  | .unloaded _ _ => 0
  | .loaded d _ => d.kernel.pointers.length + 1

def regionsHeld : Host → Nat
  | .unloaded _ _ => 0
  | .loaded _ _ => 1

/-- All memory and regions are accounted for: those that were there first, `blocks` and `regions`
left behind, and what the module holds. -/
def Accounts (first : KHeap) (there blocks regions : Nat) (host : Host) : Prop :=
  host.regions = there + regions + host.regionsHeld ∧
  ∃ outside, Grown first blocks outside ∧ match host with
    | .unloaded heap _ => ∀ p, heap.lookup p = outside.lookup p
    | .loaded d _ => ∃ base ring wip, Holds d.kernel base ring wip outside

variable {first : KHeap} {there blocks k : Nat} {host host' : Host} {event : HostEvent}

theorem Accounts.step (accounts : Accounts first there blocks k host)
    (step : Step host event host') :
    Accounts first there (blocks + if event.leaks then 1 else 0)
      (k + if event.leaksRegion then 1 else 0) host' := by
  obtain ⟨regions, outside, grown, rest⟩ := accounts
  cases step with
  | @load heap _ env kernel init =>
    have outcome := aesdInitModule_outcome init
    obtain ⟨base, h⟩ := aesdInitModule_holds init
    cases ends : initOutcome heap env with
    | loaded => exact ⟨congrArg (· + 1) regions, outside, grown, base, [], none, h.frame_congr rest⟩
    | noRegion | noMemory | noCdev =>
      rw [ends] at outcome
      exact absurd rfl outcome.1
  | @fail heap _ env result kernel init failed =>
    have outcome := aesdInitModule_outcome init
    cases ends : initOutcome heap env with
    | loaded =>
      rw [ends] at outcome
      exact absurd outcome (Int.ne_of_lt failed)
    | noRegion =>
      rw [ends] at outcome
      exact ⟨regions, outside, grown, outcome.2 ▸ rest⟩
    | noMemory =>
      rw [ends] at outcome
      exact ⟨congrArg (· + 1) regions, outside, grown, outcome.2 ▸ rest⟩
    | noCdev =>
      rw [ends] at outcome
      obtain ⟨-, p, block, fresh, heap'⟩ := outcome
      refine ⟨regions, outside.insert p block, .leak (fun live => fresh ?_) grown, fun q => ?_⟩
      · rwa [← AList.lookup_isSome, rest, AList.lookup_isSome]
      · rw [heap']
        by_cases same : q = p
        · subst same
          rw [AList.lookup_insert, AList.lookup_insert]
        · rw [AList.lookup_insert_ne same, AList.lookup_insert_ne same, rest]
  | call step =>
    obtain ⟨base, ring, wip, h⟩ := rest
    obtain ⟨ring', wip', frame', h', more⟩ := Loaded.step_frame h step
    exact ⟨regions, frame', grown.trans more, base, ring', wip', h'⟩
  | unload cleanup =>
    obtain ⟨base, ring, wip, h⟩ := rest
    obtain ⟨heap', freed, ok, -, -, own⟩ := aesdCleanupModule_frees h
    obtain ⟨rfl, rfl⟩ := Prod.mk.inj (Except.ok.inj (cleanup.symm.trans ok))
    refine ⟨?_, outside, grown, fun p => own.rest p (by simp)⟩
    simp only [Host.regions, regionsHeld] at regions ⊢
    rw [regions]
    rfl

theorem accounts_run {heap : KHeap} {events : List HostEvent}
    (run : Run Step (.unloaded heap there) events host) :
    Accounts heap there (events.countP HostEvent.leaks) (events.countP HostEvent.leaksRegion)
      host := by
  refine run.history (P := fun events host => Accounts heap there
    (events.countP HostEvent.leaks) (events.countP HostEvent.leaksRegion) host)
    ⟨rfl, heap, .same, fun _ => rfl⟩ fun events event s t _ accounts step => ?_
  rw [List.countP_append, List.countP_append, List.countP_singleton, List.countP_singleton]
  exact accounts.step step

theorem length_keys_eq {a b : KHeap} (same : ∀ p, p ∈ a ↔ p ∈ b) :
    a.keys.length = b.keys.length :=
  ((List.perm_ext_iff_of_nodup a.keys_nodup b.keys_nodup).mpr same).length_eq

/-- The blocks of a loaded module: those outside it, and those that it holds. -/
theorem length_keys_held {d : Loaded} {base : Nat × List UInt8} {ring : List Held}
    {wip : Option Held} {outside : KHeap} (h : Holds d.kernel base ring wip outside) :
    d.kernel.heap.keys.length = outside.keys.length + (d.kernel.pointers.length + 1) := by
  have noLeak := h.noLeak
  have nodup : (outside.keys ++ base.1 :: d.kernel.pointers).Nodup := by
    refine List.nodup_append.mpr ⟨outside.keys_nodup, List.nodup_cons.mpr
      ⟨fun named => noLeak.data _ named h.bufferptr, noLeak.nodup⟩, ?_⟩
    rintro p hp q hq rfl
    rcases List.mem_cons.mp hq with rfl | named
    · exact noLeak.apart _ (.inr h.bufferptr) hp
    · exact noLeak.apart _ (.inl named) hp
  have same : d.kernel.heap.keys.Perm (outside.keys ++ base.1 :: d.kernel.pointers) := by
    refine (List.perm_ext_iff_of_nodup d.kernel.heap.keys_nodup nodup).mpr fun p => ?_
    rw [List.mem_append, List.mem_cons]
    refine (noLeak.live p).trans ?_
    rw [h.bufferptr, Option.some_inj, eq_comm (a := p)]
    rfl
  rw [same.length_eq, List.length_append, List.length_cons]

end Host

/-- In whatever order the module is loaded, used and unloaded, whether the kernel grants what it
asks for or not: the live blocks are as many as at first, one for each load that failed at
`cdev_add`, one for each write that failed at `copy_from_user`, and those that the module holds
while it is loaded; of the regions of device numbers, one is left by each load that found no
memory. The blocks that were there first are not touched, and no call and no unloading goes
wrong. -/
theorem lifetimes {heap : KHeap} {there : Nat} {events : List HostEvent} {host : Host}
    (run : Run Host.Step (.unloaded heap there) events host) :
    host.heap.keys.length =
      heap.keys.length + events.countP HostEvent.leaks + host.blocksHeld ∧
    host.regions = there + events.countP HostEvent.leaksRegion + host.regionsHeld ∧
    (∀ p ∈ heap, host.heap.lookup p = heap.lookup p) ∧
    ∀ d regions, host = .loaded d regions →
      (∀ op, ∃ reply host', Host.Step host (.call op reply) host') ∧
      ∃ freed host', Host.Step host (.rmmod freed) host' := by
  obtain ⟨regions, outside, grown, rest⟩ := Host.accounts_run run
  cases host with
  | unloaded after _ =>
    refine ⟨?_, regions, fun p live => (rest p).trans (grown.kept live), fun _ _ eq => ?_⟩
    · refine (Host.length_keys_eq fun p => ?_).trans grown.count
      show p ∈ after ↔ p ∈ outside
      rw [← AList.lookup_isSome, rest, AList.lookup_isSome]
    · contradiction
  | loaded d _ =>
    obtain ⟨base, ring, wip, h⟩ := rest
    refine ⟨?_, regions, fun p live => ?_, ?_⟩
    · rw [Host.heap, Host.length_keys_held h, grown.count]
      rfl
    · rw [← grown.kept live]
      refine h.owns.rest p fun mine => ?_
      obtain ⟨x, hx, rfl⟩ := List.mem_map.mp mine
      have stays : x.1 ∈ outside := by
        rwa [← AList.lookup_isSome, grown.kept live, AList.lookup_isSome]
      exact h.owns.apart x hx stays
    · rintro d' r eq
      obtain ⟨rfl, rfl⟩ := Host.loaded.inj eq
      refine ⟨fun op => ?_, ?_⟩
      · obtain ⟨d', reply, step, -⟩ := Loaded.step_total h op
        exact ⟨reply, _, .call step⟩
      · obtain ⟨heap', freed, ok, -⟩ := aesdCleanupModule_frees h
        exact ⟨freed, _, .unload ok⟩

/-- A load that fails at `cdev_add`, and one that goes well; a write that fails at
`copy_from_user`; the module is unloaded. Two blocks and no region stay behind. -/
theorem lifetimes_two_blocks : ∃ host, host.heap.keys.length = 2 ∧ host.regions = 0 ∧
    Run Host.Step (.unloaded ∅ 0)
      [.insmod ⟨0, some ⟨1, fun _ => 0⟩, -12⟩ .noCdev,
        .insmod ⟨0, some ⟨2, fun _ => 0⟩, 0⟩ .loaded,
        .call (.write 0 ⟨[97], by decide⟩ { allocation := some ⟨3, fun _ => 0⟩, uncopied := 1 })
          ⟨-efault, []⟩,
        .rmmod [2]] host := by
  have run : Run Host.Step (.unloaded ∅ 0)
      [.insmod ⟨0, some ⟨1, fun _ => 0⟩, -12⟩ .noCdev,
        .insmod ⟨0, some ⟨2, fun _ => 0⟩, 0⟩ .loaded,
        .call (.write 0 ⟨[97], by decide⟩ { allocation := some ⟨3, fun _ => 0⟩, uncopied := 1 })
          ⟨-efault, []⟩,
        .rmmod [2]] _ :=
    .cons (.fail rfl (by decide)) (.cons (.load rfl) (.cons (.call rfl)
      (.cons (.unload rfl) (.nil _))))
  obtain ⟨blocks, regions, -⟩ := lifetimes run
  exact ⟨_, blocks, regions, run⟩

end Aesd.Driver
