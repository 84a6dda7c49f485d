import Aesd.CInt
import Aesd.ProofKit.Custody
import Aesd.ProofKit.Noted

/-! `threadfunc` of `threading.c`, which sleeps, locks a mutex, sleeps and unlocks it again. A time
is given to `nanosleep` in nanoseconds alone, from a product of type `int`, and a thread whose
second sleep fails returns with the mutex locked. -/

namespace Aesd.Threading

open CInt ProofKit

structure Timespec where
  tvSec : Int
  tvNsec : Int
  deriving DecidableEq, Repr

namespace Timespec

def Valid (ts : Timespec) : Prop := 0 ≤ ts.tvSec ∧ 0 ≤ ts.tvNsec ∧ ts.tvNsec < 1000000000

instance (ts : Timespec) : Decidable ts.Valid := inferInstanceAs (Decidable (_ ∧ _ ∧ _))

/-- The time in nanoseconds. -/
def nanoseconds (ts : Timespec) : Int := ts.tvSec * 1000000000 + ts.tvNsec

end Timespec

/-- `nanosleep` refuses a time that is not valid, and otherwise sleeps for it, unless it is
interrupted. -/
def nanosleep (ts : Timespec) (interrupted : Bool) : Int :=
  if ts.Valid ∧ interrupted = false then 0 else -1

/-- `struct thread_data`. -/
structure ThreadData where
  pMutex : Nat
  waitToObtainMs : Int32
  waitToReleaseMs : Int32
  threadCompleteSuccess : Bool
  deriving DecidableEq, Repr

/-- What the thread meets: whether its sleeps are interrupted, and the results of
`pthread_mutex_lock` and `pthread_mutex_unlock`. -/
structure ThreadEnv where
  obtainInterrupted : Bool
  lockError : Nat
  releaseInterrupted : Bool
  unlockError : Nat
  deriving DecidableEq, Repr

/-- A call of the thread, and the value returned. -/
inductive ThreadCall
  | nanosleep (ts : Timespec) (ret : Int)
  | lock (mutex : Nat) (ret : Nat)
  | unlock (mutex : Nat) (ret : Nat)
  deriving DecidableEq, Repr

/-- The time that is slept for. -/
def ThreadCall.duration : ThreadCall → Option Timespec
  | nanosleep ts _ => some ts
  | _ => none

/-- What `pthread_mutex_lock` returns when the last owner of a robust mutex died: the caller has the
mutex then. -/
def eownerdead : Nat := 130

/-- The result of a `pthread_mutex_lock` that obtained the mutex. -/
def Obtained (ret : Nat) : Prop := ret = 0 ∨ ret = eownerdead

instance (ret : Nat) : Decidable (Obtained ret) := inferInstanceAs (Decidable (_ ∨ _))

/-- A mutex is given back by a call that succeeds. -/
def ThreadCall.acts : ThreadCall → List (Act Nat)
  | nanosleep _ _ => []
  | lock mutex ret => if Obtained ret then [.acquire mutex] else []
  | unlock mutex ret => if ret = 0 then [.release mutex] else []

/-- The milliseconds become nanoseconds, and nothing becomes seconds. -/
def toTimespec (ms : Int32) : Except SignedOverflow Timespec :=
  (mulInt ms.toInt 1000000).map fun nsec => ⟨0, nsec⟩

/-- The two sleeps and the calls on the mutex, which are noted down. -/
def threadfunc (env : ThreadEnv) (data : ThreadData) :
    Noted SignedOverflow ThreadCall ThreadData := do
  let tsLock ← silent (toTimespec data.waitToObtainMs)
  let tsUnlock ← silent (toTimespec data.waitToReleaseMs)
  note (.nanosleep tsLock (nanosleep tsLock env.obtainInterrupted))
  if nanosleep tsLock env.obtainInterrupted ≠ 0 then
    return data
  note (.lock data.pMutex env.lockError)
  if env.lockError ≠ 0 then
    return data
  note (.nanosleep tsUnlock (nanosleep tsUnlock env.releaseInterrupted))
  if nanosleep tsUnlock env.releaseInterrupted ≠ 0 then
    return data
  note (.unlock data.pMutex env.unlockError)
  if env.unlockError ≠ 0 then
    return data
  return { data with threadCompleteSuccess := true }

/-- A store to the bytes of `struct thread_data` from `offset` on. -/
structure ArgsStore where
  offset : Nat
  size : Nat
  deriving DecidableEq, Repr

/-- `sizeof(struct thread_data*)`, the size of the block of `malloc`. -/
def argsSize : Nat := 8

/-- `start_thread_obtaining_mutex`: the value returned, and what the new thread is given. When the
thread cannot be created the memory is freed. -/
def startThreadObtainingMutex (mutex : Nat) (waitToObtainMs waitToReleaseMs : Int32)
    (createError : Nat) : Noted SignedOverflow ArgsStore (Bool × Option ThreadData) := do
  let args : ThreadData := ⟨mutex, waitToObtainMs, waitToReleaseMs, false⟩
  note ⟨0, 8⟩
  note ⟨8, 4⟩
  note ⟨12, 4⟩
  note ⟨16, 1⟩
  if createError ≠ 0 then return (false, none)
  return (true, some args)

variable {env : ThreadEnv} {data result : ThreadData} {ts tsLock tsUnlock : Timespec} {ms : Int32}
  {calls : List ThreadCall} {success : Bool}

/-- Only the pointer to the mutex goes to a place inside the block. What the other fields hold is
theirs only because `malloc` gives more than it is asked for. -/
theorem startThreadObtainingMutex_outside {mutex createError : Nat}
    {waitToObtainMs waitToReleaseMs : Int32} {started : Bool × Option ThreadData}
    {stores : List ArgsStore}
    (ran : startThreadObtainingMutex mutex waitToObtainMs waitToReleaseMs createError [] =
      .ok (started, stores)) :
    ∀ store ∈ stores, store.offset + store.size ≤ argsSize ↔ store = ⟨0, 8⟩ := by
  obtain rfl : stores = [⟨0, 8⟩, ⟨8, 4⟩, ⟨12, 4⟩, ⟨16, 1⟩] := by
    unfold startThreadObtainingMutex at ran
    split at ran <;> exact (Prod.mk.inj (Except.ok.inj ran)).2.symm
  decide

theorem nanosleep_eq_zero {interrupted : Bool} :
    nanosleep ts interrupted = 0 ↔ ts.Valid ∧ interrupted = false := by
  unfold nanosleep
  split <;> simp_all

theorem toTimespec_eq_ok :
    toTimespec ms = .ok ts ↔
      (-2 ^ 31 ≤ ms.toInt * 1000000 ∧ ms.toInt * 1000000 < 2 ^ 31) ∧
        ts = ⟨0, ms.toInt * 1000000⟩ := by
  constructor
  · intro converted
    cases product : mulInt ms.toInt 1000000 with
    | error e => simp [toTimespec, product, Except.map] at converted
    | ok nsec =>
      obtain ⟨fits, rfl⟩ := mulInt_eq_ok.mp product
      rw [toTimespec, product] at converted
      cases converted
      exact ⟨fits, rfl⟩
  · rintro ⟨fits, rfl⟩
    rw [toTimespec, mulInt_eq_ok.mpr ⟨fits, rfl⟩]
    rfl

/-- A time below a second is converted right, and no other. -/
theorem valid_iff (converted : toTimespec ms = .ok ts) :
    ts.Valid ↔ 0 ≤ ms.toInt ∧ ms.toInt ≤ 999 := by
  obtain ⟨-, rfl⟩ := toTimespec_eq_ok.mp converted
  unfold Timespec.Valid
  simp only
  omega

theorem nanoseconds_eq (converted : toTimespec ms = .ok ts) :
    ts.nanoseconds = ms.toInt * 1000000 := by
  obtain ⟨-, rfl⟩ := toTimespec_eq_ok.mp converted
  simp [Timespec.nanoseconds]

theorem exists_timespec (low : 0 ≤ ms.toInt) (high : ms.toInt ≤ 999) :
    ∃ ts, toTimespec ms = .ok ts :=
  ⟨_, toTimespec_eq_ok.mpr ⟨by omega, rfl⟩⟩

/-- How the thread comes to its end: the calls that it made, and whether they all succeeded. -/
inductive Ends (env : ThreadEnv) (mutex : Nat) (tsLock tsUnlock : Timespec) :
    List ThreadCall → Bool → Prop
  | obtainFailed (failed : nanosleep tsLock env.obtainInterrupted ≠ 0) :
      Ends env mutex tsLock tsUnlock
        [.nanosleep tsLock (nanosleep tsLock env.obtainInterrupted)] false
  | lockFailed (slept : nanosleep tsLock env.obtainInterrupted = 0) (failed : env.lockError ≠ 0) :
      Ends env mutex tsLock tsUnlock [.nanosleep tsLock 0, .lock mutex env.lockError] false
  | releaseFailed (slept : nanosleep tsLock env.obtainInterrupted = 0) (locked : env.lockError = 0)
      (failed : nanosleep tsUnlock env.releaseInterrupted ≠ 0) :
      Ends env mutex tsLock tsUnlock [.nanosleep tsLock 0, .lock mutex 0,
        .nanosleep tsUnlock (nanosleep tsUnlock env.releaseInterrupted)] false
  | unlockFailed (slept : nanosleep tsLock env.obtainInterrupted = 0) (locked : env.lockError = 0)
      (held : nanosleep tsUnlock env.releaseInterrupted = 0) (failed : env.unlockError ≠ 0) :
      Ends env mutex tsLock tsUnlock [.nanosleep tsLock 0, .lock mutex 0,
        .nanosleep tsUnlock 0, .unlock mutex env.unlockError] false
  | completed (slept : nanosleep tsLock env.obtainInterrupted = 0) (locked : env.lockError = 0)
      (held : nanosleep tsUnlock env.releaseInterrupted = 0) (unlocked : env.unlockError = 0) :
      Ends env mutex tsLock tsUnlock [.nanosleep tsLock 0, .lock mutex 0,
        .nanosleep tsUnlock 0, .unlock mutex 0] true

theorem threadfunc_ends (env : ThreadEnv) (data : ThreadData)
    (lock : toTimespec data.waitToObtainMs = .ok tsLock)
    (unlock : toTimespec data.waitToReleaseMs = .ok tsUnlock) :
    ∃ calls success, Ends env data.pMutex tsLock tsUnlock calls success ∧
      threadfunc env data [] = .ok ({ data with
        threadCompleteSuccess := success || data.threadCompleteSuccess }, calls) := by
  by_cases slept : nanosleep tsLock env.obtainInterrupted = 0
  swap
  · exact ⟨_, _, .obtainFailed slept, by simp [threadfunc, lock, unlock, slept]⟩
  by_cases locked : env.lockError = 0
  swap
  · exact ⟨_, _, .lockFailed slept locked, by simp [threadfunc, lock, unlock, slept, locked]⟩
  by_cases held : nanosleep tsUnlock env.releaseInterrupted = 0
  swap
  · exact ⟨_, _, .releaseFailed slept locked held, by
      simp [threadfunc, lock, unlock, slept, locked, held]⟩
  by_cases unlocked : env.unlockError = 0
  swap
  · exact ⟨_, _, .unlockFailed slept locked held unlocked, by
      simp [threadfunc, lock, unlock, slept, locked, held, unlocked]⟩
  exact ⟨_, _, .completed slept locked held unlocked, by
    simp [threadfunc, lock, unlock, slept, locked, held, unlocked]⟩

namespace Ends

variable {mutex : Nat} (ends : Ends env mutex tsLock tsUnlock calls success)

include ends

theorem durations : calls.filterMap ThreadCall.duration <+: [tsLock, tsUnlock] := by
  cases ends with
  | obtainFailed | lockFailed => exact ⟨[tsUnlock], rfl⟩
  | releaseFailed | unlockFailed | completed => exact ⟨[], rfl⟩

theorem success_iff : success = true ↔
    nanosleep tsLock env.obtainInterrupted = 0 ∧ env.lockError = 0 ∧
      nanosleep tsUnlock env.releaseInterrupted = 0 ∧ env.unlockError = 0 := by
  cases ends <;> simp_all

/-- The mutex is given back unless it was obtained and the thread failed after that. -/
theorem custody_iff : Custody ∅ (calls.flatMap ThreadCall.acts) ∅ ↔
    ¬(nanosleep tsLock env.obtainInterrupted = 0 ∧ Obtained env.lockError ∧ success = false) := by
  have untouched : Custody (∅ : Finset Nat) [] ∅ := .nil _
  have kept : ¬Custody ∅ [.acquire mutex] ∅ := by
    intro custody
    simpa [Act.holds] using custody.balance mutex
  cases ends with
  | obtainFailed failed => exact iff_of_true untouched (by simp [failed])
  | lockFailed slept failed =>
    by_cases obtained : Obtained env.lockError
    · refine iff_of_false ?_ (by simp [slept, obtained])
      simpa [ThreadCall.acts, obtained] using kept
    · refine iff_of_true ?_ (by simp [obtained])
      simpa [ThreadCall.acts, obtained] using untouched
  | releaseFailed slept locked => exact iff_of_false kept (by simp [slept, locked, Obtained])
  | unlockFailed slept locked held failed =>
    refine iff_of_false ?_ (by simp [slept, locked, Obtained])
    simpa [ThreadCall.acts, Obtained, failed] using kept
  | completed =>
    refine iff_of_true (Custody.of_execute ?_) (by simp)
    simp [ThreadCall.acts, Obtained, execute, Act.apply, Finset.erase_singleton]

end Ends

/-- What `threadfunc` is meant to do. The times that it sleeps for are valid and those asked for,
with no overflow, it does not keep the mutex, and it reports success exactly when every call
succeeded. -/
def Obeys (env : ThreadEnv) (data : ThreadData) : Prop :=
  ∃ tsLock tsUnlock result calls,
    (toTimespec data.waitToObtainMs = .ok tsLock ∧ toTimespec data.waitToReleaseMs = .ok tsUnlock) ∧
    (tsLock.Valid ∧ tsLock.nanoseconds = data.waitToObtainMs.toInt * 1000000) ∧
    (tsUnlock.Valid ∧ tsUnlock.nanoseconds = data.waitToReleaseMs.toInt * 1000000) ∧
    threadfunc env data [] = .ok (result, calls) ∧
    calls.filterMap ThreadCall.duration <+: [tsLock, tsUnlock] ∧
    Custody ∅ (calls.flatMap ThreadCall.acts) ∅ ∧
    (result.threadCompleteSuccess = true ↔
      nanosleep tsLock env.obtainInterrupted = 0 ∧ env.lockError = 0 ∧
        nanosleep tsUnlock env.releaseInterrupted = 0 ∧ env.unlockError = 0)

/-- A thread obeys exactly when both times are below a second, and, if it gets to the mutex,
`pthread_mutex_lock` does not report that the last owner died, and where it returns 0 the second
sleep is not interrupted and `pthread_mutex_unlock` does not fail. -/
theorem threadfunc_obeys_iff {mutex createError : Nat} {waitToObtainMs waitToReleaseMs : Int32}
    {stores : List ArgsStore}
    (created : startThreadObtainingMutex mutex waitToObtainMs waitToReleaseMs createError [] =
      .ok ((true, some data), stores)) :
    Obeys env data ↔
      (0 ≤ waitToObtainMs.toInt ∧ waitToObtainMs.toInt ≤ 999) ∧
      (0 ≤ waitToReleaseMs.toInt ∧ waitToReleaseMs.toInt ≤ 999) ∧
      (env.obtainInterrupted = false → env.lockError ≠ eownerdead ∧
        (env.lockError = 0 → env.releaseInterrupted = false ∧ env.unlockError = 0)) := by
  obtain rfl : data = ⟨mutex, waitToObtainMs, waitToReleaseMs, false⟩ := by
    unfold startThreadObtainingMutex at created
    split at created
    · cases created
    · cases created
      rfl
  constructor
  · rintro ⟨tsLock, tsUnlock, result, calls, ⟨lock, unlock⟩, ⟨validLock, -⟩, ⟨validUnlock, -⟩, ran,
      -, custody, -⟩
    obtain ⟨calls', success, ends, ran'⟩ := threadfunc_ends env _ lock unlock
    obtain rfl : calls' = calls := (Prod.mk.inj (Except.ok.inj (ran'.symm.trans ran))).2
    refine ⟨(valid_iff lock).mp validLock, (valid_iff unlock).mp validUnlock, fun slept => ?_⟩
    have completes (obtained : Obtained env.lockError) : env.lockError = 0 ∧
        env.releaseInterrupted = false ∧ env.unlockError = 0 := by
      by_contra failed
      refine ends.custody_iff.mp custody ⟨nanosleep_eq_zero.mpr ⟨validLock, slept⟩, obtained, ?_⟩
      rw [← Bool.not_eq_true, ends.success_iff]
      rintro ⟨-, locked, held, unlocked⟩
      exact failed ⟨locked, (nanosleep_eq_zero.mp held).2, unlocked⟩
    refine ⟨fun dead => ?_, fun locked => (completes (.inl locked)).2⟩
    have zero := (completes (.inr dead)).1
    rw [dead] at zero
    contradiction
  · rintro ⟨⟨lowLock, highLock⟩, ⟨lowUnlock, highUnlock⟩, released⟩
    obtain ⟨tsLock, lock⟩ := exists_timespec lowLock highLock
    obtain ⟨tsUnlock, unlock⟩ := exists_timespec lowUnlock highUnlock
    have validLock := (valid_iff lock).mpr ⟨lowLock, highLock⟩
    have validUnlock := (valid_iff unlock).mpr ⟨lowUnlock, highUnlock⟩
    obtain ⟨calls, success, ends, ran⟩ := threadfunc_ends env
      ⟨mutex, waitToObtainMs, waitToReleaseMs, false⟩ lock unlock
    refine ⟨tsLock, tsUnlock, _, calls, ⟨lock, unlock⟩, ⟨validLock, nanoseconds_eq lock⟩,
      ⟨validUnlock, nanoseconds_eq unlock⟩, ran, ends.durations, ends.custody_iff.mpr ?_, ?_⟩
    · rintro ⟨slept, obtained, failed⟩
      obtain ⟨alive, releases⟩ := released (nanosleep_eq_zero.mp slept).2
      have locked := obtained.resolve_right alive
      obtain ⟨held, unlocked⟩ := releases locked
      have all : success = true := ends.success_iff.mpr ⟨slept, locked,
        nanosleep_eq_zero.mpr ⟨validUnlock, held⟩, unlocked⟩
      rw [failed] at all
      contradiction
    · simpa using ends.success_iff

/-- Half a second each, and nothing fails. -/
theorem threadfunc_obeys_half_second : Obeys ⟨false, 0, false, 0⟩ ⟨1, 500, 500, false⟩ := by
  have created : startThreadObtainingMutex 1 500 500 0 [] =
      .ok ((true, some ⟨1, 500, 500, false⟩), _) := rfl
  exact (threadfunc_obeys_iff created).mpr (by decide)

/-- One second to hold the mutex: the second sleep fails with `EINVAL`, and the thread returns with
the mutex locked. -/
theorem threadfunc_keeps_mutex :
    (threadfunc ⟨false, 0, false, 0⟩ ⟨1, 0, 1000, false⟩ []).map Prod.snd =
      .ok [.nanosleep ⟨0, 0⟩ 0, .lock 1 0, .nanosleep ⟨0, 1000000000⟩ (-1)] ∧
    ¬∀ (env : ThreadEnv) (data : ThreadData) (waitToObtainMs waitToReleaseMs : Int32)
      (stores : List ArgsStore), 0 ≤ waitToObtainMs.toInt → 0 ≤ waitToReleaseMs.toInt →
      startThreadObtainingMutex 1 waitToObtainMs waitToReleaseMs 0 [] =
        .ok ((true, some data), stores) → Obeys env data := by
  refine ⟨rfl, fun obeys => ?_⟩
  obtain ⟨tsLock, tsUnlock, -, -, ⟨-, unlock⟩, -, ⟨valid, -⟩, -⟩ :=
    obeys ⟨false, 0, false, 0⟩ _ 0 1000 _ (by decide) (by decide) rfl
  exact absurd ((valid_iff unlock).mp valid) (by decide)

end Aesd.Threading
