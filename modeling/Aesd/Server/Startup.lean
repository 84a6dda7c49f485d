import Aesd.ProofKit.Descriptors

/-! The descriptors of the server from its start to its accept loop: `sock_create` opens the socket
that listens, and `daemonize` puts `/dev/null` in the place of the standard streams. Both rely on
the descriptors 0, 1 and 2 being in use from the start. -/

namespace Aesd.Server

open ProofKit

/-- What a descriptor of the server refers to: what it found open when it was started, the null
device, the socket that listens, what library code has open for itself, the file of the timer
thread, and the file and the socket of the thread of connection `i`. -/
inductive Object
  | inherited
  | null
  | listener
  | library
  | timerFile
  | file (i : Nat)
  | socket (i : Nat)
  deriving DecidableEq, Repr

/-- Which calls of `sock_create` succeed. -/
structure SockEnv where
  getaddrinfo : Bool
  socket : Bool
  setsockopt : Bool
  bind : Bool

/-- `sock_create`: the socket, or `none` for -1. A socket that it could not set up stays open. -/
def sockCreate (t : Descriptors Object) (env : SockEnv) : Option Nat × Descriptors Object :=
  if !env.getaddrinfo then (none, t)
  else if !env.socket then (none, t)
  else
    let (socketFd, t) := t.opens .listener
    if !env.setsockopt then (none, t)
    else if !env.bind then (none, t)
    else (some socketFd, t)

/-- Which calls of `daemonize` succeed, in the child once it was forked. -/
structure DaemonEnv where
  fork : Bool
  setsid : Bool
  chdir : Bool
  openNull : Bool

/-- `daemonize`, as the child comes out of it: whether it returns 0, and the table. -/
def daemonize (t : Descriptors Object) (env : DaemonEnv) : Bool × Descriptors Object :=
  if !env.fork then (false, t)
  else if !env.setsid then (false, t)
  else if !env.chdir then (false, t)
  -- the result of `open` is not looked at, but `dup2` fails on -1
  else if !env.openNull then (false, t)
  else
    let (fd, t) := t.opens .null
    match ((t.dup2 fd 0).bind fun t => t.dup2 fd 1).bind fun t => t.dup2 fd 2 with
    | none => (false, t)
    | some t =>
      match t.close fd with
      | none => (false, t)
      | some t => (true, t)

/-- What `main` does before its accept loop, as far as the descriptors go: the socket and the table,
or `none` when it exits. -/
def startup (t : Descriptors Object) (daemonMode : Bool) (sockEnv : SockEnv)
    (daemonEnv : DaemonEnv) : Option (Nat × Descriptors Object) :=
  match sockCreate t sockEnv with
  | (none, _) => none
  | (some sockFd, t) =>
    if daemonMode then
      match daemonize t daemonEnv with
      | (false, _) => none
      | (true, t) => some (sockFd, t)
    else some (sockFd, t)

variable {t t' : Descriptors Object} {sockFd : Nat} {daemonMode : Bool} {sockEnv : SockEnv}
  {daemonEnv : DaemonEnv}

theorem sockCreate_eq (created : sockCreate t sockEnv = (some sockFd, t')) :
    (sockFd, t') = t.opens .listener := by
  unfold sockCreate at created
  repeat' split at created
  all_goals first
    | (cases created; done)
    | (cases created; exact Eq.symm ‹t.opens .listener = _›)

/-- The standard streams are the null device, unless it was opened as one of them. -/
theorem daemonize_object (done : daemonize t daemonEnv = (true, t')) (n : Nat) :
    t'.object n =
      if n = t.lowest then none else if n < 3 then some .null else t.object n := by
  unfold daemonize at done
  simp only [Descriptors.opens, Descriptors.dup2, Descriptors.close, Descriptors.object_put,
    if_true, ite_self, Option.isSome_some, Option.bind_some] at done
  repeat' split at done
  all_goals first
    | (cases done; done)
    | cases done
  simp only [Descriptors.object_put]
  by_cases own : n = t.lowest
  · rw [if_pos own, if_pos own]
  · by_cases std : n < 3
    · rw [if_neg own, if_neg own, if_neg own, if_pos std]
      split
      · rfl
      · split
        · rfl
        · rw [if_pos (by omega)]
    · rw [if_neg own, if_neg own, if_neg own, if_neg std, if_neg (by omega), if_neg (by omega),
        if_neg (by omega)]

theorem startup_eq_some (done : startup t daemonMode sockEnv daemonEnv = some (sockFd, t')) :
    sockFd = t.lowest ∧ if daemonMode then
      daemonize (t.put t.lowest (some .listener)) daemonEnv = (true, t')
    else t' = t.put t.lowest (some .listener) := by
  unfold startup at done
  split at done
  · contradiction
  · rename_i created
    obtain ⟨rfl, rfl⟩ := Prod.mk.inj (sockCreate_eq created)
    cases daemonMode with
    | false =>
      cases done
      exact ⟨rfl, rfl⟩
    | true =>
      simp only [if_true] at done ⊢
      split at done
      · contradiction
      · rename_i daemonized
        cases done
        exact ⟨rfl, daemonized⟩

/-- The table that the accept loop starts with, if the descriptors 0, 1 and 2 were in use. -/
theorem startup_object (std : ∀ n < 3, (t.object n).isSome)
    (done : startup t daemonMode sockEnv daemonEnv = some (sockFd, t')) (n : Nat) :
    t'.object n =
      if n = sockFd then some .listener
      else if daemonMode = true ∧ n < 3 then some .null
      else t.object n := by
  obtain ⟨rfl, table⟩ := startup_eq_some done
  cases daemonMode with
  | false =>
    obtain rfl : t' = t.put t.lowest (some .listener) := by simpa using table
    simp
  | true =>
    have after := daemonize_object (by simpa using table) n
    have above : 3 ≤ t.lowest := Descriptors.le_lowest_iff.mpr std
    have free := Descriptors.object_lowest (t := t.put t.lowest (some Object.listener))
    generalize (t.put t.lowest (some Object.listener)).lowest = null at after free
    rw [after, Descriptors.object_put]
    rw [Descriptors.object_put] at free
    by_cases given : n = null
    · -- the null device is closed again, and was opened at a descriptor that was free
      subst given
      have other : n ≠ t.lowest := by
        rintro same
        rw [if_pos same] at free
        contradiction
      rw [if_neg other] at free
      have notStd : ¬ n < 3 := fun below => by simpa [free] using std n below
      rw [if_pos rfl, if_neg other, if_neg (fun both => notStd both.2), free]
    · rw [if_neg given]
      by_cases own : n = t.lowest
      · rw [if_pos own, if_neg (by omega), if_pos own]
      · simp only [own, if_false, true_and]

/-- In daemon mode the start succeeds in all its parts, the socket is still there and the standard
streams are the null device, exactly if the descriptors 0, 1 and 2 were in use when the program was
started. Then all that was open from 3 on still is. -/
theorem startup_ready_iff (done : startup t true sockEnv daemonEnv = some (sockFd, t')) :
    (t'.object sockFd = some .listener ∧ (∀ n < 3, t'.object n = some .null) ↔
      ∀ n < 3, (t.object n).isSome) ∧
    ((∀ n < 3, (t.object n).isSome) → ∀ n, 3 ≤ n → (t.object n).isSome →
      t'.object n = t.object n) := by
  obtain ⟨given, daemonized⟩ := startup_eq_some done
  refine ⟨⟨fun ready => ?_, fun std => ⟨?_, fun n below => ?_⟩⟩, fun std n above used => ?_⟩
  · -- a socket among the standard streams would have been closed or replaced
    have listening := ready.1
    rw [given, daemonize_object (by simpa using daemonized)] at listening
    have apart : ¬ t.lowest = (t.put t.lowest (some Object.listener)).lowest := by
      intro same
      rw [if_pos same] at listening
      contradiction
    rw [if_neg apart] at listening
    have above : ¬ t.lowest < 3 := by
      intro below
      rw [if_pos below] at listening
      contradiction
    exact Descriptors.le_lowest_iff.mp (Nat.not_lt.mp above)
  · rw [startup_object std done, if_pos rfl]
  · have above := Descriptors.le_lowest_iff.mpr std
    rw [startup_object std done, if_neg (by omega), if_pos ⟨rfl, below⟩]
  · rw [startup_object std done, if_neg (given ▸ Descriptors.ne_lowest used), if_neg (by omega)]

/-- From a shell, with its three streams. -/
theorem startup_ready_shell :
    let shell : Descriptors Object := [some .inherited, some .inherited, some .inherited]
    let ready : Descriptors Object :=
      [some .null, some .null, some .null, some .listener, none]
    startup shell true ⟨true, true, true, true⟩ ⟨true, true, true, true⟩ = some (3, ready) ∧
      ready.object 3 = some .listener ∧ ∀ n < 3, ready.object n = some .null := by
  intro shell ready
  have done : startup shell true ⟨true, true, true, true⟩ ⟨true, true, true, true⟩ =
      some (3, ready) := by decide
  exact ⟨done, (startup_ready_iff done).1.mpr (by decide)⟩

end Aesd.Server
