import Aesd.ProofKit.Custody
import Aesd.ProofKit.Noted
import Aesd.ProofKit.WaitStatus

/-! The functions of `systemcalls.c` that run a command: `do_system`, `do_exec` and
`do_exec_redirect`. All three look at the exit code of the wait status alone, and take a command
that was killed for one that succeeded. -/

namespace Aesd.Systemcalls

open ProofKit

/-- The end of a command, or `none` when it was not started or its end is not known. -/
abbrev Outcome := Option Termination

/-- The command ran and exited with 0. -/
def Outcome.Success (outcome : Outcome) : Prop := outcome = some (.exited 0)

/-- The command was killed by a signal. -/
def Outcome.Killed (outcome : Outcome) : Prop := ∃ termination ∈ outcome, termination.IsKilled

/-- The value of `system`: -1 when it fails, and otherwise the wait status of the shell, which exits
with 127 when it cannot be executed. -/
def systemValue : Outcome → BitVec 32
  | none => -1
  | some termination => termination.status

/-- `do_system`, with what `system` does for each command. -/
def doSystem (system : String → Outcome) (cmd : String) : Bool :=
  let ret := systemValue (system cmd)
  if ret = -1 then false
  else
    let status := wexitstatus ret
    if status = 127 then false
    else if status ≠ 0 then false
    else true

/-- What the calls of `do_exec` and `do_exec_redirect` meet. The calls that have nothing to return
but success or failure are flags. `execv` gives the end of the command for the path and the
arguments that it is called with, and `none` when it fails. A signal may kill the child before it
gets there. -/
structure ExecEnv where
  openFile : Bool
  fork : Bool
  dup2 : Bool
  execv : Option String → List String → Outcome
  killed : Option (Signal × Bool)
  waitpid : Bool

/-- The child from `execv` on. `command[0]` is `NULL` when there are no arguments. -/
def execOrExit (env : ExecEnv) (command : List String) : Termination :=
  match env.execv command.head? command with
  | none => .exited 127
  | some termination => termination

/-- How the child ends whose code leads to `termination`. -/
def unlessKilled (env : ExecEnv) (termination : Termination) : Termination :=
  match env.killed with
  | some (signal, coreDumped) => .killed signal coreDumped
  | none => termination

/-- The child of `do_exec`. -/
def execChild (env : ExecEnv) (command : List String) : Termination :=
  unlessKilled env (execOrExit env command)

/-- The child of `do_exec_redirect`. -/
def execRedirectChild (env : ExecEnv) (command : List String) : Termination :=
  unlessKilled env (if env.dup2 = false then .exited 126 else execOrExit env command)

/-- `do_exec`, in the parent. -/
def doExec (env : ExecEnv) (command : List String) : Bool :=
  if env.fork = false then false
  else if env.waitpid = false then false
  else
    let exitStatus := wexitstatus (execChild env command).status
    if exitStatus = 127 then false
    else if exitStatus ≠ 0 then false
    else true

/-- `do_exec_redirect`, in the parent, which notes down what it does with the output file. -/
def doExecRedirect (env : ExecEnv) (outputfile : String) (command : List String) :
    Noted Empty (Act String) Bool := do
  if env.openFile = false then
    return false
  note (.acquire outputfile)
  if env.fork = false then
    return false
  note (.release outputfile)
  if env.waitpid = false then
    return false
  let exitStatus := wexitstatus (execRedirectChild env command).status
  if exitStatus = 126 ∨ exitStatus = 127 then
    return false
  else if exitStatus ≠ 0 then
    return false
  return true

/-- No call of `do_exec` fails, and the command runs and exits with 0. -/
@[mk_iff]
structure ExecEnv.Ran (env : ExecEnv) (command : List String) : Prop where
  fork : env.fork = true
  waitpid : env.waitpid = true
  started : env.killed = none
  success : (env.execv command.head? command).Success

/-- The child of `do_exec` was killed, before or after it started the command. -/
def ExecEnv.ChildKilled (env : ExecEnv) (command : List String) : Prop :=
  env.killed ≠ none ∨ (env.execv command.head? command).Killed

/-- The same for the child of `do_exec_redirect`. -/
def ExecEnv.RedirectKilled (env : ExecEnv) (command : List String) : Prop :=
  env.killed ≠ none ∨ env.dup2 = true ∧ (env.execv command.head? command).Killed

variable {env : ExecEnv} {command : List String} {termination : Termination}

theorem unlessKilled_eq_exited {code : BitVec 8} :
    unlessKilled env termination = .exited code ↔
      env.killed = none ∧ termination = .exited code := by
  unfold unlessKilled
  cases env.killed with
  | none => simp
  | some killed => simp

theorem unlessKilled_isKilled : (unlessKilled env termination).IsKilled ↔
    env.killed ≠ none ∨ termination.IsKilled := by
  unfold unlessKilled
  cases env.killed with
  | none => simp
  | some killed => simp [Termination.IsKilled]

theorem execOrExit_eq_exited_zero :
    execOrExit env command = .exited 0 ↔ (env.execv command.head? command).Success := by
  unfold execOrExit Outcome.Success
  cases env.execv command.head? command with
  | none => simp
  | some termination => simp

theorem execOrExit_isKilled : (execOrExit env command).IsKilled ↔
    (env.execv command.head? command).Killed := by
  unfold execOrExit Outcome.Killed
  cases env.execv command.head? command with
  | none => simp [Termination.IsKilled]
  | some termination => simp

theorem Outcome.success_some : Outcome.Success (some termination) ↔ termination = .exited 0 := by
  simp [Success]

theorem Outcome.killed_some : Outcome.Killed (some termination) ↔ termination.IsKilled := by
  simp [Killed]

theorem Outcome.Success.not_killed {outcome : Outcome} (success : outcome.Success) :
    ¬outcome.Killed := by
  rintro ⟨termination, mem, isKilled⟩
  rw [success] at mem
  cases mem
  exact isKilled

/-- The tests of the exit code, of which the first makes no difference. -/
theorem exit_tests {status : BitVec 32} :
    (if status = 127 then false else if status ≠ 0 then false else true) = true ↔ status = 0 := by
  by_cases refused : status = 127
  · subst refused
    decide
  · rw [if_neg refused]
    by_cases zero : status = 0
    · rw [if_neg (not_not_intro zero)]
      exact iff_of_true rfl zero
    · rw [if_pos zero]
      exact iff_of_false Bool.false_ne_true zero

theorem doSystem_eq_true {system : String → Outcome} {cmd : String} :
    doSystem system cmd = true ↔ (system cmd).Success ∨ (system cmd).Killed := by
  unfold doSystem
  cases system cmd with
  | none => simp [systemValue, Outcome.Success, Outcome.Killed]
  | some termination =>
    dsimp only [systemValue]
    rw [if_neg termination.status_ne, exit_tests, wexitstatus_eq_zero,
      Outcome.success_some, Outcome.killed_some]

theorem unlessKilled_zero : wexitstatus (unlessKilled env termination).status = 0 ↔
    env.killed = none ∧ termination = .exited 0 ∨ env.killed ≠ none ∨ termination.IsKilled := by
  rw [wexitstatus_eq_zero, unlessKilled_eq_exited, unlessKilled_isKilled]

theorem execChild_zero : wexitstatus (execChild env command).status = 0 ↔
    env.killed = none ∧ (env.execv command.head? command).Success ∨ env.ChildKilled command := by
  rw [execChild, unlessKilled_zero, execOrExit_eq_exited_zero, execOrExit_isKilled]
  rfl

/-- `do_exec` takes a killed child for one that exited with 0. -/
theorem doExec_eq_true : doExec env command = true ↔
    env.Ran command ∨ env.fork = true ∧ env.waitpid = true ∧ env.ChildKilled command := by
  unfold doExec
  cases fork : env.fork with
  | false => simp [ExecEnv.ran_iff, fork]
  | true =>
    cases waitpid : env.waitpid with
    | false => simp [ExecEnv.ran_iff, waitpid]
    | true =>
      dsimp only
      rw [if_neg Bool.noConfusion, if_neg Bool.noConfusion, exit_tests,
        execChild_zero]
      simp [ExecEnv.ran_iff, fork, waitpid]

theorem execRedirectChild_zero : wexitstatus (execRedirectChild env command).status = 0 ↔
    env.killed = none ∧ env.dup2 = true ∧ (env.execv command.head? command).Success ∨
      env.RedirectKilled command := by
  rw [execRedirectChild, unlessKilled_zero]
  unfold ExecEnv.RedirectKilled
  cases env.dup2 with
  | false => simp [Termination.IsKilled]
  | true =>
    rw [if_neg Bool.noConfusion, execOrExit_eq_exited_zero, execOrExit_isKilled]
    simp

/-- What `do_exec_redirect` returns, and what it does with the output file. -/
theorem doExecRedirect_eq (env : ExecEnv) (outputfile : String) (command : List String) :
    ∃ value, (value = true ↔
        (env.openFile = true ∧ env.dup2 = true ∧ env.Ran command) ∨ env.openFile = true ∧
          env.fork = true ∧ env.waitpid = true ∧ env.RedirectKilled command) ∧
      doExecRedirect env outputfile command [] = .ok (value,
        if env.openFile = false then [] else if env.fork = false then [.acquire outputfile]
        else [.acquire outputfile, .release outputfile]) := by
  unfold doExecRedirect
  cases env.openFile with
  | false => exact ⟨false, by simp, by simp⟩
  | true =>
    cases fork : env.fork with
    | false => exact ⟨false, by simp [ExecEnv.ran_iff, fork], by simp⟩
    | true =>
      cases waitpid : env.waitpid with
      | false => exact ⟨false, by simp [ExecEnv.ran_iff, waitpid], by simp⟩
      | true =>
        refine ⟨decide (wexitstatus (execRedirectChild env command).status = 0), ?_, ?_⟩
        · rw [decide_eq_true_iff, execRedirectChild_zero]
          simp [ExecEnv.ran_iff, fork, waitpid, and_left_comm]
        · generalize wexitstatus (execRedirectChild env command).status = exitStatus
          rcases em (exitStatus = 126#32 ∨ exitStatus = 127#32) with (rfl | rfl) | shown
          · rfl
          · rfl
          · by_cases zero : exitStatus = 0#32
            · simp [zero]
            · simp [shown, zero]

/-- What holds in two cases tells the one when the other does not come up. -/
theorem reports_iff {good bad : Prop} (apart : good → ¬bad) : (good ∨ bad ↔ good) ↔ ¬bad := by
  rw [or_iff_left_iff_imp]
  constructor
  · exact fun always isBad => apart (always isBad) isBad
  · exact fun never isBad => absurd isBad never

theorem doSystem_reports {system : String → Outcome} {cmd : String} :
    (doSystem system cmd = true ↔ (system cmd).Success) ↔ ¬(system cmd).Killed := by
  rw [doSystem_eq_true]
  exact reports_iff Outcome.Success.not_killed

theorem doExec_reports : (doExec env command = true ↔ env.Ran command) ↔
    ¬(env.fork = true ∧ env.waitpid = true ∧ env.ChildKilled command) := by
  rw [doExec_eq_true]
  apply reports_iff
  rintro ran ⟨-, -, killed | killed⟩
  · exact killed ran.started
  · exact ran.success.not_killed killed

/-- `do_exec_redirect` tells whether the command was run and exited with 0, and has closed the
output file by then. -/
def RedirectReports (env : ExecEnv) (outputfile : String) (command : List String) : Prop :=
  ∃ value acts, doExecRedirect env outputfile command [] = .ok (value, acts) ∧
    (value = true ↔ env.openFile = true ∧ env.dup2 = true ∧ env.Ran command) ∧
    Custody ∅ acts ∅

/-- The output file is left open when `fork` fails, and only then. -/
theorem file_closed_iff (outputfile : String) :
    Custody ∅ (if env.openFile = false then [] else if env.fork = false then [.acquire outputfile]
      else [.acquire outputfile, .release outputfile]) ∅ ↔
      ¬(env.openFile = true ∧ env.fork = false) := by
  cases env.openFile with
  | false => exact iff_of_true (.nil ∅) (by simp)
  | true =>
    cases env.fork with
    | false =>
      apply iff_of_false
      · intro custody
        have balance := Custody.balance custody outputfile
        simp [Act.holds] at balance
      · simp
    | true =>
      apply iff_of_true
      · apply Custody.of_execute
        simp [execute, Act.apply]
      · simp

theorem doExecRedirect_reports {outputfile : String} :
    RedirectReports env outputfile command ↔ ¬(env.openFile = true ∧ (env.fork = false ∨
      env.waitpid = true ∧ env.RedirectKilled command)) := by
  obtain ⟨value, reported, done⟩ := doExecRedirect_eq env outputfile command
  have apart : (env.openFile = true ∧ env.dup2 = true ∧ env.Ran command) →
      ¬(env.openFile = true ∧ env.fork = true ∧ env.waitpid = true ∧
        env.RedirectKilled command) := by
    rintro ⟨-, -, ran⟩ ⟨-, -, -, killed | ⟨-, killed⟩⟩
    · exact killed ran.started
    · exact ran.success.not_killed killed
  have both : RedirectReports env outputfile command ↔
      ¬(env.openFile = true ∧ env.fork = true ∧ env.waitpid = true ∧
        env.RedirectKilled command) ∧ ¬(env.openFile = true ∧ env.fork = false) := by
    rw [← reports_iff apart, ← reported, ← file_closed_iff outputfile]
    simp [RedirectReports, done]
  rw [both, ← not_or, not_iff_not]
  cases env.fork <;> simp

/-- The same end of the command, if all calls before succeed, gives the same answer. -/
def Agree (system : String → Outcome) (cmd : String) (env : ExecEnv) (outputfile : String)
    (command : List String) : Prop :=
  env.openFile = true → env.fork = true → env.dup2 = true → env.waitpid = true →
    system cmd = some (execChild env command) →
    doExec env command = doSystem system cmd ∧
    ∃ acts, doExecRedirect env outputfile command [] = .ok (doSystem system cmd, acts)

theorem agree {system : String → Outcome} {cmd outputfile : String} :
    Agree system cmd env outputfile command := by
  intro openFile fork dup2 waitpid same
  have onSystem : doSystem system cmd = true ↔ env.killed = none ∧
      (env.execv command.head? command).Success ∨ env.ChildKilled command := by
    rw [doSystem_eq_true, same, Outcome.success_some, Outcome.killed_some,
      ← wexitstatus_eq_zero, execChild_zero]
  have onExec : doExec env command = true ↔ doSystem system cmd = true := by
    rw [onSystem, doExec_eq_true]
    simp [ExecEnv.ran_iff, fork, waitpid]
  obtain ⟨value, reported, done⟩ := doExecRedirect_eq env outputfile command
  have onRedirect : value = true ↔ doSystem system cmd = true := by
    rw [onSystem, reported]
    simp [ExecEnv.ran_iff, ExecEnv.RedirectKilled, ExecEnv.ChildKilled, openFile, fork, dup2,
      waitpid]
  rw [Bool.eq_iff_iff.mpr onRedirect] at done
  exact ⟨Bool.eq_iff_iff.mpr onExec, _, done⟩

/-- Each of the functions is right exactly when the command, or the process it was to run in, is not
killed. With the same end of the command they give the same answer, also when it is wrong. The
output file of `do_exec_redirect` stays open when `fork` fails. -/
theorem runners_report_iff (system : String → Outcome) (cmd : String) (env : ExecEnv)
    (outputfile : String) (command : List String) :
    ((doSystem system cmd = true ↔ (system cmd).Success) ↔ ¬(system cmd).Killed) ∧
    ((doExec env command = true ↔ env.Ran command) ↔
      ¬(env.fork = true ∧ env.waitpid = true ∧ env.ChildKilled command)) ∧
    (RedirectReports env outputfile command ↔ ¬(env.openFile = true ∧
      (env.fork = false ∨ env.waitpid = true ∧ env.RedirectKilled command))) ∧
    Agree system cmd env outputfile command :=
  ⟨doSystem_reports, doExec_reports, doExecRedirect_reports, agree⟩

/-- A command that is killed by the signal 9 passes for one that succeeded, in all three functions,
and `do_exec_redirect` does not close the output file when `fork` fails. -/
theorem runners_misreport :
    let killed := Termination.killed ⟨9, by decide, by decide⟩ false
    let env : ExecEnv := ⟨true, true, true, fun _ _ => some killed, none, true⟩
    ¬(doSystem (fun _ => some killed) "kill -9 $$" = true ↔ Outcome.Success (some killed)) ∧
    ¬(doExec env ["/bin/a"] = true ↔ env.Ran ["/bin/a"]) ∧
    ¬RedirectReports env "out" ["/bin/a"] ∧
    ¬RedirectReports { env with fork := false } "out" ["/bin/a"] := by
  refine ⟨?_, ?_, ?_, ?_⟩
  · rw [doSystem_reports, not_not]
    exact ⟨_, rfl, trivial⟩
  · rw [doExec_reports, not_not]
    exact ⟨rfl, rfl, .inr ⟨_, rfl, trivial⟩⟩
  · rw [doExecRedirect_reports, not_not]
    exact ⟨rfl, .inr ⟨rfl, .inr ⟨rfl, _, rfl, trivial⟩⟩⟩
  · rw [doExecRedirect_reports, not_not]
    exact ⟨rfl, .inl rfl⟩

end Aesd.Systemcalls
