import Cronova.Scheduler.Run

/-! One attempt of a task, from its launch to its recorded outcome: `runTask`,
`awaitCompletion`, `finalizeTask`, and `Recover` after a restart. -/

set_option autoImplicit false

namespace Cronova.Scheduler

open Model Store Process
open Calendar (Time)

def skipExitCode : Int := 99

def maxTaskOutputBytes : Nat := 64 * 1024

/-- A flat JSON map of strings, and not too long. -/
def validOutput (env : Env) (output : String) : Bool :=
  decide (output.utf8ByteSize ≤ maxTaskOutputBytes) && (env.decodePayload output).isSome

/-- `collectTaskOutput`: a file that is there is removed at the end, whatever became of it. -/
def collectTaskOutput (env : Env) (ti : TaskInstance) : Act Unit := do
  match ← perform (.readOutput ti) with
  | none => pure ()
  | some output =>
    if validOutput env output then logged (setTaskOutput ti output)
    perform (.removeOutput ti)

/-- `finalizeTask`: the outcome first, then the output of an attempt that exited with zero. -/
def finalizeTask (env : Env) (ti : TaskInstance) (exitCode : Int) : Act Unit :=
  if exitCode = 0 ∨ exitCode = skipExitCode then do
    let now ← timeNow
    let ti := { ti with state := if exitCode = skipExitCode then .skipped else .success, finishedAt := some now }
    finalizeWrite ti
    if exitCode = 0 then collectTaskOutput env ti
  else do
    let _ ← recordFailure ti
    pure ()

/-- `finalizeTaskLost`. -/
def finalizeTaskLost (ti : TaskInstance) : Act Unit := do
  let _ ← recordFailure ti
  pure ()

/-- `awaitCompletion`. -/
def awaitCompletion (env : Env) (ti : TaskInstance) : Act Unit := do
  match ← perform (.await ti.executorRef) with
  | .exited code => finalizeTask env ti code
  | .lost => finalizeTaskLost ti

/-- An attempt that fails before anything was launched. -/
def failUnlaunched (ti : TaskInstance) : Act Unit := do
  let now ← timeNow
  let _ ← recordFailure { ti with startedAt := some now }
  pure ()

/-- `taskCancelled`. -/
def taskCancelled (key : InstanceKey) : Act Bool := do
  match ← (getTaskInstance key).attempt with
  | .ok cur => pure (cur.state == .cancelled)
  | .error _ => pure false

/-- The attempt is given back: nothing ran, so the try is not consumed. -/
def giveBack (ti : TaskInstance) : Act Unit := do
  let _ ← (updateTaskInstanceGuarded { ti with tryNumber := ti.tryNumber - 1, state := .scheduled, executorRef := .none }
    ti.executorRef).attempt
  pure ()

/-- The part of `runTask` after the specification is built. -/
def launchTask (env : Env) (t : Task) (ti : TaskInstance) : Act Unit := do
  if ← taskCancelled ti.key then pure () else
  match ← perform (.launch t.workerGroup ti.executorRef) with
  | .noWorker => giveBack ti
  | .failed => failUnlaunched ti
  | .started =>
    let now ← timeNow
    let ti := { ti with state := .running, startedAt := some now }
    match ← (updateTaskInstanceGuarded ti ti.executorRef).attempt with
    | .error _ => pure ()
    | .ok false => perform (.cancel ti.executorRef)
    | .ok true => awaitCompletion env ti

/-- `runTask`. Templates, environment and the operators' specifications do not touch the store. -/
def runTask (env : Env) (t : Task) (ti : TaskInstance) : Act Unit := do
  let staged ← if t.type = .shell ∧ t.project ≠ "" then perform (.stageProject t.project) else pure true
  if !staged then failUnlaunched ti else
  match t.type with
  | .shell | .jar | .python | .sql => launchTask env t ti
  | .http => if t.http then launchTask env t ti else failUnlaunched ti
  | .subdag | .other => failUnlaunched ti

/-- `reattach`. -/
def reattach (ti : TaskInstance) : Act Unit := perform (.go (.awaitCompletion ti))

/-- One instance that a crash left queued. -/
def recoverQueued (env : Env) (ti : TaskInstance) : Act Unit := do
  match ← perform (.probe ti.executorRef) with
  | none => pure ()
  | some (.exited code) => finalizeTask env ti code
  | some .running =>
    let started ← match ti.startedAt with
      | some started => pure started
      | none => timeNow
    let ti := { ti with state := .running, startedAt := some started }
    match ← (updateTaskInstanceGuarded ti ti.executorRef).attempt with
    | .error _ => pure ()
    | .ok false => perform (.cancel ti.executorRef)
    | .ok true => reattach ti
  | some .unknown =>
    -- never launched: undo the increment of this attempt
    let tryNumber := if ti.tryNumber > 0 then ti.tryNumber - 1 else ti.tryNumber
    let _ ← (updateTaskInstanceGuarded { ti with state := .scheduled, executorRef := .none, tryNumber } ti.executorRef).attempt
    pure ()

/-- One instance that a crash left running. -/
def recoverRunning (env : Env) (ti : TaskInstance) : Act Unit := do
  match ← perform (.probe ti.executorRef) with
  | none => pure ()
  | some (.exited code) => finalizeTask env ti code
  | some .running => reattach ti
  | some .unknown => finalizeTaskLost ti

/-- `Recover`. -/
def recover (env : Env) : Act Unit := do
  let queued ← listTaskInstancesByState .queued
  Prog.forEach queued (recoverQueued env)
  let running ← listTaskInstancesByState .running
  Prog.forEach running (recoverRunning env)

end Cronova.Scheduler
