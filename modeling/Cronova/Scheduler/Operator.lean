import Cronova.Scheduler.Delivery

/-! The operator's overrides of a run: `RetryTask`, `RetryRun`, `MarkTask` and `MarkRun`. -/

set_option autoImplicit false

namespace Cronova.Scheduler

open Model Store Process
open Calendar (Time)

variable (env : Env)

/-! ### Retry -/

/-- `retryContext`: an active run is refused. -/
def retryContext (runID : RunID) : Act (DagRun × DAG × ByTask) := do
  let run ← getDagRun runID
  if run.state = .queued ∨ run.state = .running then .fail .runStillActive else
  match ← cachedDAG run.dagID with
  | none => .fail (.store .notFound)
  | some cached =>
    let tis ← listTaskInstances runID
    pure (run, cached.dag, tis)

/-- One task of `prepareRetryDefinition`: a new task gets an instance, a reset one the new columns. -/
def adoptTask (run : RunID) (hash : String) (reset : List TaskID) (byTask : ByTask) (t : Task) : Act ByTask :=
  match byTask.get t.id with
  | none => do
    let ti := newInstance run t hash
    createTaskInstance ti
    pure (byTask ++ [ti])
  | some ti =>
    if t.id ∈ reset then
      pure (byTask.set { ti with maxRetries := t.retries, pool := t.pool, priority := t.priority, definitionHash := hash })
    else pure byTask

/-- `prepareRetryDefinition`: the run adopts the latest definition. -/
def prepareRetryDefinition (run : RunID) (d : DAG) (byTask : ByTask) (reset : List TaskID) : Act ByTask := do
  let hash := env.hash d.definitionYAML
  updateDagRunDefinition run d.definitionYAML hash
  Prog.fold (adoptTask run hash reset) d.tasks byTask

/-- `clearAndReactivate`: reset the tasks and move the run back to running. -/
def clearAndReactivate (run : RunID) (byTask : ByTask) (ids : List TaskID) : Act Unit := do
  let ids ← perform (.order ids)
  Prog.forEach ids fun id => match byTask.get id with
    | none => pure ()
    | some ti => updateTaskInstance (TaskInstance.reset ti)
  let now ← timeNow
  updateDagRunState run .running (some now) none

/-- `RetryTask`. -/
def retryTask (runID : RunID) (task : TaskID) : Act Unit := locked (.retryTask runID task) do
  let (_, d, byTask) ← retryContext runID
  let valid := taskIDSet d.tasks
  if (byTask.get task).isNone ∨ task ∉ valid then .fail (.store .notFound) else
  let ids := intersect (downstreamClosure d.tasks task) valid
  let byTask ← prepareRetryDefinition env runID d byTask ids
  clearAndReactivate runID byTask ids

/-- The states from which `retryRunLocked` starts a reset. -/
def needsRetry : TaskState → Bool
  | .failed | .upstreamFailed | .cancelled | .timedOut => true
  | _ => false

/-- The tasks that `retryRunLocked` resets. -/
def retryIDs (d : DAG) (byTask : ByTask) : List TaskID :=
  let valid := taskIDSet d.tasks
  (byTask.flatMap fun ti =>
    if ti.taskID ∈ valid ∧ needsRetry ti.state then intersect (downstreamClosure d.tasks ti.taskID) valid else []).dedup

/-- `retryRunLocked`. -/
def retryRunLocked (runID : RunID) : Act Unit := do
  let (_, d, byTask) ← retryContext runID
  let ids := retryIDs d byTask
  if ids.isEmpty then .fail .nothingToRetry else
  let byTask ← prepareRetryDefinition env runID d byTask ids
  clearAndReactivate runID byTask ids

/-- `RetryRun`. -/
def retryRun (runID : RunID) : Act Unit := locked (.retryRun runID) (retryRunLocked env runID)

/-! ### Mark -/

def markableTask : TaskState → Bool
  | .success | .failed | .skipped => true
  | _ => false

def markableRun : RunState → Bool
  | .success | .failed => true
  | _ => false

/-- The dependents that marking a task successful or skipped releases. -/
def releaseDownstream (byTask : ByTask) (task : TaskID) (ids : List TaskID) : Act Unit :=
  Prog.forEach ids fun id => match byTask.get id with
    | none => pure ()
    | some ti =>
      if id = task ∨ ti.state ≠ .upstreamFailed then pure () else updateTaskInstance (TaskInstance.reset ti)

/-- The body of `MarkTask` under the lock. -/
def markTaskLocked (runID : RunID) (task : TaskID) (target : TaskState) : Act Unit := do
  let run ← getDagRun runID
  let (d, _) ← dagForRun env run
  let byTask ← listTaskInstances runID
  match ByTask.get byTask task with
  | none => .fail (.store .notFound)
  | some ti =>
    let valid := taskIDSet d.tasks
    if task ∉ valid then .fail (.store .notFound) else
    let now ← timeNow
    if !ti.state.isTerminal ∧ ti.executorRef ≠ .none then cancelAttempt cascade ti.executorRef
    -- the dependents are released first, so that the run is never all terminal half-way
    if target = .success ∨ target = .skipped then
      let ids ← perform (.order (intersect (downstreamClosure d.tasks task) valid))
      releaseDownstream byTask task ids
    updateTaskInstance { ti with state := target, finishedAt := some now }
    if run.state.isTerminal then updateDagRunState runID .running (some now) none

/-- `MarkTask`. -/
def markTask (runID : RunID) (task : TaskID) (target : TaskState) : Act Unit :=
  if !markableTask target then .fail .badMarkState
  else locked (.markTask runID task target) (markTaskLocked env runID task target)

/-- The body of `MarkRun` under the lock. -/
def markRunLocked (runID : RunID) (target : RunState) : Act Unit := do
  let run ← getDagRun runID
  if !run.state.isTerminal then .fail .runStillActive else
  if run.state = target then pure () else
  let fin ← match run.finishedAt with
    | some fin => pure fin
    | none => timeNow
  if target = .success then
    updateDagRunSuccess runID run.startedAt (some fin)
    processPendingDependencyEvents env
  else updateDagRunState runID target run.startedAt (some fin)

/-- `MarkRun`. -/
def markRun (runID : RunID) (target : RunState) : Act Unit :=
  if !markableRun target then .fail .badMarkState
  else locked (.markRun runID target) (markRunLocked env runID target)

end Cronova.Scheduler
