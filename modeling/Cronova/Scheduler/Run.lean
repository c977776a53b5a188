import Cronova.Scheduler.Operator
import Mathlib.Algebra.Group.Int.Defs

/-! One run in one tick: `processRun` with its expansion, block propagation, retries,
sub-workflows, gates, finalization and deadlines. -/

set_option autoImplicit false

namespace Cronova.Scheduler

open Model Store Process
open Calendar (Time)

/-! ### Pure helpers -/

/-- Wrap-around of a 64-bit `time.Duration`. -/
def duration64 (x : Int) : Int := (x + 2 ^ 63) % 2 ^ 64 - 2 ^ 63

/-- `retryDelay`, in nanoseconds. -/
def retryDelay (t : Task) (tries : Int) : Int :=
  let base := duration64 (t.retryDelay * Calendar.second)
  if !t.exponential ∨ base ≤ 0 then base else
  let shift := (min 20 (max 0 (tries - 1))).toNat
  let grown := duration64 (base * 2 ^ shift)
  let d := if grown < base then 2 ^ 62 - 1 else grown
  if t.retryDelayMax > 0 ∧ d > duration64 (t.retryDelayMax * Calendar.second) then
    duration64 (t.retryDelayMax * Calendar.second)
  else if d > 24 * 3600 * Calendar.second ∧ t.retryDelayMax ≤ 0 then 24 * 3600 * Calendar.second
  else d

/-- A dispatchable task with what `admitReady` needs to order and launch it. -/
structure ReadyTask where
  run : DagRun
  t : Task
  ti : TaskInstance
  dagMaxTasks : Int

section Expansion

variable (env : Env)

/-- `expandRun`: create the instances that are missing. -/
def expandRun (run : DagRun) (d : DAG) (current : List TaskInstance) : Act Unit :=
  Prog.forEach d.tasks fun t =>
    if current.any (·.taskID == t.id) then pure () else do
      match ← (createTaskInstance (newInstance run.runID t run.definitionHash)).attempt with
      | .ok _ => pure ()
      | .error (.store .alreadyExists) => pure ()
      | .error e => .fail e

/-- The definition and the instances of the run, expanded if instances are missing. -/
def expandedRun (run : DagRun) : Act (DAG × DagRun × List TaskInstance) := do
  let (d, run) ← dagForRun env run
  let tis ← listTaskInstances run.runID
  if tis.length < d.tasks.length then
    expandRun run d tis
    let tis ← listTaskInstances run.runID
    pure (d, run, tis)
  else pure (d, run, tis)

/-- A run without instances fails: it must not finish as a success of nothing. -/
def failEmptyRun (run : DagRun) : Act Unit := do
  let fin ← timeNow
  updateDagRunState run.runID .failed (run.startedAt.or (some fin)) (some fin)

/-- `queued → running`. -/
def startRun (run : DagRun) : Act DagRun :=
  if run.state = .queued then do
    let now ← timeNow
    updateDagRunState run.runID .running (some now) none
    pure { run with state := .running, startedAt := some now }
  else pure run

end Expansion

section Propagation

/-- One task in one round of the block propagation. -/
def blockTask (acc : ByTask × Bool) (t : Task) : Act (ByTask × Bool) :=
  match acc.1.get t.id with
  | none => pure acc
  | some ti =>
    if ti.state ≠ .scheduled then pure acc else
    if (taskGate t acc.1).blocked then do
      let now ← timeNow
      let ti := { ti with state := .upstreamFailed, finishedAt := some now }
      updateTaskInstance ti
      pure (acc.1.set ti, true)
    else pure acc

/-- The block propagation. A round that changes anything takes a task out of `scheduled`, so
the loop has reached its fixpoint after one round more than there are tasks. -/
def propagateBlocks (tasks : List Task) : Nat → ByTask → Act ByTask
  | 0, byTask => pure byTask
  | rounds + 1, byTask => do
    let (byTask, changed) ← Prog.fold blockTask tasks (byTask, false)
    if changed then propagateBlocks tasks rounds byTask else pure byTask

/-- One task of the loop that requeues the tasks whose retry delay has elapsed. -/
def requeueTask (now : Time) (byTask : ByTask) (t : Task) : Act ByTask :=
  match byTask.get t.id with
  | none => pure byTask
  | some ti =>
    if ti.state ≠ .upForRetry then pure byTask else
    let readyAt := ti.finishedAt.elim now (· + retryDelay t ti.tryNumber)
    if now < readyAt then pure byTask else do
      let ti := TaskInstance.reset ti
      updateTaskInstance ti
      pure (byTask.set ti)

end Propagation

section Outcome

/-- `finalizeWrite`: the guarded write, on the ref that the instance carries. -/
def finalizeWrite (ti : TaskInstance) : Act Unit := do
  let _ ← (updateTaskInstanceGuarded ti ti.executorRef).attempt
  pure ()

/-- `recordFailure`; the result is the instance in memory, which the write may not have reached. -/
def recordFailure (ti : TaskInstance) : Act TaskInstance := do
  let now ← timeNow
  let state := if ti.tryNumber ≤ ti.maxRetries then TaskState.upForRetry else .failed
  let ti := { ti with finishedAt := some now, state }
  finalizeWrite ti
  pure ti

end Outcome

section Subdag

variable (env : Env)

def maxSubdagDepth : Nat := 5

/-- The loop of `subdagDepth`; the bound of the source ends it. -/
def subdagDepthLoop : Nat → Nat → DagRun → Act Nat
  | 0, depth, _ => pure depth
  | rounds + 1, depth, cur => match cur.parentRunID with
    | none => pure depth
    | some parent => do
      match ← (getDagRun parent).attempt with
      | .error _ => pure depth
      | .ok run => subdagDepthLoop rounds (depth + 1) run

/-- `subdagDepth`. -/
def subdagDepth (run : DagRun) : Act Nat := subdagDepthLoop (maxSubdagDepth + 1) 0 run

def childRun (run : DagRun) (t : Task) (now : Time) : DagRun where
  runID := .sub t.subdag now
  dagID := t.subdag
  logicalDate := now
  triggerType := .subdag
  params := run.params
  priority := run.priority
  parentRunID := some run.runID

/-- The previous child of the task, if it can be attached or run again. -/
def previousChild : ExecutorRef → Act (Option RunID)
  | .subdag child => do
    match ← (getDagRun child).attempt with
    | .error _ => pure none
    | .ok run =>
      if run.state.isTerminal ∧ run.state ≠ .success then
        match ← (retryRunLocked env child).attempt with
        | .ok _ => pure (some child)
        | .error _ => pure none
      else pure (some child)
  | _ => pure none

/-- A scheduled sub-workflow task: fail it, or attach or create the child run. -/
def launchSubdag (run : DagRun) (t : Task) (ti : TaskInstance) (now : Time) :
    Act TaskInstance := do
  let refused := { ti with tryNumber := ti.tryNumber + 1, state := .failed, startedAt := some now, finishedAt := some now }
  let depth ← subdagDepth run
  if depth ≥ maxSubdagDepth then
    updateTaskInstance refused
    pure refused
  else match ← cachedDAG t.subdag with
  | none =>
    updateTaskInstance refused
    pure refused
  | some _ =>
    let attach (child : RunID) : Act TaskInstance := do
      let ti := { ti with
        tryNumber := ti.tryNumber + 1, state := .running, startedAt := some now, executorRef := .subdag child }
      updateTaskInstance ti
      pure ti
    match ← previousChild env ti.executorRef with
    | some child => attach child
    | none =>
      let child := childRun run t now
      match ← (createDagRunBounded child env.maxQueuedRunsGlobal).attempt with
      | .ok _ => attach child.runID
      | .error (.store .queueFull) => pure ti
      | .error e => .fail e

/-- A running sub-workflow task mirrors the terminal state of its child. -/
def mirrorSubdag (ti : TaskInstance) (now : Time) : Act TaskInstance :=
  match ti.executorRef with
  | .subdag child => do
    match ← (getDagRun child).attempt with
    | .error _ => recordFailure ti
    | .ok run => match run.state with
      | .success => do
        let ti := { ti with state := .success, finishedAt := some now }
        finalizeWrite ti
        pure ti
      | .failed | .timedOut | .cancelled => recordFailure ti
      | .queued | .running => pure ti
  | _ => recordFailure ti

/-- `advanceSubdag`. -/
def advanceSubdag (run : DagRun) (t : Task) (ti : TaskInstance) : Act TaskInstance := do
  let now ← timeNow
  if ti.state = .scheduled then launchSubdag env run t ti now else mirrorSubdag ti now

end Subdag

section Collection

variable (env : Env)

/-- `dependentReady`: satisfied, and timed out. -/
def dependentReady (run : DagRun) (d : DAG) (dep : DependsOnDag) : Act (Bool × Bool) :=
  match env.shift d.timezone run.logicalDate dep.offset with
  | none => pure (false, true)
  | some date => do
    match ← (getDagRunByLogicalDate dep.dag date).attempt with
    | .ok target => if target.state = .success then pure (true, false) else waiting
    | .error _ => waiting
where
  waiting : Act (Bool × Bool) :=
    if dep.timeout > 0 then do
      let now ← timeNow
      pure (false, decide (now - run.startedAt.getD run.logicalDate > dep.timeout * Calendar.second))
    else pure (false, false)

/-- The `depends_on_dag` gate: pass, wait, or resolve the task by its timeout. -/
def dependencyGate (run : DagRun) (d : DAG) (t : Task) (ti : TaskInstance) : Act (Option (Option TaskInstance)) :=
  match t.dependsOnDag with
  | none => pure (some none)
  | some dep => do
    let (satisfied, timedOut) ← dependentReady env run d dep
    if satisfied then pure (some none) else
    if !timedOut then pure none else
    let now ← timeNow
    let ti := match dep.onTimeout with
      | .skip => { ti with state := .skipped, finishedAt := some now }
      | .fail => { ti with state := .failed, startedAt := some now, finishedAt := some now }
    updateTaskInstance ti
    pure (some (some ti))

structure Collected where
  byTask : ByTask
  ready : List ReadyTask := []
  failed : Option Failure := none

/-- One task of the collection loop. -/
def collectTask (run : DagRun) (d : DAG) (c : Collected) (t : Task) : Act Collected :=
  match c.byTask.get t.id with
  | none => pure c
  | some ti =>
    if t.type = .subdag ∧ (ti.state = .scheduled ∨ ti.state = .running) then
      if ti.state = .scheduled ∧ !(taskGate t c.byTask).ready then pure c else do
        let ti ← advanceSubdag env run t ti
        pure { c with byTask := c.byTask.set ti }
    else if ti.state ≠ .scheduled then pure c
    else if !(taskGate t c.byTask).ready then pure c
    else do
      match ← dependencyGate env run d t ti with
      | none => pure c
      | some (some resolved) => pure { c with byTask := c.byTask.set resolved }
      | some none =>
        let runs ← if t.when_ = "" then pure true else perform (.evalWhen run t (ti.tryNumber + 1))
        if runs then pure { c with ready := c.ready ++ [⟨run, t, ti, d.maxActiveTasks⟩] } else
        let now ← timeNow
        let ti := { ti with state := .skipped, finishedAt := some now }
        updateTaskInstance ti
        pure { c with byTask := c.byTask.set ti }

/-- The collection loop. An error ends it, but what it has collected stays collected. -/
def collectReady (run : DagRun) (d : DAG) (byTask : ByTask) : Act Collected :=
  Prog.fold (fun c t =>
    if c.failed.isSome then pure c else do
      match ← (collectTask env run d c t).attempt with
      | .ok c => pure c
      | .error e => pure { c with failed := some e }) d.tasks { byTask }

end Collection

section Finalization

/-- The loop of `timeoutRun` over the instances it was handed. -/
def timeoutInstances (fin : Time) (tis : List TaskInstance) : Act Unit :=
  Prog.forEach tis fun ti =>
    if ti.state.isTerminal then pure () else do
      if ti.executorRef ≠ .none then cancelAttempt cascade ti.executorRef
      let _ ← (updateTaskInstanceGuarded { ti with state := .timedOut, finishedAt := some fin } ti.executorRef).attempt
      pure ()

/-- `timeoutRun`. -/
def timeoutRun (run : DagRun) (tis : List TaskInstance) : Act Unit := do
  let fin ← timeNow
  match ← (updateDagRunState run.runID .timedOut run.startedAt (some fin)).attempt with
  | .error _ => pure ()
  | .ok _ => timeoutInstances fin tis

/-- `enforceDeadlines`; the SLA alerts do not touch the store. -/
def enforceDeadlines (d : DAG) (run : DagRun) (tis : List TaskInstance) : Act Unit :=
  match run.startedAt with
  | none => pure ()
  | some started => do
    let now ← timeNow
    if d.dagrunTimeout > 0 ∧ now - started ≥ d.dagrunTimeout * Calendar.second then timeoutRun run tis else pure ()

/-- The outcome of a run whose snapshot tasks are all terminal. -/
def finalState (d : DAG) (byTask : ByTask) : Option RunState :=
  let states := d.tasks.map fun t => (byTask.get t.id).map (·.state)
  if states.all fun s => s.any (·.isTerminal) then
    if states.any fun s => s == some .failed || s == some .upstreamFailed || s == some .timedOut then some .failed
    else if states.any fun s => s == some .cancelled then some .cancelled
    else some .success
  else none

/-- The end of `processRun`: finalize the run or enforce its deadline. -/
def finalizeRun (run : DagRun) (d : DAG) : Act Unit := do
  let tis ← listTaskInstances run.runID
  match finalState d tis with
  | none => enforceDeadlines d run tis
  | some final =>
    let fin ← timeNow
    if final = .success then updateDagRunSuccess run.runID run.startedAt (some fin)
    else updateDagRunState run.runID final run.startedAt (some fin)

end Finalization

section Process

variable (env : Env)

/-- `processRun` up to the collection; nothing is left to do for a run that failed for want of
tasks and for a held run. -/
def prepareRun (run : DagRun) : Act (Option (DagRun × DAG × ByTask)) := do
  let (d, run, tis) ← expandedRun env run
  if tis.isEmpty then
    failEmptyRun run
    pure none
  else
    let run ← startRun run
    let byTask ← propagateBlocks d.tasks (d.tasks.length + 1) tis
    let now ← timeNow
    let byTask ← Prog.fold (requeueTask now) d.tasks byTask
    if run.held then pure none else pure (some (run, d, byTask))

/-- The body of `processRun`. Its error is logged by the caller, which keeps what was collected. -/
def advanceRun (run : DagRun) : Act (List ReadyTask) := do
  match ← (prepareRun env run).attempt with
  | .error _ => pure []
  | .ok none => pure []
  | .ok (some (run, d, byTask)) =>
    let c ← collectReady env run d byTask
    if c.failed.isNone then logged (finalizeRun run d)
    pure c.ready

/-- `processRun`. -/
def processRun (run : DagRun) : Act (List ReadyTask) :=
  locked (.process run) (advanceRun env run)

end Process

end Cronova.Scheduler
