import Cronova.Scheduler.Creation
import Cronova.Scheduler.Run

/-! The scheduling loop: `processActiveRuns` with the promotion gate, `admitReady` with
`dispatch`, and `tickOnce`. -/

set_option autoImplicit false

namespace Cronova.Scheduler

open Model Store Process
open Calendar (Time)

variable (env : Env)

section Admission

/-- `poolSlots`. -/
def poolSlots (name : String) : Act Int := do
  match ← (getPool name).attempt with
  | .error _ => pure defaultPoolSlots
  | .ok p => pure (if p.slots < 1 then 1 else if p.slots > maxPoolSlots then maxPoolSlots else p.slots)

/-- `a` is admitted no later than `b`. -/
def ReadyTask.before (a b : ReadyTask) : Bool :=
  if a.run.priority ≠ b.run.priority then a.run.priority > b.run.priority
  else if a.ti.priority ≠ b.ti.priority then a.ti.priority > b.ti.priority
  else if a.run.logicalDate ≠ b.run.logicalDate then a.run.logicalDate < b.run.logicalDate
  else if a.run.runID.text ≠ b.run.runID.text then a.run.runID.text < b.run.runID.text
  else a.ti.taskID ≤ b.ti.taskID

/-- The budgets of one admission pass: what is left, where it has been counted. -/
structure Budgets where
  global : Int
  pools : String → Option Int := fun _ => none
  dags : DagID → Option Int := fun _ => none
  groups : String → Option Bool := fun _ => none

/-- `dispatch`: the queued write comes before the goroutine. -/
def dispatch (run : DagRun) (t : Task) (ti : TaskInstance) : Act Unit := do
  let ti := { ti with
    tryNumber := ti.tryNumber + 1, state := .queued, executorRef := .attempt run.runID t.id (ti.tryNumber + 1) }
  updateTaskInstance ti
  perform (.go (.runTask run t ti))

/-- The row that `dispatch` writes and hands to the goroutine. -/
def dispatched (run : DagRun) (t : Task) (ti : TaskInstance) : TaskInstance :=
  { ti with tryNumber := ti.tryNumber + 1, state := .queued, executorRef := .attempt run.runID t.id (ti.tryNumber + 1) }

theorem dispatch_eq (run : DagRun) (t : Task) (ti : TaskInstance) : dispatch run t ti = (do
    updateTaskInstance (dispatched run t ti)
    perform (.go (.runTask run t (dispatched run t ti)))) := rfl

/-- The availability of a worker group is asked for once per pass. -/
def groupUp (b : Budgets) (group : String) : Act (Budgets × Bool) :=
  if group = "" then pure (b, true) else
  match b.groups group with
  | some up => pure (b, up)
  | none => do
    let up ← perform (.groupAvailable group)
    pure ({ b with groups := Function.update b.groups group (some up) }, up)

/-- `max_active_tasks`, counted once per pass. -/
def dagBudget (b : Budgets) (rt : ReadyTask) : Act (Budgets × Bool) :=
  if rt.dagMaxTasks ≤ 0 then pure (b, true) else
  match b.dags rt.run.dagID with
  | some rem => pure (b, decide (rem > 0))
  | none => do
    let rem ← match ← (countActiveTasksForDag rt.run.dagID).attempt with
      | .ok used => pure (rt.dagMaxTasks - used)
      | .error _ => pure rt.dagMaxTasks
    pure ({ b with dags := Function.update b.dags rt.run.dagID (some rem) }, decide (rem > 0))

/-- The slots left in the task's pool, or that they could not be counted. -/
def poolBudget (b : Budgets) (pool : String) : Act (Option Int) :=
  match b.pools pool with
  | some rem => pure (some rem)
  | none => do
    match ← (countRunningInPool pool).attempt with
    | .error _ => pure none
    | .ok used => do
      let slots ← poolSlots pool
      pure (some (slots - used))

/-- The last check before the launch, and the launch; the result says that it happened. -/
def admitTask (rt : ReadyTask) : Act Bool := do
  match ← (getTaskInstance rt.ti.key).attempt with
  | .error _ => pure false
  | .ok cur =>
    -- a mark could have finalized the task after it was collected
    if cur.state ≠ .scheduled then pure false else
    match ← (dispatch rt.run rt.t cur).attempt with
    | .error _ => pure false
    | .ok _ => pure true

/-- One round of `admitReady`. -/
def admitRound (b : Budgets) (rt : ReadyTask) : Act Budgets := do
  if b.global ≤ 0 then pure b else
  let (b, up) ← groupUp b rt.t.workerGroup
  if !up then pure b else
  let (b, within) ← dagBudget b rt
  if !within then pure b else
  match ← poolBudget b rt.ti.pool with
  | none => pure b
  | some rem =>
    if rem ≤ 0 then pure { b with pools := Function.update b.pools rt.ti.pool (some rem) } else
    if ← admitTask rt then
      pure { b with
        global := b.global - 1
        pools := Function.update b.pools rt.ti.pool (some (rem - 1))
        dags := if rt.dagMaxTasks > 0 then Function.update b.dags rt.run.dagID ((b.dags rt.run.dagID).map (· - 1))
          else b.dags }
    else pure b

/-- `admitReady`. -/
def admitReady (ready : List ReadyTask) : Act Unit :=
  if ready.isEmpty then pure () else
  logged <| locked .admission do
    let active ← countActiveTaskInstances
    let _ ← Prog.fold admitRound (ready.insertionSort fun a b => a.before b)
      { global := env.maxConcurrentTasks - active }
    pure ()

end Admission

section Promotion

/-- `discardRun`. It does not take the lock. -/
def discardRun (run : DagRun) : Act Unit := do
  let now ← timeNow
  match ← (updateDagRunState run.runID .cancelled (run.startedAt.or (some now)) (some now)).attempt with
  | .error _ => pure ()
  | .ok _ => match ← (listTaskInstances run.runID).attempt with
    | .error _ => pure ()
    | .ok tis => Prog.forEach tis fun ti =>
      if ti.state.isTerminal then pure ()
      else logged (updateTaskInstance { ti with state := .cancelled, finishedAt := some now })

/-- Highest priority first, then the oldest logical date. -/
def drainsBefore (a b : DagRun) : Bool :=
  if a.priority ≠ b.priority then a.priority > b.priority else a.logicalDate ≤ b.logicalDate

/-- Each slot of the queue takes the next run of the same DAG. -/
def refill : List DagRun → (DagID → List DagRun) → List DagRun
  | [], _ => []
  | r :: rest, sorted => match sorted r.dagID with
    | [] => refill rest sorted
    | next :: later => next :: refill rest (Function.update sorted r.dagID later)

/-- `reorderPriorityQueues`, given which DAGs drain by priority. -/
def reorderPriorityQueues (priority : DagID → Bool) (queued : List DagRun) : List DagRun :=
  refill queued fun dag =>
    let runs := queued.filter (·.dagID == dag)
    if priority dag then runs.insertionSort fun a b => drainsBefore a b else runs

/-- The DAGs of the queue whose policy is `serial_priority`, each looked up once. -/
def priorityDAGs (queued : List DagRun) : Act (DagID → Bool) :=
  Prog.fold (fun known dag => do
    let cached ← cachedDAG dag
    pure (Function.update known dag (cached.any (·.dag.executionPolicy == .serialPriority))))
    (queued.map (·.dagID)).dedup (fun _ => false)

/-- The promotion gate's view of one tick. -/
structure Promotion where
  running : DagID → Int
  globalRunning : Int
  ready : List ReadyTask

/-- One round of the promotion of queued runs. -/
def promoteRun (p : Promotion) (run : DagRun) : Act Promotion :=
  if p.globalRunning ≥ env.maxActiveRunsGlobal ∨ run.held then pure p else do
    let cached ← cachedDAG run.dagID
    let policy := (cached.map (·.dag.executionPolicy)).getD .parallel
    let configured := (cached.map (·.dag.maxActiveRuns)).getD 1
    let maxActive := if policy ≠ .parallel ∨ configured ≤ 0 then 1 else configured
    if p.running run.dagID ≥ maxActive then
      if policy = .serialDiscard then discardRun run
      pure p
    else
      let collected ← processRun env run
      pure ⟨Function.update p.running run.dagID (p.running run.dagID + 1), p.globalRunning + 1, p.ready ++ collected⟩

/-- `processActiveRuns`. -/
def processActiveRuns : Act Unit := do
  let queued ← match ← (listDagRunsByStateLimited .queued (env.maxActiveRunsGlobal + 500)).attempt with
    | .ok queued => pure queued
    | .error _ => pure []
  let running ← match ← (listDagRunsByState .running).attempt with
    | .ok running => pure running
    | .error _ => pure []
  let ready ← Prog.fold (fun ready run => do
    let collected ← processRun env run
    pure (ready ++ collected)) running []
  let priority ← priorityDAGs queued
  let promoted ← Prog.fold (promoteRun env) (reorderPriorityQueues priority queued)
    ⟨fun dag => running.countP (·.dagID == dag), running.length, ready⟩
  admitReady env promoted.ready

end Promotion

/-- `tickOnce`. -/
def tickOnce : Act Unit := do
  let now ← timeNow
  processPendingDependencyEvents env
  processPendingExternalEvents env
  createDueRuns env now
  processActiveRuns env
  processPendingDependencyEvents env

end Cronova.Scheduler
