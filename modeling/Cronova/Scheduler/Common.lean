import Cronova.Scheduler.Statement
import Mathlib.Algebra.GroupWithZero.Nat

/-! What the operations of `internal/scheduler/scheduler.go` share: the statements as
actions, the lock, the definition snapshot of a run, the trigger-rule gate, the closure of
a task's dependents, and the cancellation of an attempt. -/

set_option autoImplicit false

namespace Cronova.Scheduler

open Model Store Process
open Calendar (Time)

section Actions

abbrev getDAG (dag : DagID) : Act StoredDAG := ask (.getDAG dag) fun reply => reply
abbrev getDagRun (run : RunID) : Act DagRun := ask (.getDagRun run) fun reply => reply
abbrev getDagRunByLogicalDate (dag : DagID) (date : Time) : Act DagRun :=
  ask (.getDagRunByLogicalDate dag date) fun reply => reply
abbrev latestScheduledRun (dag : DagID) : Act DagRun := ask (.latestScheduledRun dag) fun reply => reply
abbrev listDagRunsByState (state : RunState) : Act (List DagRun) := ask (.listDagRunsByState state) fun reply => reply
abbrev listDagRunsByStateLimited (state : RunState) (limit : Int) : Act (List DagRun) :=
  ask (.listDagRunsByStateLimited state limit) fun reply => reply
abbrev countActiveRuns (dag : DagID) : Act Int := ask (.countActiveRuns dag) fun reply => reply
abbrev countActiveRunsByDag : Act (DagID → Int) := ask .countActiveRunsByDag fun reply => reply
abbrev createDagRunBounded (run : DagRun) (global : Int) : Act Unit :=
  ask (.createDagRunBounded run global) fun reply => reply
abbrev createManualDagRunBounded (run : DagRun) (perDAG global : Int) : Act Unit :=
  ask (.createManualDagRunBounded run perDAG global) fun reply => reply
abbrev updateDagRunState (run : RunID) (state : RunState) (started finished : Option Time) : Act Unit :=
  ask (.updateDagRunState run state started finished) fun reply => reply
abbrev updateDagRunSuccess (run : RunID) (started finished : Option Time) : Act Unit :=
  ask (.updateDagRunSuccess run started finished) fun reply => reply
abbrev updateDagRunDefinition (run : RunID) (yaml hash : String) : Act Unit :=
  ask (.updateDagRunDefinition run yaml hash) fun reply => reply
abbrev createTaskInstance (ti : TaskInstance) : Act Unit := ask (.createTaskInstance ti) fun reply => reply
abbrev getTaskInstance (key : InstanceKey) : Act TaskInstance := ask (.getTaskInstance key) fun reply => reply
abbrev listTaskInstances (run : RunID) : Act (List TaskInstance) := ask (.listTaskInstances run) fun reply => reply
abbrev listTaskInstancesByState (state : TaskState) : Act (List TaskInstance) :=
  ask (.listTaskInstancesByState state) fun reply => reply
abbrev updateTaskInstance (ti : TaskInstance) : Act Unit := ask (.updateTaskInstance ti) fun reply => reply
abbrev updateTaskInstanceGuarded (ti : TaskInstance) (expectRef : ExecutorRef) : Act Bool :=
  ask (.updateTaskInstanceGuarded ti expectRef) fun reply => reply
abbrev countActiveTaskInstances : Act Int := ask .countActiveTaskInstances fun reply => reply
abbrev countRunningInPool (pool : String) : Act Int := ask (.countRunningInPool pool) fun reply => reply
abbrev countActiveTasksForDag (dag : DagID) : Act Int := ask (.countActiveTasksForDag dag) fun reply => reply
abbrev getPool (name : String) : Act Pool := ask (.getPool name) fun reply => reply
abbrev listDownstreams (dag : DagID) : Act (List DagID) := ask (.listDownstreams dag) fun reply => reply
abbrev listUpstreams (dag : DagID) : Act (List DagID) := ask (.listUpstreams dag) fun reply => reply
abbrev listPendingEvents (source : EventSource) (limit : Int) : Act (List Event) :=
  ask (.listPendingEvents source limit) fun reply => reply
abbrev consumeEvent (id : EventID) : Act Unit := ask (.consumeEvent id) fun reply => reply

abbrev upsertDAG (d : DAG) : Act Unit := ask (.upsertDAG d) fun reply => reply
abbrev softDeleteDAG (dag : DagID) : Act Unit := ask (.softDeleteDAG dag) fun reply => reply
abbrev setDAGPaused (dag : DagID) (paused : Bool) : Act Unit := ask (.setDAGPaused dag paused) fun reply => reply
abbrev upsertPool (p : Pool) : Act Unit := ask (.upsertPool p) fun reply => reply
abbrev replaceDagDependencies (downstream : DagID) (upstreams : List DagID) : Act Unit :=
  ask (.replaceDagDependencies downstream upstreams) fun reply => reply
abbrev setTaskOutput (ti : TaskInstance) (output : String) : Act Unit := ask (.setTaskOutput ti output) fun reply => reply

abbrev timeNow : Act Time := perform .now

abbrev cachedDAG (dag : DagID) : Act (Option CachedDAG) := perform (.cachedDAG dag)

/-- Run an action whose error is only logged. -/
def logged (p : Act Unit) : Act Unit := do
  let _ ← p.attempt
  pure ()

/-- `finalizeMu.Lock()` with the deferred unlock. -/
def locked {A : Type} (what : Section) (body : Act A) : Act A := do
  perform (.lock what)
  let result ← body.attempt
  perform .unlock
  Prog.ofExcept result

variable {A B S : Type} {c : Contract statements S} {w : S}

/-- The rule for a statement whose errors end the operation. -/
theorem safe_ask {o : Op} {get : o.Reply → Except StoreError A} {k : A → Act B} {post : Except Failure B → S → Prop}
    (may : ∀ v, c.rely w v → c.inv v → c.may o v)
    (ok : ∀ v reply u a, c.rely w v → c.inv v → c.step o v reply u → c.inv u → get reply = .ok a →
      (k a).Safe c post u)
    (error : ∀ v reply u e, c.rely w v → c.inv v → c.step o v reply u → c.inv u → get reply = .error e →
      post (.error (.store e)) u) : (ask o get >>= k).Safe c post w := by
  intro v relied kept
  refine ⟨may v relied kept, fun reply u stepped holds => ?_⟩
  dsimp only
  cases read : get reply with
  | ok a => exact ok v reply u a relied kept stepped holds read
  | error e => exact error v reply u e relied kept stepped holds read

end Actions

def defaultPoolSlots : Int := 16

section Definitions

variable (env : Env)

/-- `snapshotRun`. -/
def snapshotRun (run : DagRun) (d : DAG) : DagRun :=
  { run with definitionYAML := d.definitionYAML, definitionHash := env.hash d.definitionYAML }

def parseDefinition (yaml : String) : Act DAG :=
  match env.parse yaml with
  | some d => pure d
  | none => .fail .badDefinition

/-- `dagForRun`: the run's own snapshot, which a legacy run takes at its first use. -/
def dagForRun (run : DagRun) : Act (DAG × DagRun) :=
  if run.definitionYAML ≠ "" then do
    let d ← parseDefinition env run.definitionYAML
    pure (d, run)
  else do
    let d ← match ← cachedDAG run.dagID with
      | some cached => pure cached.dag
      | none => do
        let stored ← getDAG run.dagID
        parseDefinition env stored.definitionYAML
    let run := snapshotRun env run d
    updateDagRunDefinition run.runID run.definitionYAML run.definitionHash
    pure (d, run)

end Definitions

section Instances

/-- The maps from task id to task instance, which the source fills from one run's listing. -/
abbrev ByTask := List TaskInstance

def ByTask.get (byTask : ByTask) (task : TaskID) : Option TaskInstance := byTask.find? (·.taskID == task)

/-- Writing through the pointer that the map holds. -/
def ByTask.set (byTask : ByTask) (ti : TaskInstance) : ByTask :=
  byTask.map fun other => if other.taskID = ti.taskID then ti else other

namespace ByTask

variable {byTask : ByTask} {ti : TaskInstance}

theorem get_some {task : TaskID} (found : byTask.get task = some ti) : ti ∈ byTask ∧ ti.taskID = task :=
  ⟨List.mem_of_find?_eq_some found, by simpa using List.find?_some found⟩

/-- Writing through a pointer changes what its own key finds, and nothing else. -/
theorem get_set (byTask : ByTask) (ti : TaskInstance) (task : TaskID) :
    (byTask.set ti).get task = if task = ti.taskID then (byTask.get task).map fun _ => ti else byTask.get task := by
  have blind : (fun other : TaskInstance => other.taskID == task) ∘
      (fun other => if other.taskID = ti.taskID then ti else other) = fun other => other.taskID == task := by
    funext other
    simp only [Function.comp_apply]
    split
    · rename_i own; rw [own]
    · rfl
  rw [get, set, List.find?_map, blind, ← get]
  cases found : byTask.get task with
  | none => simp
  | some other =>
    obtain rfl := (get_some found).2
    simp only [Option.map_some]
    split <;> rfl

end ByTask

/-- `taskGate`. -/
def taskGate (t : Task) (byTask : ByTask) : Gate :=
  evalTriggerRule t.triggerRule (t.deps.map fun dep => (byTask.get dep).map (·.state))

def newInstance (run : RunID) (t : Task) (hash : String) : TaskInstance where
  runID := run
  taskID := t.id
  state := .scheduled
  maxRetries := t.retries
  pool := t.pool
  priority := t.priority
  definitionHash := hash

/-- Back to `scheduled` for a fresh attempt; the try number keeps accumulating. -/
def TaskInstance.reset (ti : TaskInstance) : TaskInstance :=
  { ti with state := .scheduled, executorRef := .none, startedAt := none, finishedAt := none }

end Instances

section Closure

def dependents (tasks : List Task) (id : TaskID) : List TaskID :=
  tasks.flatMap fun t => (t.deps.filter (· == id)).map fun _ => t.id

/-- The work list of `downstreamClosure`. A task's dependents are queued once, when the task
enters the closure, so there are no more rounds than one for the start and one a dependency. -/
def closureLoop (tasks : List Task) : Nat → List TaskID → List TaskID → List TaskID
  | 0, _, closure => closure
  | _, [], closure => closure
  | rounds + 1, id :: queue, closure =>
    if id ∈ closure then closureLoop tasks rounds queue closure
    else closureLoop tasks rounds (queue ++ dependents tasks id) (closure ++ [id])

/-- `downstreamClosure`: the task and every task transitively downstream of it. -/
def downstreamClosure (tasks : List Task) (task : TaskID) : List TaskID :=
  closureLoop tasks (1 + (tasks.map (·.deps.length)).sum) [task] []

def taskIDSet (tasks : List Task) : List TaskID := tasks.map (·.id)

def intersect (a b : List TaskID) : List TaskID := a.filter (· ∈ b)

example : downstreamClosure [{ id := "a" }, { id := "b", deps := ["a"] }, { id := "c", deps := ["b"] }, { id := "d" }] "a" =
    ["a", "b", "c"] := by decide

end Closure

section Cancellation

/-- `cancelAttempt`: a child run is cancelled like a run of its own, anything else is killed. -/
def cancelAttempt (cancelRun : RunID → Act Unit) : ExecutorRef → Act Unit
  | .subdag child => logged (cancelRun child)
  | ref => perform (.cancel ref)

/-- The loop of `cancelRunLocked` over the task instances of the run. -/
def cancelInstances (cancelRun : RunID → Act Unit) (fin : Time) (tis : List TaskInstance) : Act Unit :=
  Prog.forEach tis fun ti =>
    if ti.state.isTerminal then pure () else do
      if ti.executorRef ≠ .none then cancelAttempt cancelRun ti.executorRef
      logged (updateTaskInstance { ti with state := .cancelled, finishedAt := some fin })

/-- `cancelRunLocked`. The recursion follows subdag references; every level first cancels an
active run, so it is no deeper than the number of runs. -/
def cancelRunLocked : Nat → RunID → Act Unit
  | 0, _ => .fail .exhausted
  | depth + 1, runID => do
    let run ← getDagRun runID
    if run.state ≠ .queued ∧ run.state ≠ .running then .fail .runNotActive else
    let fin ← timeNow
    updateDagRunState runID .cancelled run.startedAt (some fin)
    let tis ← listTaskInstances runID
    cancelInstances (cancelRunLocked depth) fin tis

/-- The cascade of an operation that holds the lock. -/
def cascade (runID : RunID) : Act Unit := do
  let runs ← perform .census
  cancelRunLocked (runs + 1) runID

/-- `CancelRun`. -/
def cancelRun (runID : RunID) : Act Unit := locked (.cancel runID) (cascade runID)

end Cancellation

end Cronova.Scheduler
