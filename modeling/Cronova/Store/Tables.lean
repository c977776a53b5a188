import Cronova.Model.Definition
import Cronova.Table
import Mathlib.Data.List.Sort
import Mathlib.Data.String.Basic

/-! The tables of `internal/store/sqlite/schema.sql` and the statements of
`internal/store/sqlite/sqlite.go` that the scheduler issues. Each statement is atomic:
the store holds a single connection. -/

set_option autoImplicit false

namespace Cronova.Store

open Model
open Calendar (Time)

inductive StoreError where
  | notFound
  | alreadyExists
  | queueFull
  | illegalRunTransition
  | unavailable
  deriving Repr, DecidableEq, Inhabited

structure StoredDAG where
  dagID : DagID
  definitionYAML : String := ""
  paused : Bool := false
  deleted : Bool := false
  deriving Repr, DecidableEq

/-- The columns under `PRIMARY KEY (run_id)` and `UNIQUE (dag_id, logical_date)`. -/
structure RunKey where
  run : RunID
  dag : DagID
  date : Time
  deriving DecidableEq

def runKey (r : DagRun) : RunKey := ⟨r.runID, r.dagID, r.logicalDate⟩

@[reducible] def RunKey.apart (a b : RunKey) : Prop := a.run ≠ b.run ∧ ¬ (a.dag = b.dag ∧ a.date = b.date)

/-- The columns under `PRIMARY KEY (id)` and the unique index on `(source, event_key)`. -/
structure EventRow where
  id : EventID
  source : EventSource
  key : EventKey
  deriving DecidableEq

def eventRow (e : Event) : EventRow := ⟨e.id, e.source, e.key⟩

@[reducible] def EventRow.apart (a b : EventRow) : Prop := a.id ≠ b.id ∧ ¬ (a.source = b.source ∧ a.key = b.key)

@[reducible] def InstanceKey.apart (a b : InstanceKey) : Prop := a ≠ b

abbrev Runs := Table runKey RunKey.apart
abbrev Instances := Table TaskInstance.key InstanceKey.apart
abbrev Events := Table eventRow EventRow.apart

structure DB where
  dags : List StoredDAG
  runs : Runs
  taskInstances : Instances
  events : Events
  /-- The next value of the events' AUTOINCREMENT key. -/
  nextEvent : EventID
  issued : ∀ e ∈ events, e.id < nextEvent
  /-- The rows of `dag_dependencies`, upstream first. -/
  dependencies : List (DagID × DagID)
  pools : List Pool
  /-- The rows of `task_outputs`, under `PRIMARY KEY (run_id, task_id)`. -/
  outputs : InstanceKey → Option String

namespace DB

def empty : DB where
  dags := []
  runs := .empty
  taskInstances := .empty
  events := .empty
  nextEvent := 1
  issued := by simp [Table.mem_def, Table.empty]
  dependencies := []
  pools := []
  outputs _ := none

/-- How the store writes an instant. -/
def fmtTime (t : Time) : String := Calendar.rfc3339Nano t

/-- `EXISTS (SELECT 1 FROM dags WHERE dag_id=? AND deleted_at IS NULL)`. -/
def dagActive (db : DB) (dag : DagID) : Bool := db.dags.any fun d => d.dagID == dag && !d.deleted

def getDAG (db : DB) (dag : DagID) : Except StoreError StoredDAG :=
  (db.dags.find? (·.dagID == dag)).elim (.error .notFound) .ok

/-- `UPDATE dags SET … WHERE dag_id=? AND …`. -/
def updateDAG (db : DB) (dag : DagID) (guard : StoredDAG → Bool) (f : StoredDAG → StoredDAG) : DB :=
  { db with dags := db.dags.map fun d => if d.dagID == dag && guard d then f d else d }

/-- `UpsertDAG`: a known DAG keeps its `paused` flag and is no longer deleted. -/
def upsertDAG (db : DB) (d : DAG) : DB :=
  if db.dags.any (·.dagID == d.dagID) then
    db.updateDAG d.dagID (fun _ => true) fun row => { row with definitionYAML := d.definitionYAML, deleted := false }
  else
    { db with dags := db.dags ++ [{ dagID := d.dagID, definitionYAML := d.definitionYAML, paused := d.paused }] }

def softDeleteDAG (db : DB) (dag : DagID) : Except StoreError DB :=
  if db.dagActive dag then .ok (db.updateDAG dag (!·.deleted) fun row => { row with deleted := true })
  else .error .notFound

def setDAGPaused (db : DB) (dag : DagID) (paused : Bool) : Except StoreError DB :=
  if db.dags.any (·.dagID == dag) then .ok (db.updateDAG dag (fun _ => true) fun row => { row with paused })
  else .error .notFound

/-! ### Runs -/

def run? (db : DB) (id : RunID) : Option DagRun := db.runs.rows.find? (·.runID == id)

def getDagRun (db : DB) (id : RunID) : Except StoreError DagRun := (db.run? id).elim (.error .notFound) .ok

def runAt? (db : DB) (dag : DagID) (date : Time) : Option DagRun :=
  db.runs.rows.find? fun r => r.dagID == dag && r.logicalDate == date

def getDagRunByLogicalDate (db : DB) (dag : DagID) (date : Time) : Except StoreError DagRun :=
  (db.runAt? dag date).elim (.error .notFound) .ok

/-- `ORDER BY logical_date`, which compares the stored text. -/
def dateOrder (a b : DagRun) : Prop := fmtTime a.logicalDate ≤ fmtTime b.logicalDate

instance : DecidableRel dateOrder := fun a b => inferInstanceAs (Decidable (fmtTime a.logicalDate ≤ fmtTime b.logicalDate))

def latestScheduledRun (db : DB) (dag : DagID) : Except StoreError DagRun :=
  let rows := db.runs.rows.filter fun r => r.dagID == dag && r.triggerType == .schedule
  ((rows.insertionSort (fun a b => dateOrder b a)).head?).elim (.error .notFound) .ok

def listDagRunsByState (db : DB) (state : RunState) : List DagRun :=
  (db.runs.rows.filter (·.state == state)).insertionSort dateOrder

def listDagRunsByStateLimited (db : DB) (state : RunState) (limit : Int) : List DagRun :=
  if limit ≤ 0 then db.listDagRunsByState state else (db.listDagRunsByState state).take limit.toNat

def queuedCount (db : DB) : Int := db.runs.rows.countP (·.state == .queued)

def countActiveRuns (db : DB) (dag : DagID) : Int :=
  db.runs.rows.countP fun r => r.dagID == dag && r.state.isActive

/-- The refusal of an insert whose guard selected no row. -/
def refusal (db : DB) (dag : DagID) : StoreError := if db.dagActive dag then .queueFull else .notFound

def insertRun (db : DB) (r : DagRun) : Except StoreError DB :=
  match db.runs.insert? r with
  | some runs => .ok { db with runs }
  | none => .error .alreadyExists

def createDagRunBounded (db : DB) (r : DagRun) (global : Int) : Except StoreError DB :=
  if db.dagActive r.dagID && decide (db.queuedCount < global) then db.insertRun r
  else .error (db.refusal r.dagID)

def createManualDagRunBounded (db : DB) (r : DagRun) (perDAG global : Int) : Except StoreError DB :=
  if db.dagActive r.dagID && decide (db.countActiveRuns r.dagID < perDAG) && decide (db.queuedCount < global) then
    db.insertRun r
  else .error (db.refusal r.dagID)

/-- `UPDATE dag_runs SET … WHERE run_id=? AND …`, for columns outside the keys. -/
def updateRun (db : DB) (id : RunID) (guard : DagRun → Bool) (f : DagRun → DagRun)
    (same : ∀ r, runKey (f r) = runKey r) : DB :=
  { db with runs := db.runs.modify (fun r => r.runID == id && guard r) f same }

def setRunState (state : RunState) (started finished : Option Time) (r : DagRun) : DagRun :=
  { r with state, startedAt := started, finishedAt := finished }

theorem runKey_setRunState (state : RunState) (started finished : Option Time) (r : DagRun) :
    runKey (setRunState state started finished r) = runKey r := rfl

def updateDagRunState (db : DB) (id : RunID) (state : RunState) (started finished : Option Time) :
    Except StoreError DB :=
  let prior := legalPriorRunStates state
  if prior.isEmpty then .error .illegalRunTransition else
  match db.run? id with
  | none => .error .notFound
  | some r =>
    if r.state ∈ prior then
      .ok (db.updateRun id (·.state ∈ prior) (setRunState state started finished) (runKey_setRunState _ _ _))
    else .error .illegalRunTransition

/-! ### Events -/

/-- `INSERT INTO events … ON CONFLICT(source, event_key) …`: a new row when the key is free. -/
def insertEvent (db : DB) (source : EventSource) (key : EventKey) (payload : String) : Option DB :=
  let event : Event := { id := db.nextEvent, source, key, payload }
  match inserted : db.events.insert? event with
  | none => none
  | some events => some { db with
      events
      nextEvent := db.nextEvent + 1
      issued := by
        intro e member
        rcases (Table.mem_insert? inserted e).mp member with old | rfl
        · exact Nat.lt_succ_of_lt (db.issued e old)
        · exact Nat.lt_succ_self _ }

theorem eventRow_consumed (consumed : Bool) (e : Event) : eventRow { e with consumed } = eventRow e := rfl

def setConsumed (db : DB) (selects : Event → Bool) (consumed : Bool) : DB :=
  { db with
    events := db.events.modify selects (fun e => { e with consumed }) (eventRow_consumed consumed)
    issued := by
      intro e member
      rcases (Table.mem_modify_iff _ _ _ _ e).mp member with ⟨old, _⟩ | ⟨x, old, _, rfl⟩
      · exact db.issued e old
      · exact db.issued x old }

/-- `ON CONFLICT … DO UPDATE SET consumed=0`. -/
def armEvent (db : DB) (source : EventSource) (key : EventKey) : DB :=
  (db.insertEvent source key "").getD (db.setConsumed (fun e => e.source == source && e.key == key) false)

/-- The transition and the publication share one transaction. The run's state is not consulted. -/
def updateDagRunSuccess (db : DB) (id : RunID) (started finished : Option Time) : Except StoreError DB :=
  match db.run? id with
  | none => .error .notFound
  | some _ =>
    .ok ((db.updateRun id (fun _ => true) (setRunState .success started finished) (runKey_setRunState _ _ _)).armEvent
      .dependency (.run id))

def listPendingEvents (db : DB) (source : EventSource) (limit : Int) : List Event :=
  let limit := if limit ≤ 0 then 100 else if limit > 1000 then 1000 else limit
  (db.events.rows.filter fun e => e.source == source && !e.consumed).take limit.toNat

def consumeEvent (db : DB) (id : EventID) : DB := db.setConsumed (·.id == id) true

def publishEvent (db : DB) (source : EventSource) (key : EventKey) (payload : String) : Bool × DB :=
  match db.insertEvent source key payload with
  | some db => (true, db)
  | none => (false, db)

/-! ### Definitions, task instances, pools, dependencies -/

def setDefinition (yaml hash : String) (r : DagRun) : DagRun :=
  { r with definitionYAML := yaml, definitionHash := hash }

theorem runKey_setDefinition (yaml hash : String) (r : DagRun) : runKey (setDefinition yaml hash r) = runKey r := rfl

def updateDagRunDefinition (db : DB) (id : RunID) (yaml hash : String) : Except StoreError DB :=
  match db.run? id with
  | none => .error .notFound
  | some _ => .ok (db.updateRun id (fun _ => true) (setDefinition yaml hash) (runKey_setDefinition yaml hash))

def instance? (db : DB) (key : InstanceKey) : Option TaskInstance := db.taskInstances.rows.find? (·.key == key)

def getTaskInstance (db : DB) (key : InstanceKey) : Except StoreError TaskInstance :=
  (db.instance? key).elim (.error .notFound) .ok

def listTaskInstances (db : DB) (run : RunID) : List TaskInstance :=
  db.taskInstances.rows.filter (·.runID == run)

def listTaskInstancesByState (db : DB) (state : TaskState) : List TaskInstance :=
  (db.taskInstances.rows.filter (·.state == state)).insertionSort fun a b => b.priority ≤ a.priority

/-- `task_instances.run_id` references `dag_runs`. -/
def createTaskInstance (db : DB) (ti : TaskInstance) : Except StoreError DB :=
  if (db.run? ti.runID).isNone then .error .unavailable else
  match db.taskInstances.insert? ti with
  | some taskInstances => .ok { db with taskInstances }
  | none => .error .alreadyExists

/-- The `SET` list of both updates: every column but the id, `run_id` and `task_id`. -/
def rewrite (ti row : TaskInstance) : TaskInstance := { ti with runID := row.runID, taskID := row.taskID }

theorem key_rewrite (ti row : TaskInstance) : (rewrite ti row).key = row.key := rfl

def writeInstance (db : DB) (ti : TaskInstance) (guard : TaskInstance → Bool) : DB :=
  let selects row := row.key == ti.key && guard row
  { db with taskInstances := db.taskInstances.modify selects (rewrite ti) (key_rewrite ti) }

def updateTaskInstance (db : DB) (ti : TaskInstance) : Except StoreError DB :=
  match db.instance? ti.key with
  | none => .error .notFound
  | some _ => .ok (db.writeInstance ti fun _ => true)

/-- `WHERE id=? AND executor_ref=? AND state NOT IN (terminal states)`. -/
def holdsAttempt (ref : ExecutorRef) (row : TaskInstance) : Bool :=
  row.executorRef == ref && !row.state.isTerminal

def updateTaskInstanceGuarded (db : DB) (ti : TaskInstance) (expectRef : ExecutorRef) : Bool × DB :=
  ((db.instance? ti.key).any (holdsAttempt expectRef), db.writeInstance ti (holdsAttempt expectRef))

def occupies (ti : TaskInstance) : Bool :=
  (ti.state == .queued || ti.state == .running) && !ti.executorRef.isSubdag

def countActiveTaskInstances (db : DB) : Int := db.taskInstances.rows.countP occupies

def countRunningInPool (db : DB) (pool : String) : Int :=
  db.taskInstances.rows.countP fun ti => ti.pool == pool && occupies ti

def countActiveTasksForDag (db : DB) (dag : DagID) : Int :=
  db.taskInstances.rows.countP fun ti => (db.run? ti.runID).any (·.dagID == dag) && occupies ti

def getPool (db : DB) (name : String) : Except StoreError Pool :=
  (db.pools.find? (·.name == name)).elim (.error .notFound) .ok

/-- The insert or the update of one row; a slot count out of range is refused. -/
def upsertPool (db : DB) (p : Pool) : Except StoreError DB :=
  if p.slots < 1 ∨ p.slots > maxPoolSlots then .error .unavailable else
  .ok { db with
    pools := if db.pools.any (·.name == p.name) then
        db.pools.map fun q => if q.name == p.name then p else q
      else db.pools ++ [p] }

/-- `ReplaceDagDependencies`; `INSERT OR IGNORE` keeps one row per pair. -/
def replaceDagDependencies (db : DB) (downstream : DagID) (upstreams : List DagID) : DB :=
  { db with
    dependencies := db.dependencies.filter (·.2 != downstream) ++ upstreams.dedup.map fun up => (up, downstream) }

def listDownstreams (db : DB) (upstream : DagID) : List DagID :=
  ((db.dependencies.filter (·.1 == upstream)).map (·.2)).insertionSort (· ≤ ·)

def listUpstreams (db : DB) (downstream : DagID) : List DagID :=
  ((db.dependencies.filter (·.2 == downstream)).map (·.1)).insertionSort (· ≤ ·)

/-- `INSERT … ON CONFLICT(run_id, task_id) DO UPDATE SET output=excluded.output`. -/
def setTaskOutput (db : DB) (key : InstanceKey) (output : String) : DB :=
  { db with outputs := Function.update db.outputs key (some output) }

def getTaskOutput (db : DB) (key : InstanceKey) : Except StoreError String :=
  (db.outputs key).elim (.error .notFound) .ok

end DB

end Cronova.Store
