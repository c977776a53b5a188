import Cronova.Parser.Document

/-! The editor: `getDAG`, the spec that it sends back, and `specToYAML`.

Between a definition and its next version lie the row of the DAG, the view that the editor
loads, the spec that it submits, the YAML that is rendered from it and `Parse` again. A key that
one of them does not have is lost when nothing was edited.
-/

set_option autoImplicit false

namespace Cronova.Api

open Cronova.Parser Text Checks
open Calendar (Time)

/-! ### The row -/

def FourDigits (t : Time) : Prop := 0 ≤ (Calendar.utc t).date.year ∧ (Calendar.utc t).date.year ≤ 9999

instance (t : Time) : Decidable (FourDigits t) := inferInstanceAs (Decidable (_ ∧ _))

/-- The zero `time.Time`. -/
def zeroTime : Time := -62135596800 * Calendar.second

/-- `parseLoose (fmtTime t)`: only years of four digits are read back. -/
def storedDate (t : Time) : Time := if FourDigits t then t else zeroTime

/-- The columns of `dags` that come from the definition. -/
structure DagRow where
  dagID : String
  schedule : String
  timezone : String
  startDate : Time
  catchup : Bool
  maxActiveRuns : Int
  definitionYAML : String

/-- `UpsertDAG`, and `GetDAG` after it. -/
def rowOf (d : ParsedDAG) : DagRow where
  dagID := d.dagID
  schedule := d.schedule
  timezone := d.timezone
  startDate := storedDate d.startDate
  catchup := d.catchup
  maxActiveRuns := d.maxActiveRuns
  definitionYAML := d.definitionYAML

/-! ### The view -/

structure EditTask where
  id : String
  type : String
  command : String
  deps : List String
  pool : String
  priority : Int
  retries : Option Int := none
  retryDelay : Option Int := none
  retryBackoff : String
  retryDelayMax : Int
  timeout : Int
  sla : Int
  triggerRule : String
  http : Option HTTPSpec
  conn : String
  project : String
  workerGroup : String
  subdag : String
  dependsOnDag : Option CrossWait

/-- The JSON of a DAG. What `getDAG` does not set keeps its zero value. -/
structure DagDetail where
  dagID : String
  schedule : String
  timezone : String
  startDate : Time
  catchup : Bool
  maxActiveRuns : Int
  maxActiveTasks : Int := 0
  executionPolicy : String := ""
  defaultRetries : Int := 0
  definitionYAML : String
  triggerAfter : List String := []
  triggerOnEvent : List String := []
  notify : Notify := {}
  sla : Int := 0
  dagrunTimeout : Int := 0
  tasks : List EditTask := []

/-- `rawByID`: the retries and the delay that the task with the id is written with. -/
def rawByID (tasks : List TaskYAML) (id : String) : Option Int × Option Int :=
  match tasks.reverse.find? (·.id = id) with
  | some t => (t.retries, t.retryDelay)
  | none => (none, none)

def editTask (raw : String → Option Int × Option Int) (task : ParsedTask) : EditTask where
  id := task.id
  type := task.type
  command := task.command
  deps := task.deps
  pool := task.pool
  priority := task.priority
  retries := (raw task.id).1
  retryDelay := (raw task.id).2
  retryBackoff := task.retryBackoff
  retryDelayMax := task.retryDelayMax
  timeout := task.timeout
  sla := task.sla
  triggerRule := task.triggerRule
  http := task.http
  conn := task.conn
  project := task.project
  workerGroup := task.workerGroup
  subdag := task.subdag
  dependsOnDag := task.dependsOnDag

def getDAG (lib : Library) (now : Time) (row : DagRow) : DagDetail :=
  let d : DagDetail := {
    dagID := row.dagID
    schedule := row.schedule
    timezone := row.timezone
    startDate := row.startDate
    catchup := row.catchup
    maxActiveRuns := row.maxActiveRuns
    definitionYAML := row.definitionYAML }
  match parse lib now row.definitionYAML with
  | .error _ => d
  | .ok parsed =>
    { d with
      triggerAfter := parsed.triggerAfter
      defaultRetries := parsed.defaultRetries
      notify := parsed.notify
      executionPolicy := parsed.executionPolicy
      sla := parsed.sla
      dagrunTimeout := parsed.dagrunTimeout
      tasks := parsed.tasks.map (editTask (rawByID ((lib.decode row.definitionYAML).elim [] (·.tasks)))) }

/-! ### The spec -/

structure TaskSpec where
  id : String
  type : String
  command : String
  deps : List String
  pool : String
  priority : Int
  retries : Option Int
  retryDelay : Option Int
  retryBackoff : String
  retryDelayMax : Int
  timeout : Int
  sla : Int
  triggerRule : String
  http : Option HTTPSpec
  conn : String
  project : String
  workerGroup : String
  subdag : String
  dependsOnDag : Option CrossWait

structure DagSpec where
  dagID : String
  schedule : String
  startDate : String
  catchup : Bool
  maxActiveRuns : Int
  executionPolicy : String
  defaultRetries : Int
  tasks : List TaskSpec
  triggerAfter : List String
  notify : Notify
  sla : Int
  dagrunTimeout : Int

/-- The keys of a task's view that a task's spec has: all of them. -/
def EditTask.submit (t : EditTask) : TaskSpec where
  id := t.id
  type := t.type
  command := t.command
  deps := t.deps
  pool := t.pool
  priority := t.priority
  retries := t.retries
  retryDelay := t.retryDelay
  retryBackoff := t.retryBackoff
  retryDelayMax := t.retryDelayMax
  timeout := t.timeout
  sla := t.sla
  triggerRule := t.triggerRule
  http := t.http
  conn := t.conn
  project := t.project
  workerGroup := t.workerGroup
  subdag := t.subdag
  dependsOnDag := t.dependsOnDag

/-- The view sent back as it is; keys that a spec does not have are ignored. -/
def DagDetail.submit (d : DagDetail) : DagSpec where
  dagID := d.dagID
  schedule := d.schedule
  startDate := Calendar.rfc3339Nano d.startDate
  catchup := d.catchup
  maxActiveRuns := d.maxActiveRuns
  executionPolicy := d.executionPolicy
  defaultRetries := d.defaultRetries
  tasks := d.tasks.map (·.submit)
  triggerAfter := d.triggerAfter
  notify := d.notify
  sla := d.sla
  dagrunTimeout := d.dagrunTimeout

/-! ### The rendered definition -/

structure TaskOut where
  id : String
  type : String
  command : String
  deps : List String
  pool : String
  priority : Int
  retries : Option Int
  retryDelay : Option Int
  retryBackoff : String
  retryDelayMax : Int
  timeout : Int
  sla : Int
  triggerRule : String
  conn : String
  project : String
  workerGroup : String
  subdag : String := ""
  dependsOnDag : Option CrossWait := none
  http : Option HTTPSpec := none

structure DagOut where
  dagID : String
  schedule : String
  startDate : String
  catchup : Bool
  maxActiveRuns : Int
  executionPolicy : String
  defaultRetries : Int
  sla : Int
  dagrunTimeout : Int
  tasks : List TaskOut
  triggerAfter : List String
  notify : Option Notify

def waitOut (wait : CrossWait) : Option CrossWait :=
  if trimSpace wait.dag = "" then none
  else some { wait with dag := trimSpace wait.dag, offset := trimSpace wait.offset }

def taskOut (t : TaskSpec) : TaskOut where
  id := t.id
  type := t.type
  -- a subdag task runs a child DAG, never a command
  command := if t.type = "subdag" then "" else t.command
  deps := t.deps
  pool := t.pool
  priority := t.priority
  retries := t.retries
  retryDelay := t.retryDelay
  retryBackoff := t.retryBackoff
  retryDelayMax := t.retryDelayMax
  timeout := t.timeout
  sla := t.sla
  triggerRule := t.triggerRule
  conn := t.conn
  project := t.project
  workerGroup := t.workerGroup
  subdag := if t.type = "subdag" then trimSpace t.subdag else ""
  dependsOnDag := t.dependsOnDag.bind waitOut
  http := if t.type = "http" then t.http else none

def notifyOut (notify : Notify) : Option Notify :=
  let url := trimSpace notify.url
  let group := trimSpace notify.group
  if url ≠ "" ∨ group ≠ "" then some { notify with url, on := notify.on.filter isNotifyEvent, group } else none

def specToYAML (spec : DagSpec) : DagOut where
  dagID := spec.dagID
  schedule := spec.schedule
  startDate := spec.startDate
  catchup := spec.catchup
  maxActiveRuns := spec.maxActiveRuns
  executionPolicy := spec.executionPolicy
  defaultRetries := spec.defaultRetries
  sla := spec.sla
  dagrunTimeout := spec.dagrunTimeout
  tasks := spec.tasks.map taskOut
  triggerAfter := spec.triggerAfter.filter (· ≠ "")
  notify := notifyOut spec.notify

/-- What is read back from a rendered task. -/
def TaskOut.document (t : TaskOut) : TaskYAML where
  id := t.id
  type := t.type
  command := t.command
  deps := t.deps
  pool := t.pool
  priority := t.priority
  retries := t.retries
  retryDelay := t.retryDelay
  retryBackoff := t.retryBackoff
  retryDelayMax := t.retryDelayMax
  timeout := t.timeout
  sla := t.sla
  triggerRule := t.triggerRule
  conn := t.conn
  project := t.project
  workerGroup := t.workerGroup
  subdag := t.subdag
  dependsOnDag := t.dependsOnDag
  http := t.http

/-- What is read back from a rendered DAG. A value that is left out is a zero value, and so is
every key that is never written. -/
def DagOut.document (d : DagOut) : DagYAML where
  dagID := d.dagID
  schedule := d.schedule
  startDate := d.startDate
  catchup := d.catchup
  maxActiveRuns := d.maxActiveRuns
  executionPolicy := d.executionPolicy
  defaultRetries := d.defaultRetries
  sla := d.sla
  dagrunTimeout := d.dagrunTimeout
  tasks := d.tasks.map (·.document)
  triggerAfter := d.triggerAfter
  notify := d.notify.getD {}

/-- The rendered definition of a DAG that is loaded and saved as it is. -/
def resave (lib : Library) (now : Time) (d : ParsedDAG) : DagOut := specToYAML (getDAG lib now (rowOf d)).submit

end Cronova.Api
