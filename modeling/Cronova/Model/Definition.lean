import Cronova.Calendar
import Cronova.Model.State

/-! The domain types of `internal/model/model.go`: definitions, runs, task instances,
events and pools. -/

set_option autoImplicit false

namespace Cronova.Model

open Calendar (Time)

abbrev DagID := String
abbrev TaskID := String
abbrev EventID := Nat

/-- The run ids that the scheduler makes, by the format they are printed with. -/
inductive RunID where
  | logical (dag : DagID) (date : Time)
  | manual (dag : DagID) (at_ : Time)
  | backfill (dag : DagID) (unix : Int)
  | event (dag : DagID) (id : EventID)
  | sub (dag : DagID) (at_ : Time)
  deriving Repr, DecidableEq

def RunID.text : RunID → String
  | logical dag date => dag ++ "__" ++ Calendar.compact date
  | manual dag at_ => dag ++ "__manual_" ++ toString at_
  | backfill dag unix => dag ++ "__backfill_" ++ toString unix
  | event dag id => dag ++ "__event_" ++ toString id
  | sub dag at_ => dag ++ "__sub_" ++ toString at_

/-- `ExecutorRef`: empty, the ref that `attemptRef` builds, or a child run behind `subdag:`. -/
inductive ExecutorRef where
  | none
  | attempt (run : RunID) (task : TaskID) (try_ : Int)
  | subdag (child : RunID)
  deriving Repr, DecidableEq

/-- `executor_ref LIKE 'subdag:%'`. -/
def ExecutorRef.isSubdag : ExecutorRef → Bool
  | subdag _ => true
  | _ => false

inductive TriggerType where
  | schedule | manual | dependency | event | subdag | backfill
  deriving Repr, DecidableEq

inductive ExecutionPolicy where
  | parallel | serialWait | serialDiscard | serialPriority
  deriving Repr, DecidableEq

/-- The task types that `runTask` tells apart; `other` is what the parser would refuse. -/
inductive TaskType where
  | shell | jar | http | python | sql | subdag | other
  deriving Repr, DecidableEq

inductive OnTimeout where
  | fail | skip
  deriving Repr, DecidableEq

structure DependsOnDag where
  dag : DagID
  offset : String := ""
  timeout : Nat := 0
  onTimeout : OnTimeout := .fail
  deriving Repr, DecidableEq

structure Task where
  id : TaskID
  type : TaskType := .shell
  deps : List TaskID := []
  pool : String := "default"
  priority : Int := 0
  retries : Int := 0
  retryDelay : Int := 0
  exponential : Bool := false
  retryDelayMax : Int := 0
  triggerRule : TriggerRule := .allSuccess
  workerGroup : String := ""
  dependsOnDag : Option DependsOnDag := none
  subdag : DagID := ""
  when_ : String := ""
  http : Bool := false
  project : String := ""
  deriving Repr, DecidableEq

structure DAG where
  dagID : DagID
  schedule : String := ""
  timezone : String := ""
  startDate : Time := 0
  catchup : Bool := false
  paused : Bool := false
  maxActiveRuns : Int := 1
  maxActiveTasks : Int := 0
  executionPolicy : ExecutionPolicy := .parallel
  definitionYAML : String := ""
  tasks : List Task := []
  triggerAfter : List DagID := []
  triggerOnEvent : List String := []
  dagrunTimeout : Int := 0
  deriving Repr, DecidableEq

abbrev Params := List (String × String)

structure DagRun where
  runID : RunID
  dagID : DagID
  logicalDate : Time
  state : RunState := .queued
  triggerType : TriggerType
  startedAt : Option Time := none
  finishedAt : Option Time := none
  params : Params := []
  definitionYAML : String := ""
  definitionHash : String := ""
  priority : Int := 0
  parentRunID : Option RunID := none
  held : Bool := false
  deriving Repr, DecidableEq

/-- A task instance. The schema makes `(run_id, task_id)` unique, so the pair stands for the
row's surrogate id. -/
structure TaskInstance where
  runID : RunID
  taskID : TaskID
  state : TaskState := .scheduled
  tryNumber : Int := 0
  maxRetries : Int := 0
  pool : String := "default"
  priority : Int := 0
  definitionHash : String := ""
  executorRef : ExecutorRef := .none
  startedAt : Option Time := none
  finishedAt : Option Time := none
  deriving Repr, DecidableEq

/-- The columns that name a row of `task_instances`. -/
structure InstanceKey where
  run : RunID
  task : TaskID
  deriving Repr, DecidableEq

def TaskInstance.key (ti : TaskInstance) : InstanceKey := ⟨ti.runID, ti.taskID⟩

inductive EventSource where
  | dependency | external
  deriving Repr, DecidableEq

/-- The key of a dependency event is a run id, that of an external event is free text. -/
inductive EventKey where
  | run (id : RunID)
  | text (key : String)
  deriving Repr, DecidableEq

structure Event where
  id : EventID
  source : EventSource
  key : EventKey
  payload : String := ""
  consumed : Bool := false
  deriving Repr, DecidableEq

structure Pool where
  name : String
  slots : Int
  deriving Repr, DecidableEq

def maxPoolSlots : Int := 1024

end Cronova.Model
