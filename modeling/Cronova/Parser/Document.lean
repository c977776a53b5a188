import Cronova.Checks
import Cronova.Parser.Dependencies
import Cronova.Text.Trim
import Mathlib.Data.List.Forall2

/-! `Parse`: from the YAML text of a definition to a validated DAG.

The YAML reader, the cron parser, the time zones and the layouts of dates are taken as a
`Library`; what `Parse` does with what they read is here, check by check in its order.
-/

set_option autoImplicit false

namespace Cronova.Parser

open Model Text Checks
open Calendar (Time)

/-! ### The document -/

structure HTTPSpec where
  method : String := ""
  url : String
  headers : List (String × String) := []
  body : String := ""
  expectedStatus : List Int := []
  deriving DecidableEq

structure CrossWait where
  dag : String
  offset : String := ""
  timeout : Int := 0
  onTimeout : String := ""
  deriving DecidableEq

/-- A task as it is written; an absent key leaves the zero value, and `none` where `Parse` tells it
from one. -/
structure TaskYAML where
  id : String := ""
  type : String := ""
  command : String := ""
  deps : List String := []
  pool : String := ""
  priority : Int := 0
  retries : Option Int := none
  retryDelay : Option Int := none
  retryBackoff : String := ""
  retryDelayMax : Int := 0
  timeout : Int := 0
  sla : Int := 0
  triggerRule : String := ""
  when_ : String := ""
  workerGroup : String := ""
  dependsOnDag : Option CrossWait := none
  foreach : List String := []
  conn : String := ""
  project : String := ""
  subdag : String := ""
  http : Option HTTPSpec := none
  deriving DecidableEq

structure Notify where
  url : String := ""
  on : List String := []
  format : String := ""
  group : String := ""
  deriving DecidableEq

structure DagYAML where
  dagID : String := ""
  schedule : String := ""
  timezone : String := ""
  startDate : String := ""
  catchup : Bool := false
  maxActiveRuns : Int := 0
  executionPolicy : String := ""
  workerGroup : String := ""
  maxActiveTasks : Int := 0
  defaultRetries : Int := 0
  defaultRetryDelay : Int := 0
  sla : Int := 0
  dagrunTimeout : Int := 0
  tasks : List TaskYAML := []
  triggerAfter : List String := []
  triggerOnEvent : List String := []
  notify : Notify := {}
  deriving DecidableEq

/-- What `Parse` uses of other packages. -/
structure Library where
  /-- The single document of the text, with known keys only. -/
  decode : String → Option DagYAML
  loadLocation : String → Bool
  /-- `ParseScheduleIn` takes the cron text in the zone. -/
  parseSchedule : String → String → Bool
  /-- A date in one of the layouts, in the zone unless it has an offset of its own. -/
  parseDate : String → String → Option Time
  validOffset : String → Bool
  /-- The placeholders of a shard, for its item and index. -/
  fill : String → Nat → String → String

/-! ### The definition -/

structure ParsedTask where
  id : String
  type : String
  command : String
  deps : List String
  pool : String
  priority : Int
  retries : Int
  retryDelay : Int
  retryBackoff : String
  retryDelayMax : Int
  timeout : Int
  sla : Int
  triggerRule : String
  workerGroup : String
  dependsOnDag : Option CrossWait
  subdag : String
  when_ : String
  http : Option HTTPSpec
  conn : String
  project : String
  deriving DecidableEq

structure ParsedDAG where
  dagID : String
  schedule : String
  timezone : String
  startDate : Time
  catchup : Bool
  maxActiveRuns : Int
  maxActiveTasks : Int
  executionPolicy : String
  defaultRetries : Int
  sla : Int
  dagrunTimeout : Int
  definitionYAML : String
  triggerAfter : List String
  triggerOnEvent : List String
  notify : Notify
  tasks : List ParsedTask
  deriving DecidableEq

/-- The errors of `Parse`, with what their messages quote. -/
inductive ParseError where
  | emptyDefinition
  | definitionTooLong
  | yaml
  | dagIDRequired
  | dagIDTooLong
  | invalidDagID (dag : String)
  | invalidTimezone (dag timezone : String)
  | invalidSchedule (dag schedule : String)
  | maxActiveRuns (dag : String)
  | maxActiveTasks (dag : String)
  | invalidExecutionPolicy (dag policy : String)
  | invalidStartDate (dag date : String)
  | defaultRetries (dag : String)
  | defaultRetryDelay (dag : String)
  | deadlines (dag : String)
  | taskCount (dag : String)
  | triggerAfterCount (dag : String)
  | invalidTriggerAfter (dag upstream : String)
  | duplicateTriggerAfter (dag upstream : String)
  | triggerOnEventCount (dag : String)
  | invalidEventKey (dag key : String)
  | duplicateEventKey (dag key : String)
  | notifyURLTooLong (dag : String)
  | invalidNotifyOn (dag event : String)
  | notifyURLScheme (dag : String)
  | invalidNotifyFormat (dag format : String)
  | notifyGroupTooLong (dag : String)
  | foreachID (dag : String)
  | foreachShards (dag task : String)
  | foreachCount (dag : String)
  | emptyTaskID (dag : String)
  | invalidTaskID (dag task : String)
  | duplicateTaskID (dag task : String)
  | unsupportedType (dag task type : String)
  | needsSubdag (dag task : String)
  | ownSubdag (dag task : String)
  | subdagType (dag task type : String)
  | tooManyDeps (dag task : String)
  | dependencyCount (dag : String)
  | commandTooLong (dag task : String)
  | invalidPool (dag task pool : String)
  | invalidWorkerGroup (dag task group : String)
  | projectWithGroup (dag task : String)
  | invalidTriggerRule (dag task rule : String)
  | invalidDependsOnDag (dag task target : String)
  | dependsOnOwnDag (dag task : String)
  | invalidOffset (dag task offset : String)
  | dependsTimeout (dag task : String)
  | invalidOnTimeout (dag task : String)
  | taskDeadlines (dag task : String)
  | invalidRetryBackoff (dag task backoff : String)
  | negativeDelayMax (dag task : String)
  | delayTooLong (dag task : String)
  | retries (dag task : String)
  | negativeDelay (dag task : String)
  | httpURL (dag task : String)
  | expectedStatus (dag task : String) (code : Int)
  | httpLimits (dag task : String)
  | httpType (dag task : String)
  | emptyCommand (dag task : String)
  | sqlConn (dag task : String)
  | dependency (dag : String) (error : DependencyError)
  deriving DecidableEq

/-! ### Limits and patterns -/

def maxDefinitionBytes : Nat := 2 ^ 20
def maxTasks : Nat := 1000
def maxActiveRuns : Int := 1000
def maxIdentifierBytes : Nat := 128
def maxDependencies : Nat := 10000
def maxDepsPerTask : Nat := 256
def maxRetries : Int := 100
def maxDurationSeconds : Int := 365 * 24 * 3600
def maxCommandBytes : Nat := 256 * 2 ^ 10
def maxDelaySec : Int := 30 * 24 * 3600

abbrev Within (limit n : Int) : Prop := 0 ≤ n ∧ n ≤ limit

/-- A letter or a digit, then letters, digits and the marks. -/
def named (marks : List Char) (text : String) : Bool :=
  match text.toList with
  | [] => false
  | first :: rest => first.isAlphanum && rest.all fun c => c.isAlphanum || marks.contains c

def idPattern (text : String) : Bool := named ['_', '.', '-'] text

def eventKeyPattern (text : String) : Bool := named ['_', '.', ':', '-'] text

def fitsIdentifier (text : String) : Bool := text.utf8ByteSize ≤ maxIdentifierBytes

def isID (text : String) : Bool := fitsIdentifier text && idPattern text

def isEventKey (text : String) : Bool := fitsIdentifier text && eventKeyPattern text

def validExecutionPolicy (policy : String) : Bool :=
  policy ∈ ["", "parallel", "serial_wait", "serial_discard", "serial_priority"]

def validTriggerRule (rule : String) : Bool :=
  rule ∈ ["all_success", "all_done", "one_success", "one_failed", "all_failed", "none_failed"]

def validRetryBackoff (backoff : String) : Bool := backoff ∈ ["", "fixed", "exponential"]

def taskTypes : List String := ["shell", "python", "sql", "jar", "http", "subdag"]

def notifyFormats : List String := ["", "raw", "slack", "feishu", "dingtalk", "email"]

/-- `strings.ToLower` where it can give an ASCII letter of a scheme. -/
def lower (c : Char) : Char := if c = '\u0130' then 'i' else c.toLower

def hasScheme (url : String) : Bool :=
  ["http://", "https://", "mailto:"].any fun scheme => scheme.toList.isPrefixOf (url.toList.map lower)

/-! ### The DAG's own fields -/

def parseStartDate (lib : Library) (now : Time) (date timezone : String) : Option Time :=
  if date = "" then some (now - now % Calendar.day) else lib.parseDate date timezone

/-- The limit on active runs, where none is set. -/
def activeRuns (n : Int) : Int := if n = 0 then 1 else n

/-- The alias of the default policy becomes the default. -/
def canonicalPolicy (policy : String) : String := if policy = "parallel" then "" else policy

/-- The checks from the id to the counts; they find the start date. -/
def checkHeader (lib : Library) (now : Time) (y : DagYAML) : Except ParseError Time := do
  require (y.dagID ≠ "") .dagIDRequired
  require (fitsIdentifier y.dagID) .dagIDTooLong
  require (idPattern y.dagID) (.invalidDagID y.dagID)
  let timezone := trimSpace y.timezone
  require (timezone = "" ∨ lib.loadLocation timezone) (.invalidTimezone y.dagID timezone)
  require (y.schedule = "" ∨ lib.parseSchedule y.schedule timezone) (.invalidSchedule y.dagID y.schedule)
  require (Within maxActiveRuns y.maxActiveRuns) (.maxActiveRuns y.dagID)
  require (Within maxTasks y.maxActiveTasks) (.maxActiveTasks y.dagID)
  let policy := trimSpace y.executionPolicy
  require (validExecutionPolicy policy) (.invalidExecutionPolicy y.dagID policy)
  let startDate ← demand (parseStartDate lib now y.startDate timezone) (.invalidStartDate y.dagID y.startDate)
  require (Within maxRetries y.defaultRetries) (.defaultRetries y.dagID)
  require (Within maxDurationSeconds y.defaultRetryDelay) (.defaultRetryDelay y.dagID)
  require (Within maxDurationSeconds y.sla ∧ Within maxDurationSeconds y.dagrunTimeout) (.deadlines y.dagID)
  require (y.tasks.length ≤ maxTasks) (.taskCount y.dagID)
  require (y.triggerAfter.length ≤ maxTasks) (.triggerAfterCount y.dagID)
  return startDate

/-- The loops over `trigger_after` and `trigger_on_event`: empty names are left out, and the others
are valid and listed once. -/
def collect (valid : String → Bool) (invalid duplicate : String → ParseError) : List String → List String → Except ParseError (List String)
  | _, [] => .ok []
  | seen, name :: names =>
    if name = "" then collect valid invalid duplicate seen names
    else do
      require (valid name) (invalid name)
      require (name ∉ seen) (duplicate name)
      let rest ← collect valid invalid duplicate (name :: seen) names
      return name :: rest

def parseTriggerAfter (y : DagYAML) : Except ParseError (List String) :=
  collect isID (.invalidTriggerAfter y.dagID) (.duplicateTriggerAfter y.dagID) [] y.triggerAfter

def parseTriggerOnEvent (y : DagYAML) : Except ParseError (List String) := do
  require (y.triggerOnEvent.length ≤ maxTasks) (.triggerOnEventCount y.dagID)
  collect isEventKey (.invalidEventKey y.dagID) (.duplicateEventKey y.dagID) [] (y.triggerOnEvent.map trimSpace)

def isNotifyEvent (event : String) : Bool := event == "failure" || event == "success"

def parseNotifyOn (dag : String) : List String → Except ParseError (List String)
  | [] => .ok []
  | event :: events =>
    if isNotifyEvent (trimSpace event) then do
      let rest ← parseNotifyOn dag events
      return trimSpace event :: rest
    else do
      require (trimSpace event = "") (.invalidNotifyOn dag (trimSpace event))
      parseNotifyOn dag events

def parseNotify (dag : String) (notify : Notify) : Except ParseError Notify := do
  let url := trimSpace notify.url
  require (url.utf8ByteSize ≤ 8192) (.notifyURLTooLong dag)
  let on ← parseNotifyOn dag notify.on
  require (url = "" ∨ hasScheme url) (.notifyURLScheme dag)
  require (notify.format ∈ notifyFormats) (.invalidNotifyFormat dag notify.format)
  let group := trimSpace notify.group
  require (group.utf8ByteSize ≤ 128) (.notifyGroupTooLong dag)
  return { url, on, format := notify.format, group }

/-! ### The fan-out -/

def shardID (task : String) (i : Nat) : String := task ++ "_" ++ toString i

/-- The shards of a task, one for each item. -/
def shards (lib : Library) (t : TaskYAML) : List TaskYAML :=
  t.foreach.zipIdx.map fun (item, i) =>
    { t with
      foreach := []
      id := shardID t.id i
      command := lib.fill item i t.command
      when_ := lib.fill item i t.when_ }

def expandEach (lib : Library) (dag : String) : List TaskYAML → Except ParseError (List TaskYAML)
  | [] => .ok []
  | t :: ts =>
    if t.foreach = [] then do
      let rest ← expandEach lib dag ts
      return t :: rest
    else do
      require (t.id ≠ "") (.foreachID dag)
      require (t.foreach.length ≤ maxTasks) (.foreachShards dag t.id)
      let rest ← expandEach lib dag ts
      return shards lib t ++ rest

/-- A dependency on a task that is fanned out is one on all its shards. -/
def expandDep (tasks : List TaskYAML) (dep : String) : List String :=
  let fanned := tasks.filter fun t => t.foreach ≠ [] ∧ t.id = dep
  if fanned = [] then [dep] else fanned.flatMap fun t => (List.range t.foreach.length).map (shardID t.id)

def expandForeach (lib : Library) (dag : String) (tasks : List TaskYAML) : Except ParseError (List TaskYAML) :=
  if ∀ t ∈ tasks, t.foreach = [] then .ok tasks
  else do
    let out ← expandEach lib dag tasks
    require (out.length ≤ maxTasks) (.foreachCount dag)
    return out.map fun t => { t with deps := t.deps.flatMap (expandDep tasks) }

/-! ### The tasks -/

section Task

variable (y : DagYAML) (t : TaskYAML)

def typeOf : String := orDefault (trimSpace t.type) "shell"

def poolOf : String := orDefault (trimSpace t.pool) "default"

/-- The task's worker group, or the DAG's. -/
def groupOf : String := orDefault (trimSpace t.workerGroup) (trimSpace y.workerGroup)

def ruleOf : String := orDefault t.triggerRule "all_success"

def retriesOf : Int := t.retries.getD y.defaultRetries

def retryDelayOf : Int := t.retryDelay.getD y.defaultRetryDelay

def checkTaskID (seen : List String) : Except ParseError Unit := do
  require (t.id ≠ "") (.emptyTaskID y.dagID)
  require (isID t.id) (.invalidTaskID y.dagID t.id)
  require (t.id ∉ seen) (.duplicateTaskID y.dagID t.id)

def checkSubdag : Except ParseError Unit :=
  let target := trimSpace t.subdag
  if typeOf t = "subdag" then do
    require (target ≠ "" ∧ isID target) (.needsSubdag y.dagID t.id)
    require (target ≠ y.dagID) (.ownSubdag y.dagID t.id)
  else require (target = "") (.subdagType y.dagID t.id (typeOf t))

/-- The type and the sizes; `total` counts the dependencies of the tasks before. -/
def checkShape (total : Nat) : Except ParseError Unit := do
  require (typeOf t ∈ taskTypes) (.unsupportedType y.dagID t.id (typeOf t))
  checkSubdag y t
  require (t.deps.length ≤ maxDepsPerTask) (.tooManyDeps y.dagID t.id)
  require (total + t.deps.length ≤ maxDependencies) (.dependencyCount y.dagID)
  require (t.command.utf8ByteSize ≤ maxCommandBytes) (.commandTooLong y.dagID t.id)

/-- Where the task may run, and after which outcomes. -/
def checkPlacement : Except ParseError Unit := do
  require (isID (poolOf t)) (.invalidPool y.dagID t.id (poolOf t))
  require (groupOf y t = "" ∨ isID (groupOf y t)) (.invalidWorkerGroup y.dagID t.id (groupOf y t))
  require (groupOf y t = "" ∨ trimSpace t.project = "") (.projectWithGroup y.dagID t.id)
  require (validTriggerRule (ruleOf t)) (.invalidTriggerRule y.dagID t.id t.triggerRule)

def canonicalOffset (offset : String) : String := if offset = "same" then "" else offset

def parseDependsOnDag (lib : Library) : Except ParseError (Option CrossWait) :=
  match t.dependsOnDag with
  | none => return none
  | some wait => do
    let dag := trimSpace wait.dag
    require (dag ≠ "" ∧ isID dag) (.invalidDependsOnDag y.dagID t.id wait.dag)
    require (dag ≠ y.dagID) (.dependsOnOwnDag y.dagID t.id)
    let offset := canonicalOffset (trimSpace wait.offset)
    require (lib.validOffset offset) (.invalidOffset y.dagID t.id wait.offset)
    require (Within maxDurationSeconds wait.timeout) (.dependsTimeout y.dagID t.id)
    let onTimeout := orDefault (trimSpace wait.onTimeout) "fail"
    require (onTimeout = "fail" ∨ onTimeout = "skip") (.invalidOnTimeout y.dagID t.id)
    return some { dag, offset, timeout := wait.timeout, onTimeout }

/-- The deadlines and the retries. Only a delay that the task sets itself is held to 30 days. -/
def checkRetries : Except ParseError Unit := do
  require (Within maxDurationSeconds t.timeout ∧ Within maxDurationSeconds t.sla) (.taskDeadlines y.dagID t.id)
  require (validRetryBackoff t.retryBackoff) (.invalidRetryBackoff y.dagID t.id t.retryBackoff)
  require (0 ≤ t.retryDelayMax) (.negativeDelayMax y.dagID t.id)
  require ((∀ delay ∈ t.retryDelay, delay ≤ maxDelaySec) ∧ t.retryDelayMax ≤ maxDelaySec) (.delayTooLong y.dagID t.id)
  require (Within maxRetries (retriesOf y t)) (.retries y.dagID t.id)
  require (0 ≤ retryDelayOf y t) (.negativeDelay y.dagID t.id)

/-- An http task has a request, every other one a command. -/
def parseHTTP : Except ParseError (Option HTTPSpec) :=
  if typeOf t = "http" then do
    let spec ← demand (t.http.filter fun spec => trimSpace spec.url ≠ "") (.httpURL y.dagID t.id)
    requireEach spec.expectedStatus (fun code => 100 ≤ code ∧ code ≤ 599) (.expectedStatus y.dagID t.id)
    require (spec.url.utf8ByteSize ≤ 8192 ∧ spec.body.utf8ByteSize ≤ maxCommandBytes ∧ spec.headers.length ≤ 100 ∧
      spec.expectedStatus.length ≤ 100) (.httpLimits y.dagID t.id)
    return some { spec with url := trimSpace spec.url }
  else do
    require (t.http = none) (.httpType y.dagID t.id)
    -- a subdag task runs no command, and needs one here
    require (t.command ≠ "") (.emptyCommand y.dagID t.id)
    return none

def taskOf (dependsOnDag : Option CrossWait) (http : Option HTTPSpec) : ParsedTask where
  id := t.id
  type := typeOf t
  command := t.command
  deps := t.deps
  pool := poolOf t
  priority := t.priority
  retries := retriesOf y t
  retryDelay := retryDelayOf y t
  retryBackoff := t.retryBackoff
  retryDelayMax := t.retryDelayMax
  timeout := t.timeout
  sla := t.sla
  triggerRule := ruleOf t
  workerGroup := groupOf y t
  dependsOnDag
  subdag := trimSpace t.subdag
  when_ := trimSpace t.when_
  http
  conn := trimSpace t.conn
  project := trimSpace t.project

def parseTask (lib : Library) (seen : List String) (total : Nat) : Except ParseError ParsedTask := do
  checkTaskID y t seen
  checkShape y t total
  checkPlacement y t
  let dependsOnDag ← parseDependsOnDag y t lib
  checkRetries y t
  let http ← parseHTTP y t
  require (typeOf t ≠ "sql" ∨ trimSpace t.conn ≠ "") (.sqlConn y.dagID t.id)
  return taskOf y t dependsOnDag http

end Task

def parseTasks (lib : Library) (y : DagYAML) : List String → Nat → List TaskYAML → Except ParseError (List ParsedTask)
  | _, _, [] => .ok []
  | seen, total, t :: ts => do
    let task ← parseTask y t lib seen total
    let rest ← parseTasks lib y (t.id :: seen) (total + t.deps.length) ts
    return task :: rest

/-- What the checks on dependencies look at. -/
def ParsedTask.node (task : ParsedTask) : Task := { id := task.id, deps := task.deps }

def checkGraph (dag : String) (tasks : List ParsedTask) : Except ParseError Unit := do
  let nodes := tasks.map (·.node)
  (checkAllDeps (nodes.map (·.id)) nodes).mapError (.dependency dag)
  (detectCycle nodes).mapError (.dependency dag)

/-! ### The whole definition -/

def dagOf (raw : String) (y : DagYAML) (startDate : Time) (triggerAfter triggerOnEvent : List String) (notify : Notify)
    (tasks : List ParsedTask) : ParsedDAG where
  dagID := y.dagID
  schedule := y.schedule
  timezone := trimSpace y.timezone
  startDate
  catchup := y.catchup
  maxActiveRuns := activeRuns y.maxActiveRuns
  maxActiveTasks := y.maxActiveTasks
  executionPolicy := canonicalPolicy (trimSpace y.executionPolicy)
  defaultRetries := y.defaultRetries
  sla := y.sla
  dagrunTimeout := y.dagrunTimeout
  definitionYAML := raw
  triggerAfter
  triggerOnEvent
  notify
  tasks

/-- `Parse` on a document that is read. -/
def build (lib : Library) (now : Time) (raw : String) (y : DagYAML) : Except ParseError ParsedDAG := do
  let startDate ← checkHeader lib now y
  let triggerAfter ← parseTriggerAfter y
  let triggerOnEvent ← parseTriggerOnEvent y
  let notify ← parseNotify y.dagID y.notify
  let expanded ← expandForeach lib y.dagID y.tasks
  let tasks ← parseTasks lib y [] 0 expanded
  checkGraph y.dagID tasks
  return dagOf raw y startDate triggerAfter triggerOnEvent notify tasks

def parse (lib : Library) (now : Time) (raw : String) : Except ParseError ParsedDAG := do
  require (raw ≠ "") .emptyDefinition
  require (raw.utf8ByteSize ≤ maxDefinitionBytes) .definitionTooLong
  let y ← demand (lib.decode raw) .yaml
  build lib now raw y

/-! ### What is accepted -/

section Header

variable {lib : Library} {y : DagYAML}

/-- The conditions of `checkHeader` on a document, but for its start date. -/
structure Header (lib : Library) (y : DagYAML) : Prop where
  dagID : y.dagID ≠ ""
  short : fitsIdentifier y.dagID
  pattern : idPattern y.dagID
  timezone : trimSpace y.timezone = "" ∨ lib.loadLocation (trimSpace y.timezone)
  schedule : y.schedule = "" ∨ lib.parseSchedule y.schedule (trimSpace y.timezone)
  maxActiveRuns : Within maxActiveRuns y.maxActiveRuns
  maxActiveTasks : Within maxTasks y.maxActiveTasks
  executionPolicy : validExecutionPolicy (trimSpace y.executionPolicy)
  defaultRetries : Within maxRetries y.defaultRetries
  defaultRetryDelay : Within maxDurationSeconds y.defaultRetryDelay
  deadlines : Within maxDurationSeconds y.sla ∧ Within maxDurationSeconds y.dagrunTimeout
  tasks : y.tasks.length ≤ maxTasks
  triggerAfter : y.triggerAfter.length ≤ maxTasks

theorem checkHeader_eq_ok {now start : Time} :
    checkHeader lib now y = .ok start ↔ Header lib y ∧ parseStartDate lib now y.startDate (trimSpace y.timezone) = some start := by
  simp only [checkHeader, bind_eq_ok, require_eq_ok, demand_eq_ok, pure_eq_ok, exists_and_left, exists_const]
  constructor
  · rintro ⟨a, b, c, d, e, f, g, h, found, date, i, j, k, l, m, rfl⟩
    exact ⟨⟨a, b, c, d, e, f, g, h, i, j, k, l, m⟩, date⟩
  · rintro ⟨⟨a, b, c, d, e, f, g, h, i, j, k, l, m⟩, date⟩
    exact ⟨a, b, c, d, e, f, g, h, start, date, i, j, k, l, m, rfl⟩

/-- The clock only serves as the start date where none is written. -/
theorem parseStartDate_isSome {now start : Time} {date timezone : String} (read : parseStartDate lib now date timezone = some start)
    (later : Time) : ∃ start, parseStartDate lib later date timezone = some start := by
  unfold parseStartDate at read ⊢
  split
  · exact ⟨_, rfl⟩
  · rename_i given
    rw [if_neg given] at read
    exact ⟨start, read⟩

end Header

section Lists

variable {valid : String → Bool} {invalid duplicate : String → ParseError}

theorem collect_eq {seen names out : List String} (ok : collect valid invalid duplicate seen names = .ok out) :
    out = names.filter (· ≠ "") := by
  induction names generalizing seen out with
  | nil =>
    cases ok
    rfl
  | cons name names ih =>
    unfold collect at ok
    split at ok
    · rename_i empty
      rw [ih ok, empty]
      rfl
    · rename_i given
      simp only [bind_eq_ok, require_eq_ok, pure_eq_ok, exists_and_left, exists_const] at ok
      obtain ⟨_, _, rest, collected, rfl⟩ := ok
      rw [ih collected, List.filter_cons_of_pos (by simpa using given)]

/-- The names that are collected are collected again as they are. -/
theorem collect_again {seen names out : List String} (ok : collect valid invalid duplicate seen names = .ok out) :
    collect valid invalid duplicate seen out = .ok out := by
  induction names generalizing seen out with
  | nil =>
    cases ok
    rfl
  | cons name names ih =>
    unfold collect at ok
    split at ok
    · exact ih ok
    · rename_i given
      simp only [bind_eq_ok, require_eq_ok, pure_eq_ok, exists_and_left, exists_const] at ok
      obtain ⟨isValid, fresh, rest, collected, rfl⟩ := ok
      unfold collect
      rw [if_neg given]
      simp only [bind_eq_ok, require_eq_ok, pure_eq_ok, exists_and_left, exists_const]
      exact ⟨isValid, fresh, rest, ih collected, rfl⟩

theorem isNotifyEvent_trimSpace {event : String} (listed : isNotifyEvent event = true) : trimSpace event = event := by
  simp only [isNotifyEvent, Bool.or_eq_true, beq_iff_eq] at listed
  rcases listed with rfl | rfl <;> decide +kernel

theorem parseNotifyOn_events {dag : String} {on out : List String} (ok : parseNotifyOn dag on = .ok out) :
    ∀ event ∈ out, isNotifyEvent event = true := by
  induction on generalizing out with
  | nil =>
    cases ok
    simp
  | cons event on ih =>
    unfold parseNotifyOn at ok
    split at ok
    · rename_i listed
      simp only [bind_eq_ok, pure_eq_ok] at ok
      obtain ⟨rest, parsed, rfl⟩ := ok
      exact List.forall_mem_cons.mpr ⟨listed, ih parsed⟩
    · simp only [bind_eq_ok, require_eq_ok, exists_const] at ok
      exact ih ok.2

theorem parseNotifyOn_listed {dag : String} {on : List String} (listed : ∀ event ∈ on, isNotifyEvent event = true) :
    parseNotifyOn dag on = .ok on := by
  induction on with
  | nil => rfl
  | cons event on ih =>
    obtain ⟨first, rest⟩ := List.forall_mem_cons.mp listed
    unfold parseNotifyOn
    rw [isNotifyEvent_trimSpace first, if_pos first, ih rest]
    rfl

/-- The conditions of `parseNotify` on the parsed settings. -/
structure Notifies (n : Notify) : Prop where
  url : trimSpace n.url = n.url
  shortURL : n.url.utf8ByteSize ≤ 8192
  on : ∀ event ∈ n.on, isNotifyEvent event = true
  scheme : n.url = "" ∨ hasScheme n.url
  format : n.format ∈ notifyFormats
  group : trimSpace n.group = n.group
  shortGroup : n.group.utf8ByteSize ≤ 128

theorem parseNotify_ok {dag : String} {notify out : Notify} (ok : parseNotify dag notify = .ok out) : Notifies out := by
  simp only [parseNotify, bind_eq_ok, require_eq_ok, pure_eq_ok, exists_and_left, exists_const] at ok
  obtain ⟨shortURL, on, parsed, scheme, format, shortGroup, rfl⟩ := ok
  exact ⟨trimSpace_trimSpace _, shortURL, parseNotifyOn_events parsed, scheme, format, trimSpace_trimSpace _, shortGroup⟩

theorem Notifies.again {n : Notify} (accepted : Notifies n) (dag : String) : parseNotify dag n = .ok n := by
  simp only [parseNotify, bind_eq_ok, require_eq_ok, pure_eq_ok, exists_and_left, exists_const]
  refine ⟨?_, n.on, parseNotifyOn_listed accepted.on, ?_, accepted.format, ?_, ?_⟩
  · rw [accepted.url]
    exact accepted.shortURL
  · rw [accepted.url]
    exact accepted.scheme
  · rw [accepted.group]
    exact accepted.shortGroup
  · rw [accepted.url, accepted.group]

end Lists

section Tasks

variable {lib : Library} {y : DagYAML} {t : TaskYAML}

/-- A task is accepted when it passes every check, and its fields are what the checks have found. -/
theorem parseTask_eq_ok {seen : List String} {total : Nat} {task : ParsedTask} :
    parseTask y t lib seen total = .ok task ↔
      checkTaskID y t seen = .ok () ∧ checkShape y t total = .ok () ∧ checkPlacement y t = .ok () ∧
        parseDependsOnDag y t lib = .ok task.dependsOnDag ∧ checkRetries y t = .ok () ∧ parseHTTP y t = .ok task.http ∧
          (typeOf t ≠ "sql" ∨ trimSpace t.conn ≠ "") ∧ task = taskOf y t task.dependsOnDag task.http := by
  simp only [parseTask, bind_eq_ok, require_eq_ok, pure_eq_ok, exists_and_left, exists_const]
  constructor
  · rintro ⟨⟨⟩, id, ⟨⟩, shape, ⟨⟩, placement, wait, waits, ⟨⟩, retries, http, request, conn, rfl⟩
    exact ⟨id, shape, placement, waits, retries, request, conn, rfl⟩
  · rintro ⟨id, shape, placement, waits, retries, request, conn, same⟩
    exact ⟨(), id, (), shape, (), placement, _, waits, (), retries, _, request, conn, same.symm⟩

theorem parseTask_id {seen : List String} {total : Nat} {task : ParsedTask} (ok : parseTask y t lib seen total = .ok task) :
    task.id = t.id ∧ task.deps = t.deps := by
  rw [(parseTask_eq_ok.mp ok).2.2.2.2.2.2.2]
  exact ⟨rfl, rfl⟩

theorem forall_mem_of_forall₂ {A B : Type} {R : A → B → Prop} {P : A → Prop} {Q : B → Prop} {as : List A} {bs : List B}
    (related : List.Forall₂ R as bs) (agree : ∀ a b, R a b → (P a ↔ Q b)) : (∀ a ∈ as, P a) ↔ ∀ b ∈ bs, Q b := by
  induction related with
  | nil => simp
  | cons first rest ih => rw [List.forall_mem_cons, List.forall_mem_cons, agree _ _ first, ih]

/-- Every task that is listed has been accepted, after the ones before it. -/
theorem parseTasks_forall {ts : List TaskYAML} {seen : List String} {total : Nat} {tasks : List ParsedTask}
    (ok : parseTasks lib y seen total ts = .ok tasks) :
    List.Forall₂ (fun t task => ∃ seen total, parseTask y t lib seen total = .ok task) ts tasks := by
  induction ts generalizing seen total tasks with
  | nil =>
    cases ok
    exact .nil
  | cons t ts ih =>
    simp only [parseTasks, bind_eq_ok, pure_eq_ok] at ok
    obtain ⟨task, parsed, rest, others, rfl⟩ := ok
    exact .cons ⟨seen, total, parsed⟩ (ih others)

/-- No id is listed twice. -/
theorem parseTasks_nodup {ts : List TaskYAML} {seen : List String} {total : Nat} {tasks : List ParsedTask}
    (ok : parseTasks lib y seen total ts = .ok tasks) : (ts.map (·.id)).Nodup ∧ ∀ t ∈ ts, t.id ∉ seen := by
  induction ts generalizing seen total tasks with
  | nil => simp
  | cons t ts ih =>
    simp only [parseTasks, bind_eq_ok, pure_eq_ok] at ok
    obtain ⟨task, parsed, rest, others, rfl⟩ := ok
    have checked := (parseTask_eq_ok.mp parsed).1
    simp only [checkTaskID, bind_eq_ok, require_eq_ok, exists_and_left, exists_const] at checked
    obtain ⟨unique, apart⟩ := ih others
    refine ⟨List.nodup_cons.mpr ⟨?_, unique⟩, List.forall_mem_cons.mpr ⟨checked.2.2, ?_⟩⟩
    · intro again
      obtain ⟨u, listed, same⟩ := List.mem_map.mp again
      exact apart u listed (same ▸ List.mem_cons_self)
    · exact fun u listed before => apart u listed (List.mem_cons_of_mem _ before)


end Tasks

section Definition

variable {lib : Library} {now : Time} {raw : String} {y : DagYAML} {d : ParsedDAG}

theorem parse_eq_ok (read : lib.decode raw = some y) :
    parse lib now raw = .ok d ↔ raw ≠ "" ∧ raw.utf8ByteSize ≤ maxDefinitionBytes ∧ build lib now raw y = .ok d := by
  simp only [parse, bind_eq_ok, require_eq_ok, demand_eq_ok, read, Option.some.injEq, exists_eq_left', exists_and_left, exists_const]

/-- What is accepted of a document without fan-out. -/
structure Accepted (lib : Library) (now : Time) (raw : String) (y : DagYAML) (d : ParsedDAG) : Prop where
  header : Header lib y
  startDate : parseStartDate lib now y.startDate (trimSpace y.timezone) = some d.startDate
  triggerAfter : parseTriggerAfter y = .ok d.triggerAfter
  triggerOnEvent : parseTriggerOnEvent y = .ok d.triggerOnEvent
  notify : parseNotify y.dagID y.notify = .ok d.notify
  tasks : parseTasks lib y [] 0 y.tasks = .ok d.tasks
  graph : checkGraph y.dagID d.tasks = .ok ()
  same : d = dagOf raw y d.startDate d.triggerAfter d.triggerOnEvent d.notify d.tasks

theorem build_eq_ok (plain : ∀ t ∈ y.tasks, t.foreach = []) : build lib now raw y = .ok d ↔ Accepted lib now raw y d := by
  have unchanged : expandForeach lib y.dagID y.tasks = .ok y.tasks := if_pos plain
  simp only [build, bind_eq_ok, pure_eq_ok, unchanged, checkHeader_eq_ok, Except.ok.injEq, exists_eq_left']
  constructor
  · rintro ⟨start, ⟨header, date⟩, after, afters, events, keys, notify, notifies, tasks, parsed, ⟨⟩, graph, rfl⟩
    exact ⟨header, date, afters, keys, notifies, parsed, graph, rfl⟩
  · rintro ⟨header, date, afters, keys, notifies, parsed, graph, same⟩
    exact ⟨_, ⟨header, date⟩, _, afters, _, keys, _, notifies, _, parsed, (), graph, same.symm⟩

/-- The same definition is accepted at every time, and only its start date may differ. -/
theorem Accepted.at_time (accepted : Accepted lib now raw y d) (later : Time) :
    ∃ start, Accepted lib later raw y { d with startDate := start } := by
  obtain ⟨start, date⟩ := parseStartDate_isSome accepted.startDate later
  refine ⟨start, accepted.header, date, accepted.triggerAfter, accepted.triggerOnEvent, accepted.notify, accepted.tasks,
    accepted.graph, ?_⟩
  conv => lhs; rw [accepted.same]
  rfl

end Definition

end Cronova.Parser
