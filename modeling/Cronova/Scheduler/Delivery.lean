import Cronova.Scheduler.Common

/-! Delivery of durable events: `processPendingDependencyEvents` with `triggerDownstreams`,
`processPendingExternalEvents` and the publication of external events. -/

set_option autoImplicit false

namespace Cronova.Scheduler

open Model Store Process
open Calendar (Time)

variable (env : Env)

/-! ### Dependency events -/

/-- Whether one upstream of a join is satisfied at the date. -/
def upstreamSucceeded (date : Time) (up : DagID) : Act Bool := do
  match ← cachedDAG up with
  | none => pure false
  | some _ =>
    match ← (getDagRunByLogicalDate up date).attempt with
    | .ok r => pure (r.state == .success)
    | .error (.store .notFound) => pure false
    | .error e => .fail e

/-- The loop over the upstreams, which stops at the first one that is not satisfied. -/
def allUpstreamsSucceeded (date : Time) : List DagID → Act Bool
  | [] => pure true
  | up :: ups => do
    if ← upstreamSucceeded date up then allUpstreamsSucceeded date ups else pure false

def dependencyRun (d : DAG) (dn : DagID) (date : Time) : DagRun :=
  snapshotRun env { runID := .logical dn date, dagID := dn, logicalDate := date, triggerType := .dependency } d

/-- One downstream of `triggerDownstreams`; the result says that its run is deferred. -/
def triggerDownstream (date : Time) (dn : DagID) : Act Bool := do
  let ups ← listUpstreams dn
  if ← allUpstreamsSucceeded date ups then
    match ← cachedDAG dn with
    | none => pure false
    | some cached =>
      if cached.dag.tasks.isEmpty then pure false else
      match ← (createDagRunBounded (dependencyRun env cached.dag dn date) env.maxQueuedRunsGlobal).attempt with
      | .ok _ => pure false
      | .error (.store .queueFull) => pure true
      | .error (.store .alreadyExists) => pure false
      | .error (.store .notFound) => pure false
      | .error e => .fail e
  else pure false

/-- `triggerDownstreams`. -/
def triggerDownstreams (upstream : DagRun) : Act Bool := do
  let downs ← listDownstreams upstream.dagID
  Prog.fold (fun deferred dn => do
    let more ← triggerDownstream env upstream.logicalDate dn
    pure (deferred || more)) downs false

/-- One round of `processPendingDependencyEvents`. -/
def deliverDependencyEvent (event : Event) (run : RunID) : Act Unit := do
  match ← (getDagRun run).attempt with
  | .error (.store .notFound) => logged (consumeEvent event.id)
  | .error _ => pure ()
  | .ok upstream =>
    if upstream.state ≠ .success then
      -- a later failed mark invalidates the signal; a run that is active again keeps it
      if upstream.state.isTerminal then logged (consumeEvent event.id) else pure ()
    else
      match ← (triggerDownstreams env upstream).attempt with
      | .error _ => pure ()
      | .ok true => pure ()
      | .ok false => logged (consumeEvent event.id)

/-- `processPendingDependencyEvents`. -/
def processPendingDependencyEvents : Act Unit := do
  match ← (listPendingEvents .dependency 1000).attempt with
  | .error _ => pure ()
  | .ok events => Prog.forEach events fun event =>
    match event.key with
    | .run run => deliverDependencyEvent env event run
    -- a dependency event is keyed by a run id; no run has a free text as its id
    | .text _ => logged (consumeEvent event.id)

/-! ### External events -/

/-- `eventRunParams`. -/
def eventRunParams (key payload : String) : Params :=
  let fields := if payload = "" then [] else (env.decodePayload payload).getD []
  if fields.any (·.1 == "event_key") then fields else fields ++ [("event_key", key)]

def eventRun (d : DAG) (event : Event) (key : String) (date : Time) : DagRun :=
  snapshotRun env
    { runID := .event d.dagID event.id, dagID := d.dagID, logicalDate := date, triggerType := .event,
      params := eventRunParams env key event.payload } d

/-- One subscriber of an event; the result says that its run is deferred. -/
def triggerSubscriber (event : Event) (key : String) (dag : DagID) : Act Bool := do
  match ← cachedDAG dag with
  | none => pure false
  | some cached =>
    -- paused and empty subscribers simply miss the event
    if cached.dag.paused || cached.dag.tasks.isEmpty then pure false else
    let date ← timeNow
    match ← (createDagRunBounded (eventRun env cached.dag event key date) env.maxQueuedRunsGlobal).attempt with
    | .ok _ => pure false
    | .error (.store .alreadyExists) => pure false
    | .error _ => pure true

/-- The subscribers of a key, in the order in which the cache was read. -/
def subscribers (dags : List DAG) (key : String) : List DagID :=
  dags.flatMap fun d => (d.triggerOnEvent.filter (· == key)).map fun _ => d.dagID

/-- One round of `processPendingExternalEvents`. -/
def deliverExternalEvent (dags : List DAG) (event : Event) (key : String) : Act Unit := do
  let deferred ← Prog.fold (fun deferred dag => do
    let more ← triggerSubscriber env event key dag
    pure (deferred || more)) (subscribers dags key) false
  if deferred then pure () else logged (consumeEvent event.id)

/-- `processPendingExternalEvents`. An event without subscriber is consumed at once, which is
what the round does with an empty list. -/
def processPendingExternalEvents : Act Unit := do
  match ← (listPendingEvents .external 1000).attempt with
  | .error _ => pure ()
  | .ok [] => pure ()
  | .ok events =>
    let dags ← perform .allDAGs
    Prog.forEach events fun event =>
      match event.key with
      | .text key => deliverExternalEvent env dags event key
      | .run run => deliverExternalEvent env dags event run.text

/-- `PublishEvent` for an external key. -/
def publishExternalEvent (key payload : String) : Act Unit := do
  let _ ← ask (.publishEvent .external (.text key) payload) fun reply => reply
  pure ()

end Cronova.Scheduler
