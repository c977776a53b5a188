import Cronova.Scheduler.Common

/-! Creation of runs by the schedule and by operators: `createDueRuns` with
`scheduleAnchor`, `TriggerManualPriority` and `Backfill`. -/

set_option autoImplicit false

namespace Cronova.Scheduler

open Model Store Process
open Calendar (Time)

variable (env : Env)

/-! ### Scheduled runs -/

/-- `scheduleAnchor`. -/
def scheduleAnchor (d : DAG) : Act Time := do
  match ← (latestScheduledRun d.dagID).attempt with
  | .ok r => pure r.logicalDate
  | .error _ => if d.catchup then pure (d.startDate - Calendar.second) else perform .bootTime

def scheduledRun (d : DAG) (next : Time) (snapshot : DAG) : DagRun :=
  snapshotRun env
    { runID := .logical d.dagID next, dagID := d.dagID, logicalDate := next, triggerType := .schedule } snapshot

/-- The tick-local view of the number of active runs per DAG, or that the snapshot failed. -/
structure ActiveRuns where
  count : DagID → Int
  complete : Bool

def ActiveRuns.set (active : ActiveRuns) (dag : DagID) (n : Int) : ActiveRuns :=
  { active with count := Function.update active.count dag n }

/-- `activeBy[d.DagID]`, which a failed snapshot reads DAG by DAG. -/
def activeRunsOf (active : ActiveRuns) (dag : DagID) : Act (Option ActiveRuns) :=
  if active.complete then pure (some active) else do
    match ← (countActiveRuns dag).attempt with
    | .ok n => pure (some (active.set dag n))
    | .error _ => pure none

/-- One round of `createDueRuns`. -/
def createDueRun (now : Time) (active : ActiveRuns) (d : DAG) : Act ActiveRuns := do
  if d.schedule = "" ∨ d.tasks.isEmpty then pure active else
  match ← cachedDAG d.dagID with
  | none => pure active
  | some cached =>
    match cached.schedule with
    | none => pure active
    | some schedule =>
      if cached.dag.paused then pure active else
      let next := schedule (← scheduleAnchor d)
      if now < next then pure active else
      match ← activeRunsOf active d.dagID with
      | none => pure active
      | some active =>
        if active.count d.dagID ≥ d.maxActiveRuns then pure active else
        match ← (createDagRunBounded (scheduledRun env d next cached.dag) env.maxQueuedRunsGlobal).attempt with
        | .error _ => pure active
        | .ok _ => pure (active.set d.dagID (active.count d.dagID + 1))

/-- `createDueRuns`. -/
def createDueRuns (now : Time) : Act Unit := do
  let active ← match ← countActiveRunsByDag.attempt with
    | .ok count => pure ⟨count, true⟩
    | .error _ => pure ⟨fun _ => 0, false⟩
  let dags ← perform .allDAGs
  let _ ← Prog.fold (createDueRun env now) dags active
  pure ()

/-! ### Operator runs -/

/-- `TriggerManualPriority`. -/
def triggerManual (dag : DagID) (params : Params) (priority : Int) : Act Unit := do
  match ← cachedDAG dag with
  | none => .fail (.store .notFound)
  | some cached =>
    if cached.dag.tasks.isEmpty then .fail .noTasks else
    let now ← timeNow
    let run : DagRun :=
      { runID := .manual dag now, dagID := dag, logicalDate := now, triggerType := .manual, params,
        priority := min 100 (max (-100) priority) }
    createManualDagRunBounded (snapshotRun env run cached.dag) env.maxManualQueuePerDAG env.maxManualQueueGlobal

def maxBackfillRuns : Nat := 500

/-- The zero `time.Time`, 0001-01-01T00:00:00Z. -/
def zeroTime : Time := -62135596800 * Calendar.second

/-- The enumeration of the window. One period more than the limit refuses the request. -/
def backfillPeriods (next : Time → Time) (until_ : Time) : Nat → Time → Option (List Time)
  | fuel, t =>
    if t = zeroTime ∨ until_ < t then some [] else
    match fuel with
    | 0 => none
    | fuel + 1 => (backfillPeriods next until_ fuel (next t)).map (t :: ·)

def backfillRun (d : DAG) (t : Time) : DagRun :=
  snapshotRun env
    { runID := .backfill d.dagID (t / Calendar.second), dagID := d.dagID, logicalDate := t, triggerType := .backfill } d

/-- `Backfill`. -/
def backfill (dag : DagID) (from_ until_ : Time) : Act Unit := do
  match ← cachedDAG dag with
  | none => .fail (.store .notFound)
  | some cached =>
    if cached.dag.tasks.isEmpty then .fail .noTasks else
    if cached.dag.schedule = "" then .fail .noSchedule else
    match env.parseSchedule cached.dag.schedule cached.dag.timezone with
    | none => .fail .badSchedule
    | some next =>
      let now ← timeNow
      let until_ := min until_ now
      if from_ < until_ then
        match backfillPeriods next until_ maxBackfillRuns (next (from_ - Calendar.second)) with
        | none => .fail .tooManyPeriods
        | some periods => Prog.forEach periods fun t => do
          match ← (createDagRunBounded (backfillRun env cached.dag t) env.maxQueuedRunsGlobal).attempt with
          | .ok _ => pure ()
          | .error (.store .alreadyExists) => pure ()
          | .error e => .fail e
      else .fail .emptyWindow

end Cronova.Scheduler
