import Cronova.Scheduler.Common

/-! Edits of DAG definitions: `registerDAG`, `CreateDAG`, `LoadDAGs`, `ReloadDAGs`, `DeleteDAG` and
`SetPaused`. The version history and the YAML files are written and never read back here. -/

set_option autoImplicit false

namespace Cronova.Scheduler

open Model Store Process
open Calendar (Time)

variable (env : Env)

/-- `ensurePools`: a pool that a task names is created with the default number of slots. -/
def ensurePools (d : DAG) : Act Unit := do
  let _ ← Prog.fold (fun seen t =>
    if t.pool = "" ∨ t.pool ∈ seen then pure seen else do
      match ← (getPool t.pool).attempt with
      | .ok _ => pure (t.pool :: seen)
      | .error (.store .notFound) =>
        upsertPool ⟨t.pool, defaultPoolSlots⟩
        pure (t.pool :: seen)
      | .error e => .fail e) d.tasks []
  pure ()

/-- The schedule of a definition; only a cron text that does not parse is an error. -/
def scheduleOf (d : DAG) : Act (Option (Time → Time)) :=
  if d.schedule = "" then pure none else
  match env.parseSchedule d.schedule d.timezone with
  | some schedule => pure (some schedule)
  | none => .fail .badSchedule

/-- `registerDAG`. -/
def registerDAG (d : DAG) : Act Unit := do
  upsertDAG d
  ensurePools d
  replaceDagDependencies d.dagID d.triggerAfter
  let schedule ← scheduleOf env d
  perform (.publishDAG d schedule)

/-- `CreateDAG`. -/
def createDAG (yaml : String) : Act Unit := do
  let d ← parseDefinition env yaml
  registerDAG env d

/-- One file of `loadDAGFiles`: a deleted DAG stays deleted. -/
def loadDAG (raw : String) : Act Unit :=
  match env.parse raw with
  | none => pure ()
  | some d => do
    match ← (getDAG d.dagID).attempt with
    | .error _ => logged (registerDAG env d)
    | .ok row => if row.deleted then pure () else logged (registerDAG env d)

/-- `LoadDAGs`. -/
def loadDAGs (files : List String) : Act Unit := Prog.forEach files (loadDAG env)

/-- One file of `loadDAGFiles` with `skipUnchanged`: an unchanged DAG is left alone, too. -/
def reloadDAG (raw : String) : Act Unit :=
  match env.parse raw with
  | none => pure ()
  | some d => do
    match ← (getDAG d.dagID).attempt with
    | .error _ => logged (registerDAG env d)
    | .ok row =>
      if row.deleted then pure () else
      if row.definitionYAML ≠ raw then logged (registerDAG env d) else
      match ← cachedDAG d.dagID with
      | some _ => pure ()
      | none => logged (registerDAG env d)

/-- `ReloadDAGs`. -/
def reloadDAGs (files : List String) : Act Unit := Prog.forEach files (reloadDAG env)

/-- `DeleteDAG`. -/
def deleteDAG (dag : DagID) : Act Unit := do
  let active ← countActiveRuns dag
  if active > 0 then .fail .activeRuns else
  softDeleteDAG dag
  perform (.evictDAG dag)

/-- `SetPaused`. -/
def setPaused (dag : DagID) (paused : Bool) : Act Unit := do
  setDAGPaused dag paused
  perform (.pauseCached dag paused)

end Cronova.Scheduler
