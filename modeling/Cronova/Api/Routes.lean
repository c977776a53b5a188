import Cronova.Http.Mux

/-! The routes of the API (`Handler` in `internal/api/server.go`) and what their handlers change. -/

set_option autoImplicit false

namespace Cronova.Api

open Http

/-- The handlers, and the files of the console. -/
inductive Handler where
  | getInfo | overview | listDAGs | dagGraph | schedulePreview | createDAG | buildDAG | validateDAG | getDAG
  | deleteDAG | triggerDAG | backfillDAG | publishEvent | setDagHook | getDagHook | deleteDagHook | hookTrigger
  | joinWorker | listWorkers | drainWorker | removeWorker | createWorkerToken | pauseDAG | listRuns | taskDurations
  | listDagVersions | restoreDagVersion | getRun | runTimeline | holdRun | releaseRun | cancelRun | retryRun
  | retryTask | markTask | markRun | getLog | streamLog | listPools | setPool | listVariables | setVariable
  | deleteVariable | listAlertGroups | setAlertGroup | deleteAlertGroup | listConnections | setConnection
  | deleteConnection | listProjects | getProject | uploadProject | deleteProject | login | logout | me | healthz
  | readyz | metrics | listAudit | listTokens | createToken | deleteToken | openAPISpec | docsPage | web
  deriving DecidableEq

def apiRoutes : List (Route Handler) := [
  ⟨"GET", ["api", "info"], .getInfo⟩,
  ⟨"GET", ["api", "overview"], .overview⟩,
  ⟨"GET", ["api", "dags"], .listDAGs⟩,
  ⟨"GET", ["api", "dag-graph"], .dagGraph⟩,
  ⟨"GET", ["api", "schedule", "preview"], .schedulePreview⟩,
  ⟨"POST", ["api", "dags"], .createDAG⟩,
  ⟨"POST", ["api", "dags", "build"], .buildDAG⟩,
  ⟨"POST", ["api", "dags", "validate"], .validateDAG⟩,
  ⟨"GET", ["api", "dags", .wild "id"], .getDAG⟩,
  ⟨"DELETE", ["api", "dags", .wild "id"], .deleteDAG⟩,
  ⟨"POST", ["api", "dags", .wild "id", "trigger"], .triggerDAG⟩,
  ⟨"POST", ["api", "dags", .wild "id", "backfill"], .backfillDAG⟩,
  ⟨"POST", ["api", "events"], .publishEvent⟩,
  ⟨"POST", ["api", "dags", .wild "id", "hook"], .setDagHook⟩,
  ⟨"GET", ["api", "dags", .wild "id", "hook"], .getDagHook⟩,
  ⟨"DELETE", ["api", "dags", .wild "id", "hook"], .deleteDagHook⟩,
  ⟨"POST", ["api", "hooks", .wild "id", .wild "secret"], .hookTrigger⟩,
  ⟨"POST", ["api", "workers", "join"], .joinWorker⟩,
  ⟨"GET", ["api", "workers"], .listWorkers⟩,
  ⟨"POST", ["api", "workers", .wild "id", "drain"], .drainWorker⟩,
  ⟨"DELETE", ["api", "workers", .wild "id"], .removeWorker⟩,
  ⟨"POST", ["api", "worker-tokens"], .createWorkerToken⟩,
  ⟨"POST", ["api", "dags", .wild "id", "pause"], .pauseDAG⟩,
  ⟨"GET", ["api", "dags", .wild "id", "runs"], .listRuns⟩,
  ⟨"GET", ["api", "dags", .wild "id", "task-durations"], .taskDurations⟩,
  ⟨"GET", ["api", "dags", .wild "id", "versions"], .listDagVersions⟩,
  ⟨"POST", ["api", "dags", .wild "id", "versions", .wild "hash", "restore"], .restoreDagVersion⟩,
  ⟨"GET", ["api", "runs", .wild "runID"], .getRun⟩,
  ⟨"GET", ["api", "runs", .wild "runID", "timeline"], .runTimeline⟩,
  ⟨"POST", ["api", "runs", .wild "runID", "hold"], .holdRun⟩,
  ⟨"POST", ["api", "runs", .wild "runID", "release"], .releaseRun⟩,
  ⟨"POST", ["api", "runs", .wild "runID", "cancel"], .cancelRun⟩,
  ⟨"POST", ["api", "runs", .wild "runID", "retry"], .retryRun⟩,
  ⟨"POST", ["api", "runs", .wild "runID", "tasks", .wild "taskID", "retry"], .retryTask⟩,
  ⟨"POST", ["api", "runs", .wild "runID", "tasks", .wild "taskID", "mark"], .markTask⟩,
  ⟨"POST", ["api", "runs", .wild "runID", "mark"], .markRun⟩,
  ⟨"GET", ["api", "tasks", .wild "tiID", "log"], .getLog⟩,
  ⟨"GET", ["api", "tasks", .wild "tiID", "log", "stream"], .streamLog⟩,
  ⟨"GET", ["api", "pools"], .listPools⟩,
  ⟨"POST", ["api", "pools", .wild "name"], .setPool⟩,
  ⟨"GET", ["api", "variables"], .listVariables⟩,
  ⟨"POST", ["api", "variables", .wild "key"], .setVariable⟩,
  ⟨"DELETE", ["api", "variables", .wild "key"], .deleteVariable⟩,
  ⟨"GET", ["api", "alert-groups"], .listAlertGroups⟩,
  ⟨"POST", ["api", "alert-groups", .wild "name"], .setAlertGroup⟩,
  ⟨"DELETE", ["api", "alert-groups", .wild "name"], .deleteAlertGroup⟩,
  ⟨"GET", ["api", "connections"], .listConnections⟩,
  ⟨"POST", ["api", "connections", .wild "id"], .setConnection⟩,
  ⟨"DELETE", ["api", "connections", .wild "id"], .deleteConnection⟩,
  ⟨"GET", ["api", "projects"], .listProjects⟩,
  ⟨"GET", ["api", "projects", .wild "name"], .getProject⟩,
  ⟨"POST", ["api", "projects", .wild "name"], .uploadProject⟩,
  ⟨"DELETE", ["api", "projects", .wild "name"], .deleteProject⟩,
  ⟨"POST", ["api", "login"], .login⟩,
  ⟨"POST", ["api", "logout"], .logout⟩,
  ⟨"GET", ["api", "me"], .me⟩,
  ⟨"GET", ["healthz"], .healthz⟩,
  ⟨"GET", ["readyz"], .readyz⟩,
  ⟨"GET", ["metrics"], .metrics⟩,
  ⟨"GET", ["api", "audit"], .listAudit⟩,
  ⟨"GET", ["api", "tokens"], .listTokens⟩,
  ⟨"POST", ["api", "tokens"], .createToken⟩,
  ⟨"DELETE", ["api", "tokens", .wild "id"], .deleteToken⟩,
  ⟨"GET", ["openapi.json"], .openAPISpec⟩,
  ⟨"GET", ["docs"], .docsPage⟩]

/-- The console is served for every method and path that nothing else takes. -/
def routes (web : Bool) : List (Route Handler) := apiRoutes ++ if web then [⟨none, [.rest], .web⟩] else []

/-- What a handler changes: the DAG or the run that the path names, or something that it finds
elsewhere. -/
inductive Target where
  | nothing
  | dag
  | run
  | elsewhere
  deriving DecidableEq

def Handler.target : Handler → Target
  | deleteDAG | triggerDAG | backfillDAG | pauseDAG | setDagHook | deleteDagHook | hookTrigger | restoreDagVersion => .dag
  | holdRun | releaseRun | cancelRun | retryRun | retryTask | markTask | markRun => .run
  | createDAG | buildDAG | publishEvent | joinWorker | drainWorker | removeWorker | createWorkerToken | setPool | setVariable |
    deleteVariable | setAlertGroup | deleteAlertGroup | setConnection | deleteConnection | uploadProject | deleteProject | createToken |
    deleteToken => .elsewhere
  -- `validateDAG` stores nothing, and the session of a login or a logout is the client's own
  | _ => .nothing

/-- The handlers that drive runs. -/
def Handler.drives : Handler → Bool
  | triggerDAG | backfillDAG | pauseDAG | publishEvent | hookTrigger | holdRun | releaseRun | cancelRun | retryRun | retryTask |
    markTask | markRun => true
  | _ => false

/-- The handlers that create, edit, delete or configure something. -/
def Handler.configures (h : Handler) : Bool := h.target ≠ .nothing && !h.drives

end Cronova.Api
