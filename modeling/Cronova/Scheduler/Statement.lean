import Cronova.Process.Contract
import Cronova.Store.Lifecycle

/-! The statements through which `internal/scheduler` acts: the store, the DAG cache, the
lock `finalizeMu`, the clock, the executors and `go`.

Between two statements of one goroutine any other goroutine may run; nothing else that
the scheduler computes is visible to another goroutine.
-/

set_option autoImplicit false

namespace Cronova.Scheduler

open Model Store Process
open Calendar (Time)

/-- The parts of the program that the model takes as given: the YAML parser, the hash, the
calendar arithmetic, the cron parser, the JSON decoder and the configured limits. -/
structure Env where
  parse : String → Option DAG
  hash : String → String
  shift : String → Time → String → Option Time
  parseSchedule : String → String → Option (Time → Time)
  decodePayload : String → Option Params
  maxManualQueuePerDAG : Int := 1000
  maxManualQueueGlobal : Int := 10000
  maxQueuedRunsGlobal : Int := 10000
  maxActiveRunsGlobal : Int := 1000
  maxConcurrentTasks : Int := 64

/-- An entry of the in-memory cache: the DAG and its parsed schedule. -/
structure CachedDAG where
  dag : DAG
  schedule : Option (Time → Time) := none

def CachedDAG.id (c : CachedDAG) : DagID := c.dag.dagID

@[reducible] def distinctIDs (a b : DagID) : Prop := a ≠ b

/-- The cache is a map from the id of a DAG to its entry. -/
abbrev Cache := Table CachedDAG.id distinctIDs

namespace Cache

def evict (cache : Cache) (dag : DagID) : Cache where
  rows := cache.rows.filter (·.id != dag)
  distinct := by
    apply List.Pairwise.sublist _ cache.distinct
    exact List.filter_sublist.map _

/-- Writing an entry of the map. -/
def publish (cache : Cache) (c : CachedDAG) : Cache where
  rows := (cache.evict c.id).rows ++ [c]
  distinct := by
    rw [List.map_append]
    refine List.pairwise_append.mpr ⟨(cache.evict c.id).distinct, List.pairwise_singleton _ _, ?_⟩
    intro id old new fresh
    obtain ⟨other, kept, rfl⟩ := List.mem_map.mp old
    obtain rfl : new = c.id := by simpa using fresh
    simpa [distinctIDs] using (List.mem_filter.mp kept).2

end Cache

/-- What holds `finalizeMu`. The lock itself has no name for its holder; the description is
for the reader and for the proofs. -/
inductive Section where
  | cancel (run : RunID)
  | retryTask (run : RunID) (task : TaskID)
  | retryRun (run : RunID)
  | markTask (run : RunID) (task : TaskID) (target : TaskState)
  | markRun (run : RunID) (target : RunState)
  | process (snapshot : DagRun)
  | admission

inductive Status where
  | running
  | exited (code : Int)
  | unknown
  deriving DecidableEq, Repr

/-- How an attempt ended, as a poll finally reports it. -/
inductive Outcome where
  | lost
  | exited (code : Int)
  deriving DecidableEq, Repr, Inhabited

inductive Launch where
  | started
  | noWorker
  | failed
  deriving DecidableEq, Repr, Inhabited

/-- A goroutine that the scheduler starts. -/
inductive Goroutine where
  | runTask (run : DagRun) (t : Task) (ti : TaskInstance)
  | awaitCompletion (ti : TaskInstance)

def Goroutine.instance : Goroutine → TaskInstance
  | runTask _ _ ti => ti
  | awaitCompletion ti => ti

inductive Op where
  | lock (what : Section)
  | unlock
  | now
  /-- Iteration over a map visits the keys in any order. -/
  | order (keys : List String)
  | cachedDAG (dag : DagID)
  | allDAGs
  | bootTime
  /-- The number of runs; it bounds the recursion of a cancellation. -/
  | census
  | getDAG (dag : DagID)
  | getDagRun (run : RunID)
  | getDagRunByLogicalDate (dag : DagID) (date : Time)
  | latestScheduledRun (dag : DagID)
  | listDagRunsByState (state : RunState)
  | listDagRunsByStateLimited (state : RunState) (limit : Int)
  | countActiveRuns (dag : DagID)
  | countActiveRunsByDag
  | createDagRunBounded (run : DagRun) (global : Int)
  | createManualDagRunBounded (run : DagRun) (perDAG global : Int)
  | updateDagRunState (run : RunID) (state : RunState) (started finished : Option Time)
  | updateDagRunSuccess (run : RunID) (started finished : Option Time)
  | updateDagRunDefinition (run : RunID) (yaml hash : String)
  | createTaskInstance (ti : TaskInstance)
  | getTaskInstance (key : InstanceKey)
  | listTaskInstances (run : RunID)
  | listTaskInstancesByState (state : TaskState)
  | updateTaskInstance (ti : TaskInstance)
  | updateTaskInstanceGuarded (ti : TaskInstance) (expectRef : ExecutorRef)
  | countActiveTaskInstances
  | countRunningInPool (pool : String)
  | countActiveTasksForDag (dag : DagID)
  | getPool (name : String)
  | listDownstreams (dag : DagID)
  | listUpstreams (dag : DagID)
  | listPendingEvents (source : EventSource) (limit : Int)
  | consumeEvent (id : EventID)
  | publishEvent (source : EventSource) (key : EventKey) (payload : String)
  | upsertDAG (d : DAG)
  | softDeleteDAG (dag : DagID)
  | setDAGPaused (dag : DagID) (paused : Bool)
  | upsertPool (p : Pool)
  | replaceDagDependencies (downstream : DagID) (upstreams : List DagID)
  /-- The swap of a cache entry under `mu`, with the `paused` flag read back from the store. -/
  | publishDAG (d : DAG) (schedule : Option (Time → Time))
  | evictDAG (dag : DagID)
  | pauseCached (dag : DagID) (paused : Bool)
  /-- The output file of an attempt. -/
  | readOutput (ti : TaskInstance)
  | removeOutput (ti : TaskInstance)
  | setTaskOutput (ti : TaskInstance) (output : String)
  | evalWhen (run : DagRun) (t : Task) (try_ : Int)
  | groupAvailable (group : String)
  | stageProject (project : String)
  | launch (group : String) (ref : ExecutorRef)
  | probe (ref : ExecutorRef)
  | await (ref : ExecutorRef)
  | cancel (ref : ExecutorRef)
  | go (task : Goroutine)

@[reducible] def Op.Reply : Op → Type
  | lock _ | unlock | cancel _ | go _ | publishDAG _ _ | evictDAG _ | pauseCached _ _ | removeOutput _ => Unit
  | now | bootTime => Time
  | order _ => List String
  | census => Nat
  | cachedDAG _ => Option CachedDAG
  | allDAGs => List DAG
  | getDAG _ => Except StoreError StoredDAG
  | getDagRun _ | getDagRunByLogicalDate _ _ | latestScheduledRun _ => Except StoreError DagRun
  | listDagRunsByState _ | listDagRunsByStateLimited _ _ => Except StoreError (List DagRun)
  | countActiveRuns _ | countActiveTaskInstances | countRunningInPool _ | countActiveTasksForDag _ =>
    Except StoreError Int
  | countActiveRunsByDag => Except StoreError (DagID → Int)
  | createDagRunBounded _ _ | createManualDagRunBounded _ _ _ | updateDagRunState _ _ _ _
  | updateDagRunSuccess _ _ _ | updateDagRunDefinition _ _ _ | createTaskInstance _ | updateTaskInstance _
  | consumeEvent _ | upsertDAG _ | softDeleteDAG _ | setDAGPaused _ _ | upsertPool _ | replaceDagDependencies _ _
  | setTaskOutput _ _ => Except StoreError Unit
  | getTaskInstance _ => Except StoreError TaskInstance
  | listTaskInstances _ | listTaskInstancesByState _ => Except StoreError (List TaskInstance)
  | updateTaskInstanceGuarded _ _ | publishEvent _ _ _ => Except StoreError Bool
  | getPool _ => Except StoreError Pool
  | listDownstreams _ | listUpstreams _ => Except StoreError (List DagID)
  | listPendingEvents _ _ => Except StoreError (List Event)
  | evalWhen _ _ _ | groupAvailable _ | stageProject _ => Bool
  | launch _ _ => Launch
  | probe _ => Option Status
  | await _ => Outcome
  | readOutput _ => Option String

/-- A reply for a statement that would wait for ever. -/
def Op.idle (o : Op) : o.Reply := by cases o <;> exact default

def statements : Signature := ⟨Op, Op.Reply⟩

/-- The errors that the scheduler's operations return. -/
inductive Failure where
  | store (e : StoreError)
  | runNotActive
  | runStillActive
  | activeRuns
  | nothingToRetry
  | badMarkState
  | noTasks
  | badDefinition
  | noSchedule
  | badSchedule
  | emptyWindow
  | tooManyPeriods
  | exhausted
  deriving DecidableEq, Repr

abbrev Act := Prog statements Failure

/-- Issue a statement whose errors end the operation. -/
def ask {A : Type} (o : Op) (read : o.Reply → Except StoreError A) : Act A :=
  Prog.call (I := statements) o fun reply => match read reply with
    | .ok a => .done a
    | .error e => .fail (.store e)

def perform (o : Op) : Act o.Reply := Prog.perform (I := statements) o

theorem ask_run {S A : Type} (h : Handler statements S) (o : Op) (read : o.Reply → Except StoreError A) (s : S) :
    (ask o read).run h s = ((read (h o s).1).mapError Failure.store, (h o s).2) := by
  have issued : (ask o read).run h s = Prog.run h (match read (h o s).1 with
    | .ok a => Prog.done a
    | .error e => Prog.fail (.store e)) (h o s).2 := rfl
  rw [issued]
  cases read (h o s).1 <;> rfl

theorem perform_run {S : Type} (h : Handler statements S) (o : Op) (s : S) :
    (perform o).run h s = (.ok (h o s).1, (h o s).2) := rfl

/-- The reordering that an iteration over a map applies to the keys. -/
structure Shuffle where
  apply : List String → List String
  perm : ∀ keys, (apply keys).Perm keys

def Shuffle.id : Shuffle := ⟨fun keys => keys, fun _ => .refl _⟩

/-- What the surroundings contribute to one statement or to a restart. -/
structure Answer where
  /-- The database serves the statement. -/
  served : Bool := true
  now : Time := 0
  order : Shuffle := .id
  /-- The answer to a probe; `none` is an error of the executor. -/
  status : Option Status := none
  launch : Launch := .started
  yes : Bool := true
  /-- What a launched attempt will have left in its output file when it exits. -/
  output : Option String := none
  /-- The DAGs that a starting process loads. -/
  loads : Cache := .empty

/-- Bookkeeping that no statement reads. -/
structure Trail where
  /-- How often a task instance was written without a guard. -/
  rewrites : InstanceKey → Nat := fun _ => 0
  /-- The value of `rewrites` right after the last dispatch of the task instance. -/
  issued : InstanceKey → Nat := fun _ => 0
  /-- This process has started a goroutine for the task instance. -/
  spawned : InstanceKey → Bool := fun _ => false
  /-- The number of success writes so far. -/
  clock : Nat := 0
  /-- The time, on that clock, of the last success write of a run. -/
  succeeded : RunID → Nat := fun _ => 0
  /-- The time, on that clock, at which a goroutine last loaded a run. -/
  loaded : Nat → RunID → Nat := fun _ _ => 0

namespace Trail

variable (trail : Trail)

/-- An unguarded write of a task instance; one that starts an attempt opens a new issue. -/
def rewritten (ti : TaskInstance) : Trail :=
  let count := trail.rewrites ti.key + 1
  { trail with
    rewrites := Function.update trail.rewrites ti.key count
    issued := if ti.state = .queued ∨ ti.state = .running then Function.update trail.issued ti.key count
      else trail.issued }

def spawns (ti : TaskInstance) : Trail := { trail with spawned := Function.update trail.spawned ti.key true }

def succeeds (run : RunID) : Trail :=
  { trail with
    clock := trail.clock + 1
    succeeded := Function.update trail.succeeded run (trail.clock + 1) }

def loads (tid : Nat) (run : RunID) : Trail :=
  { trail with loaded := fun t r => if t = tid ∧ r = run then trail.clock else trail.loaded t r }

end Trail

structure World where
  db : DB
  cache : Cache := .empty
  bootTime : Time := 0
  holder : Option (Nat × Section) := none
  /-- The output files, each under the run, the task and the try number of its attempt. -/
  files : ExecutorRef → Option String := fun _ => none
  trail : Trail := {}

/-- What a goroutine of the process runs. -/
inductive Request where
  | recover
  | tick
  | cancelRun (run : RunID)
  | retryTask (run : RunID) (task : TaskID)
  | retryRun (run : RunID)
  | markTask (run : RunID) (task : TaskID) (target : TaskState)
  | markRun (run : RunID) (target : RunState)
  | triggerManual (dag : DagID) (params : Params) (priority : Int)
  | backfill (dag : DagID) (from_ until_ : Time)
  | publishEvent (key payload : String)
  | createDAG (yaml : String)
  /-- The contents of the files of the DAG directory. -/
  | loadDAGs (files : List String)
  | reloadDAGs (files : List String)
  | deleteDAG (dag : DagID)
  | setPaused (dag : DagID) (paused : Bool)
  /-- A goroutine of the scheduler, with the value of `issued` at its start. -/
  | goroutine (task : Goroutine) (epoch : Nat)

namespace World

def cached (w : World) (dag : DagID) : Option CachedDAG := w.cache.rows.find? (·.id == dag)

/-- `allDAGs` copies a map. -/
def dags (w : World) (order : Shuffle) : List DAG :=
  (order.apply (w.cache.rows.map (·.id))).filterMap fun id => (w.cached id).map (·.dag)

/-- `outputPath`: a file per attempt. -/
def outputPath (ti : TaskInstance) : ExecutorRef := .attempt ti.runID ti.taskID ti.tryNumber

/-- Only an attempt that starts leaves a file. -/
def launched (w : World) (ref : ExecutorRef) (answer : Launch) (output : Option String) : World :=
  { w with files := if answer = .started then Function.update w.files ref output else w.files }

section Perform

variable (a : Answer) (w : World)

def read {A : Type} (x : Except StoreError A) : Option (Except StoreError A × World × List Request) :=
  some (if a.served then x else .error .unavailable, w, [])

def write (x : Except StoreError DB) (trail : Trail) : Option (Except StoreError Unit × World × List Request) :=
  match (if a.served then x else .error .unavailable) with
  | .ok db => some (.ok (), { w with db, trail }, [])
  | .error e => some (.error e, w, [])

def writeFlag (x : Bool × DB) : Option (Except StoreError Bool × World × List Request) :=
  if a.served then some (.ok x.1, { w with db := x.2 }, []) else some (.error .unavailable, w, [])

variable {a w}

theorem read_some {A : Type} {x reply : Except StoreError A} {v : World} {spawned : List Request}
    (performed : w.read a x = some (reply, v, spawned)) : v = w ∧ spawned = [] ∧ (reply = x ∨ reply = .error .unavailable) := by
  unfold read at performed
  cases performed
  refine ⟨rfl, rfl, ?_⟩
  split
  · exact .inl rfl
  · exact .inr rfl

/-- A write happens as a whole or not at all. -/
theorem write_some {x : Except StoreError DB} {trail : Trail} {reply : Except StoreError Unit} {v : World}
    {spawned : List Request} (performed : w.write a x trail = some (reply, v, spawned)) :
    spawned = [] ∧ ((∃ db, x = .ok db ∧ reply = .ok () ∧ v = { w with db, trail }) ∨ (∃ e, reply = .error e) ∧ v = w) := by
  unfold write at performed
  split at performed
  · rename_i db chosen
    cases performed
    refine ⟨rfl, .inl ⟨db, ?_, rfl, rfl⟩⟩
    split at chosen
    · exact chosen
    · cases chosen
  · rename_i e _
    cases performed
    exact ⟨rfl, .inr ⟨⟨e, rfl⟩, rfl⟩⟩

theorem write_error {x : Except StoreError DB} {trail : Trail} {e : StoreError} {v : World} {spawned : List Request}
    (performed : w.write a x trail = some (.error e, v, spawned)) : x = .error e ∨ e = .unavailable := by
  unfold write at performed
  split at performed
  · cases performed
  · rename_i chosen
    cases performed
    split at chosen
    · exact .inl chosen
    · cases chosen
      exact .inr rfl

end Perform

/-- One statement, issued by the goroutine `tid`. -/
def perform (tid : Nat) : (o : Op) → Answer → World → Option (o.Reply × World × List Request)
  | .lock what, _, w => match w.holder with
    | none => some ((), { w with holder := some (tid, what) }, [])
    | some _ => none
  | .unlock, _, w => some ((), { w with holder := none }, [])
  | .now, a, w => some (a.now, w, [])
  | .order keys, a, w => some (a.order.apply keys, w, [])
  | .cachedDAG dag, _, w => some (w.cached dag, w, [])
  | .allDAGs, a, w => some (w.dags a.order, w, [])
  | .bootTime, _, w => some (w.bootTime, w, [])
  | .census, _, w => some (w.db.runs.rows.length, w, [])
  | .getDAG dag, a, w => w.read a (w.db.getDAG dag)
  | .getDagRun run, a, w => World.read a { w with trail := w.trail.loads tid run } (w.db.getDagRun run)
  | .getDagRunByLogicalDate dag date, a, w => w.read a (w.db.getDagRunByLogicalDate dag date)
  | .latestScheduledRun dag, a, w => w.read a (w.db.latestScheduledRun dag)
  | .listDagRunsByState state, a, w => w.read a (.ok (w.db.listDagRunsByState state))
  | .listDagRunsByStateLimited state limit, a, w => w.read a (.ok (w.db.listDagRunsByStateLimited state limit))
  | .countActiveRuns dag, a, w => w.read a (.ok (w.db.countActiveRuns dag))
  | .countActiveRunsByDag, a, w => w.read a (.ok w.db.countActiveRuns)
  | .createDagRunBounded run global, a, w => w.write a (w.db.createDagRunBounded run global) w.trail
  | .createManualDagRunBounded run perDAG global, a, w =>
    w.write a (w.db.createManualDagRunBounded run perDAG global) w.trail
  | .updateDagRunState run state started finished, a, w =>
    w.write a (w.db.updateDagRunState run state started finished) w.trail
  | .updateDagRunSuccess run started finished, a, w =>
    w.write a (w.db.updateDagRunSuccess run started finished) (w.trail.succeeds run)
  | .updateDagRunDefinition run yaml hash, a, w => w.write a (w.db.updateDagRunDefinition run yaml hash) w.trail
  | .createTaskInstance ti, a, w => w.write a (w.db.createTaskInstance ti) w.trail
  | .getTaskInstance key, a, w => w.read a (w.db.getTaskInstance key)
  | .listTaskInstances run, a, w => w.read a (.ok (w.db.listTaskInstances run))
  | .listTaskInstancesByState state, a, w => w.read a (.ok (w.db.listTaskInstancesByState state))
  | .updateTaskInstance ti, a, w => w.write a (w.db.updateTaskInstance ti) (w.trail.rewritten ti)
  | .updateTaskInstanceGuarded ti expectRef, a, w => w.writeFlag a (w.db.updateTaskInstanceGuarded ti expectRef)
  | .countActiveTaskInstances, a, w => w.read a (.ok w.db.countActiveTaskInstances)
  | .countRunningInPool pool, a, w => w.read a (.ok (w.db.countRunningInPool pool))
  | .countActiveTasksForDag dag, a, w => w.read a (.ok (w.db.countActiveTasksForDag dag))
  | .getPool name, a, w => w.read a (w.db.getPool name)
  | .listDownstreams dag, a, w => w.read a (.ok (w.db.listDownstreams dag))
  | .listUpstreams dag, a, w => w.read a (.ok (w.db.listUpstreams dag))
  | .listPendingEvents source limit, a, w => w.read a (.ok (w.db.listPendingEvents source limit))
  | .consumeEvent id, a, w => w.write a (.ok (w.db.consumeEvent id)) w.trail
  | .publishEvent source key payload, a, w => w.writeFlag a (w.db.publishEvent source key payload)
  | .upsertDAG d, a, w => w.write a (.ok (w.db.upsertDAG d)) w.trail
  | .softDeleteDAG dag, a, w => w.write a (w.db.softDeleteDAG dag) w.trail
  | .setDAGPaused dag paused, a, w => w.write a (w.db.setDAGPaused dag paused) w.trail
  | .upsertPool p, a, w => w.write a (w.db.upsertPool p) w.trail
  | .replaceDagDependencies downstream upstreams, a, w =>
    w.write a (.ok (w.db.replaceDagDependencies downstream upstreams)) w.trail
  | .publishDAG d schedule, a, w =>
    let paused := match (if a.served then w.db.getDAG d.dagID else .error .unavailable) with
      | .ok row => row.paused
      | .error _ => d.paused
    some ((), { w with cache := w.cache.publish { dag := { d with paused }, schedule } }, [])
  | .evictDAG dag, _, w => some ((), { w with cache := w.cache.evict dag }, [])
  | .pauseCached dag paused, _, w => match w.cached dag with
    | some c => some ((), { w with cache := w.cache.publish { c with dag := { c.dag with paused } } }, [])
    | none => some ((), w, [])
  | .readOutput ti, _, w => some (w.files (outputPath ti), w, [])
  | .removeOutput ti, _, w => some ((), { w with files := Function.update w.files (outputPath ti) none }, [])
  | .setTaskOutput ti output, a, w => w.write a (.ok (w.db.setTaskOutput ti.key output)) w.trail
  | .evalWhen _ _ _, a, w => some (a.yes, w, [])
  | .groupAvailable _, a, w => some (a.yes, w, [])
  | .stageProject _, a, w => some (a.yes, w, [])
  -- only the worker hub, which serves the groups, has no worker to give
  | .launch group ref, a, w =>
    let answer := if group = "" ∧ a.launch = .noWorker then .failed else a.launch
    some (answer, w.launched ref answer a.output, [])
  | .probe _, a, w => some (a.status, w, [])
  -- a poll that finds the attempt running, or that fails, is repeated
  | .await _, a, w => match a.status with
    | some (.exited code) => some (.exited code, w, [])
    | some .unknown => some (.lost, w, [])
    | some .running | none => none
  | .cancel _, _, w => some ((), w, [])
  | .go task, _, w =>
    some ((), { w with trail := w.trail.spawns task.instance },
      [.goroutine task (w.trail.issued task.instance.key)])

/-- A program that runs alone, with the same surroundings at every statement. -/
def respond (a : Answer) : Handler statements World := fun o w =>
  match perform 0 o a w with
  | some (reply, after, _) => (reply, after)
  | none => (Op.idle o, w)

/-- A program that runs alone; its surroundings answer each statement in their own way. -/
def consult (surroundings : Op → Answer) : Handler statements World := fun o w =>
  match perform 0 o (surroundings o) w with
  | some (reply, after, _) => (reply, after)
  | none => (Op.idle o, w)

/-- A program that runs alone; its surroundings are listed statement by statement. -/
def replay : Handler statements (World × List Answer) := fun o (w, answers) =>
  match perform 0 o (answers.headD {}) w with
  | some (reply, after, _) => (reply, after, answers.tail)
  | none => (Op.idle o, w, answers.tail)

/-- A crash frees the lock and empties the cache; `Run` loads the DAGs before it recovers. -/
def crash (a : Answer) (w : World) : World :=
  { w with
    cache := a.loads
    bootTime := a.now
    holder := none
    trail := { w.trail with spawned := fun _ => false } }

end World

end Cronova.Scheduler
