import Cronova.Scheduler.View

/-! Which statements a goroutine issues, given its view.

`Footprint` says once, statement by statement, what each of the scheduler's programs can do.
The invariants of the later modules are derived from it and do not look at programs again.
-/

set_option autoImplicit false

namespace Cronova.Scheduler

open Model Store Process
open Calendar (Time)

/-- Two values of one attempt of a task. -/
structure Carries (c ti : TaskInstance) : Prop where
  key : ti.key = c.key
  tryNumber : ti.tryNumber = c.tryNumber
  maxRetries : ti.maxRetries = c.maxRetries
  executorRef : ti.executorRef = c.executorRef

theorem Carries.refl (c : TaskInstance) : Carries c c := ⟨rfl, rfl, rfl, rfl⟩

namespace View

variable (env : Env) (v : View)

/-- The tick processes the run and has its definition. -/
def Processes (id : RunID) : Prop :=
  ∃ run, v.origin = .tick ∧ v.inside = some (.process run) ∧ run.runID = id ∧ (run.definitionYAML ≠ "" ∨ id ∈ v.adopted)

/-- The section that a request enters. -/
def Enters : Section → Prop
  | .process run => v.origin = .tick ∧ run ∈ v.listed
  | .admission => v.origin = .tick
  | .cancel run => v.origin = .cancelRun run
  | .retryTask run task => v.origin = .retryTask run task
  | .retryRun run => v.origin = .retryRun run
  | .markTask run task target => v.origin = .markTask run task target
  | .markRun run target => v.origin = .markRun run target

/-- A definition that was read from the cache or parsed. -/
def Known (d : DAG) : Prop := (∃ dag c, (dag, some c) ∈ v.entries ∧ c.dag = d) ∨ ∃ yaml, env.parse yaml = some d

/-- The definition of a run, as its snapshot gives it. -/
def Source (run : DagRun) (d : DAG) : Prop :=
  env.parse run.definitionYAML = some d ∨ (v.Known env d ∧ run.definitionYAML = d.definitionYAML)

/-- The task is one of the run's definition. -/
def Defines (run : DagRun) (t : Task) : Prop := ∃ d, t ∈ d.tasks ∧ v.Source env run d

/-- A new run is queued, with a snapshot of a cached definition or, for a child run, without one. -/
def Creates (run : DagRun) : Prop :=
  run.state = .queued ∧
    ((run.definitionYAML = "" ∧ run.definitionHash = "") ∨
      ∃ dag c, (dag, some c) ∈ v.entries ∧ run.definitionYAML = c.dag.definitionYAML ∧
        run.definitionHash = env.hash c.dag.definitionYAML)

/-- A retry of the run: the operator's, or that of the task which waits for it as a child run. -/
inductive Retries (id : RunID) : Prop where
  | task (task : TaskID) (origin : v.origin = .retryTask id task) (inside : v.inside = some (.retryTask id task))
  | run (origin : v.origin = .retryRun id) (inside : v.inside = some (.retryRun id))
  | child (parent : DagRun) (c : TaskInstance) (origin : v.origin = .tick) (inside : v.inside = some (.process parent))
      (held : c ∈ v.hand) (scheduled : c.state = .scheduled) (ref : c.executorRef = .subdag id)

/-- The DAG may have one active run only. -/
def serial (entry : Option CachedDAG) : Prop := ∃ c, entry = some c ∧ c.dag.executionPolicy ≠ .parallel

/-- The promotion of a queued run passed the gate. -/
def Promotes (id : RunID) : Prop :=
  ∃ run, v.promotion id = some run ∧ v.Processes id ∧ v.promoting = true ∧
    ∃ entry, (run.dagID, entry) ∈ v.entries ∧ (serial entry → run.dagID ∉ v.seen)

/-- A run that has ended is made active again. -/
def Reactivates (id : RunID) : Prop :=
  (v.Retries id ∧ id ∈ v.adopted ∧ ∃ run, v.runs id = some run ∧ run.state.isTerminal = true) ∨
    ∃ task target, v.origin = .markTask id task target ∧ v.inside = some (.markTask id task target)

/-- A run gets its final state. -/
def Finishes (id : RunID) : Prop :=
  v.Processes id ∨ ∃ target, v.origin = .markRun id target ∧ v.inside = some (.markRun id target)

def Moves (id : RunID) : RunState → Prop
  | .running => v.Promotes id ∨ v.Reactivates id
  | .cancelled => True
  | .queued => False
  | .success | .failed | .timedOut => v.Finishes id

/-- The first use of a run without a snapshot. -/
def FirstUse (id : RunID) : Prop :=
  (∃ run, v.origin = .tick ∧ v.inside = some (.process run) ∧ run.runID = id ∧ run.definitionYAML = "" ∧ id ∉ v.adopted) ∨
    ∃ task target run, v.origin = .markTask id task target ∧ v.inside = some (.markTask id task target) ∧
      v.runs id = some run ∧ run.definitionYAML = ""

/-- A run adopts a definition. -/
def Adopts (id : RunID) (yaml hash : String) : Prop :=
  hash = env.hash yaml ∧
    ((v.FirstUse id ∧ ∃ d, v.Known env d ∧ d.definitionYAML = yaml) ∨
      (v.Retries id ∧ ∃ run c, v.runs id = some run ∧ run.state.isTerminal = true ∧
        (run.dagID, some c) ∈ v.entries ∧ c.dag.definitionYAML = yaml))

/-- A new instance of a run that is expanded or retried. -/
def Expands (ti : TaskInstance) : Prop :=
  ti.state = .scheduled ∧ ti.tryNumber = 0 ∧ ti.executorRef = .none ∧
    (v.Processes ti.runID ∨ (v.Retries ti.runID ∧ ti.runID ∈ v.adopted))

/-- What an unguarded write of an instance makes of a copy in memory. -/
inductive Rewrites (ti : TaskInstance) : Prop where
  /-- A scheduled task ends without an attempt. -/
  | settles (c : TaskInstance) (held : c ∈ v.hand) (process : v.Processes c.runID) (scheduled : c.state = .scheduled)
      (same : Carries c ti) (ended : ti.state.isTerminal = true)
  | cancels (c : TaskInstance) (held : c ∈ v.hand) (active : c.state.isTerminal = false) (same : Carries c ti)
      (ended : ti.state = .cancelled)
  | requeues (c : TaskInstance) (held : c ∈ v.hand) (process : v.Processes c.runID) (waits : c.state = .upForRetry)
      (reset : ti = TaskInstance.reset c)
  | resets (c : TaskInstance) (held : c ∈ v.hand) (retry : v.Retries c.runID) (key : ti.key = c.key)
      (tryNumber : ti.tryNumber = c.tryNumber) (state : ti.state = .scheduled) (ref : ti.executorRef = .none)
  | releases (c : TaskInstance) (task : TaskID) (target : TaskState) (held : c ∈ v.hand)
      (origin : v.origin = .markTask c.runID task target) (inside : v.inside = some (.markTask c.runID task target))
      (blocked : c.state = .upstreamFailed) (reset : ti = TaskInstance.reset c)
  | marks (c : TaskInstance) (held : c ∈ v.hand) (origin : v.origin = .markTask c.runID c.taskID ti.state)
      (inside : v.inside = some (.markTask c.runID c.taskID ti.state)) (target : markableTask ti.state = true)
      (same : Carries c ti)
  | dispatches (c : TaskInstance) (run : DagRun) (t : Task) (held : c ∈ v.hand) (origin : v.origin = .tick)
      (inside : v.inside = some .admission) (scheduled : c.state = .scheduled) (ofRun : run.runID = c.runID)
      (ofTask : t.id = c.taskID) (defined : v.Defines env run t) (queued : ti = dispatched run t c)
  /-- A scheduled sub-workflow task is attached to a child run. -/
  | attaches (c : TaskInstance) (child : RunID) (started : Option Time) (held : c ∈ v.hand) (process : v.Processes c.runID)
      (scheduled : c.state = .scheduled)
      (origin : c.executorRef = .subdag child ∨
        ∃ run global, v.last = some ⟨.createDagRunBounded run global, .ok ()⟩ ∧ run.runID = child)
      (running : ti = { c with
        tryNumber := c.tryNumber + 1, state := .running, startedAt := started, executorRef := .subdag child })
  /-- A scheduled sub-workflow task fails for want of a child. -/
  | refuses (c : TaskInstance) (started : Option Time) (held : c ∈ v.hand) (process : v.Processes c.runID)
      (scheduled : c.state = .scheduled)
      (failed : ti = { c with
        tryNumber := c.tryNumber + 1, state := .failed, startedAt := started, finishedAt := started })

/-- The requests that scan the DAG directory. -/
def scans : Request → Bool
  | .loadDAGs _ | .reloadDAGs _ => true
  | _ => false

/-- A definition is registered: by an explicit edit, or by a scan that has found it not archived. -/
def Registers (d : DAG) : Prop :=
  (∃ yaml, env.parse yaml = some d) ∧
    ((∃ yaml, v.origin = .createDAG yaml ∧ env.parse yaml = some d) ∨ (scans v.origin = true ∧ v.checked = some d.dagID))

/-- The copy that a guarded write starts from: the goroutine's own, or one that was read. -/
def Base (c : TaskInstance) : Prop :=
  match v.origin with
  | .goroutine task _ => c = task.instance
  | .recover => c ∈ v.hand ∧ ((c.state = .queued ∧ c.key ∉ v.returned) ∨ c ∈ v.resumed)
  | _ => c ∈ v.hand

/-- Why an attempt may be given back. -/
def Unused (c : TaskInstance) : Prop :=
  match v.origin with
  | .goroutine (.runTask _ _ _) _ => v.launch = some .noWorker
  | .recover =>
    c.state = .queued ∧ v.probed = some (c.executorRef, some .unknown) ∧ c.key ∉ v.attached ∧ v.resumed = []
  | _ => False

/-- The outcome of an attempt. -/
inductive Concludes (c ti : TaskInstance) : Prop where
  | runs (same : Carries c ti) (state : ti.state = .running)
  | succeeds (same : Carries c ti) (state : ti.state = .success ∨ ti.state = .skipped)
  | fails (same : Carries c ti) (state : ti.state = if c.tryNumber ≤ c.maxRetries then .upForRetry else .failed)
  | timesOut (process : v.Processes c.runID) (same : Carries c ti) (state : ti.state = .timedOut)
  | givesBack (unused : v.Unused c) (key : ti.key = c.key)
      (tryNumber : ti.tryNumber = c.tryNumber - 1 ∨ (ti.tryNumber = c.tryNumber ∧ c.tryNumber ≤ 0))
      (maxRetries : ti.maxRetries = c.maxRetries) (state : ti.state = .scheduled) (ref : ti.executorRef = .none)

/-- The origins that go through `finalizeMu` for every write. -/
def Operates : Prop :=
  match v.origin with
  | .tick | .recover | .goroutine _ _ => False
  | _ => True

/-- The attempt ended with success and its output is collected. -/
def Collects (ti : TaskInstance) : Prop := ∃ c, v.Base c ∧ Carries c ti ∧ ti.state = .success

def Spawns : Goroutine → Prop
  | .runTask run t ti =>
    v.origin = .tick ∧ v.inside = some .admission ∧ v.last = some ⟨.updateTaskInstance ti, .ok ()⟩ ∧
      v.Defines env run t ∧ ∃ c, ti = dispatched run t c ∧ run.runID = c.runID ∧ t.id = c.taskID
  | .awaitCompletion ti => v.origin = .recover ∧ ∃ c, v.Base c ∧ Carries c ti

end View

/-- What a program of the scheduler may issue. -/
def Footprint (env : Env) (o : Op) (v : View) : Prop :=
  match o with
  | .lock what => v.inside = none ∧ v.Enters what
  | .unlock => v.inside ≠ none
  | .listDagRunsByState state => v.origin = .tick ∧ state = .running
  | .listTaskInstances _ | .listTaskInstancesByState _ | .getTaskInstance _ => v.Operates → v.inside ≠ none
  | .createDagRunBounded run _ | .createManualDagRunBounded run _ _ => v.Creates env run
  | .updateDagRunState id state _ _ => v.Moves id state
  | .updateDagRunSuccess id _ _ => v.Finishes id
  | .updateDagRunDefinition id yaml hash => v.Adopts env id yaml hash
  | .createTaskInstance ti => v.Expands ti
  | .updateTaskInstance ti => v.Rewrites env ti
  | .updateTaskInstanceGuarded ti ref =>
    (∀ task epoch, v.origin = .goroutine task epoch → v.spent = false) ∧
      ∃ c, v.Base c ∧ ref = c.executorRef ∧ v.Concludes c ti
  | .go task => v.Spawns env task
  | .launch _ ref =>
    v.launch = none ∧ ∃ run t ti epoch, v.origin = .goroutine (.runTask run t ti) epoch ∧ ref = ti.executorRef
  | .readOutput ti => v.Collects ti ∧ ∃ reply, v.last = some ⟨.updateTaskInstanceGuarded ti ti.executorRef, reply⟩
  | .setTaskOutput ti output => v.Collects ti ∧ v.last = some ⟨.readOutput ti, some output⟩
  | .removeOutput ti =>
    v.Collects ti ∧ ((∃ output, v.last = some ⟨.readOutput ti, some output⟩ ∧ validOutput env output = false) ∨
      ∃ output reply, v.last = some ⟨.setTaskOutput ti output, reply⟩)
  | .upsertDAG d => v.Registers env d
  | .publishDAG d _ => v.Registers env d ∧ v.upserted = some d.dagID
  | .softDeleteDAG dag => v.origin = .deleteDAG dag ∧ ∃ n ≤ 0, v.last = some ⟨.countActiveRuns dag, .ok n⟩
  | .evictDAG dag => v.origin = .deleteDAG dag ∧ v.last = some ⟨.softDeleteDAG dag, .ok ()⟩
  | .setDAGPaused dag paused => v.origin = .setPaused dag paused
  | .pauseCached dag paused => v.origin = .setPaused dag paused ∧ v.last = some ⟨.setDAGPaused dag paused, .ok ()⟩
  | _ => True

/-- The contract of the scheduler's programs. -/
def footprint (env : Env) : Contract statements View := Prog.tracking View.after Op.honest (Footprint env)

/-! ### What a program leaves of its view -/

/-- The later view of a program that stays in its section. -/
structure Onward (v u : View) : Prop where
  origin : u.origin = v.origin
  inside : u.inside = v.inside
  hand : ∀ c ∈ v.hand, c ∈ u.hand
  runs : ∀ id, (v.runs id).isSome = true → (u.runs id).isSome = true
  adopted : ∀ id ∈ v.adopted, id ∈ u.adopted
  entries : ∀ entry ∈ v.entries, entry ∈ u.entries
  listed : u.listed = v.listed
  promoting : u.promoting = v.promoting
  seen : u.seen = v.seen
  attached : u.attached = v.attached
  returned : u.returned = v.returned
  resumed : u.resumed = v.resumed

theorem Onward.refl (v : View) : Onward v v where
  origin := rfl
  inside := rfl
  hand _ held := held
  runs _ known := known
  adopted _ known := known
  entries _ known := known
  listed := rfl
  promoting := rfl
  seen := rfl
  attached := rfl
  returned := rfl
  resumed := rfl

theorem Onward.trans {v u w : View} (first : Onward v u) (second : Onward u w) : Onward v w where
  origin := second.origin.trans first.origin
  inside := second.inside.trans first.inside
  hand c held := second.hand c (first.hand c held)
  runs id known := second.runs id (first.runs id known)
  adopted id known := second.adopted id (first.adopted id known)
  entries entry known := second.entries entry (first.entries entry known)
  listed := second.listed.trans first.listed
  promoting := second.promoting.trans first.promoting
  seen := second.seen.trans first.seen
  attached := second.attached.trans first.attached
  returned := second.returned.trans first.returned
  resumed := second.resumed.trans first.resumed

/-- The statements after which a view goes on as it was, whatever the reply. -/
def Op.quiet : Op → Bool
  | .lock _ | .unlock | .listDagRunsByState _ | .listDagRunsByStateLimited _ _ | .listPendingEvents _ _ | .go _ => false
  | .updateDagRunState _ state _ _ => state != .running
  | .updateTaskInstance ti => ti.state != .queued
  | .updateTaskInstanceGuarded ti _ => ti.state != .scheduled
  | .listTaskInstancesByState state => state != .running
  | _ => true

theorem Onward.after {v u : View} (onward : Onward v u) {o : Op} (quiet : o.quiet = true) (reply : o.Reply) :
    Onward v (u.after o reply) := by
  apply onward.trans
  cases o with
  | lock | unlock | listDagRunsByState | listDagRunsByStateLimited | listPendingEvents | go => cases quiet
  | updateDagRunState id state started finished =>
    refine { Onward.refl u with runs := fun other known => ?_, seen := ?_ }
    · exact (u.rerun_isSome id _ reply other).trans known
    · cases state with
      | running => cases quiet
      | _ => rfl
  | updateDagRunSuccess id started finished =>
    exact { Onward.refl u with runs := fun other known => (u.rerun_isSome id _ reply other).trans known }
  | updateDagRunDefinition id yaml hash =>
    refine { Onward.refl u with runs := fun other known => ?_, adopted := fun other known => ?_ }
    · exact (u.rerun_isSome id _ reply other).trans known
    · cases reply with
      | error e => exact known
      | ok _ => exact List.mem_cons_of_mem _ known
  | updateTaskInstance ti =>
    refine { Onward.refl u with hand := fun c held => ?_ }
    cases reply with
    | error e => exact held
    | ok _ =>
      have waits : ¬ ti.state = .queued := by simpa [Op.quiet] using quiet
      simp [View.after, View.learns, View.rewritten, waits, held]
  | getDagRun id =>
    refine { Onward.refl u with runs := fun other known => ?_ }
    cases reply with
    | error e => exact known
    | ok run =>
      by_cases same : other = id
      · subst same
        simp [View.after, View.learns]
      · simpa [View.after, View.learns, Function.update_of_ne same] using known
  | cachedDAG dag => exact { Onward.refl u with entries := fun _ known => List.mem_cons_of_mem _ known }
  | listTaskInstances => exact { Onward.refl u with hand := fun _ held => List.mem_append_right _ held }
  | listTaskInstancesByState state =>
    have other : ¬ state = .running := by simpa [Op.quiet] using quiet
    exact { Onward.refl u with hand := fun _ held => List.mem_append_right _ held, resumed := if_neg other }
  | getTaskInstance | createTaskInstance =>
    refine { Onward.refl u with hand := fun c held => ?_ }
    cases reply with
    | error e => exact held
    | ok _ => exact List.mem_cons_of_mem _ held
  | updateTaskInstanceGuarded ti ref =>
    have kept : ¬ ti.state = .scheduled := by simpa [Op.quiet] using quiet
    refine { Onward.refl u with hand := fun _ held => List.mem_cons_of_mem _ held, returned := ?_ }
    simp only [View.after, View.learns, kept, if_false]
    split <;> rfl
  | _ => exact { Onward.refl u with }

/-- The end of a program that stays in its section, with what its result satisfies. -/
def Ends {A : Type} (v : View) (good : A → View → Prop) (result : Except Failure A) (u : View) : Prop :=
  Onward v u ∧ ∀ a, result = .ok a → good a u

section Rules

variable {env : Env} {A B : Type} {v u : View} {o : Op} {get : o.Reply → Except StoreError A}

theorem Ends.ok {good : A → View → Prop} {a : A} (onward : Onward v u) (holds : good a u) :
    Ends v good (.ok a) u := by
  refine ⟨onward, fun b same => ?_⟩
  cases same
  exact holds

theorem Ends.error {good : A → View → Prop} {e : Failure} (onward : Onward v u) : Ends v good (.error e) u :=
  ⟨onward, fun _ same => nomatch same⟩

/-- A statement whose reply is used. -/
theorem safe_perform {k : o.Reply → Act B} {post : Except Failure B → View → Prop} (permitted : Footprint env o v)
    (next : ∀ reply, o.honest reply → (k reply).Safe (footprint env) post (v.after o reply)) :
    (perform o >>= k).Safe (footprint env) post v :=
  Prog.Safe.tracked permitted next

/-- A statement whose error ends the program. -/
theorem safe_call {k : A → Act B} {post : Except Failure B → View → Prop} (permitted : Footprint env o v)
    (ok : ∀ reply a, o.honest reply → get reply = .ok a → (k a).Safe (footprint env) post (v.after o reply))
    (error : ∀ reply e, o.honest reply → get reply = .error e → post (.error (.store e)) (v.after o reply)) :
    (ask o get >>= k).Safe (footprint env) post v := by
  refine Prog.Safe.tracked permitted fun reply honest => ?_
  dsimp only
  cases read : get reply with
  | ok a => exact ok reply a honest read
  | error e => exact error reply e honest read

/-- A statement whose error is a value. -/
theorem safe_attempt {k : Except Failure A → Act B} {post : Except Failure B → View → Prop} (permitted : Footprint env o v)
    (ok : ∀ reply a, o.honest reply → get reply = .ok a → (k (.ok a)).Safe (footprint env) post (v.after o reply))
    (error : ∀ reply e, o.honest reply → get reply = .error e →
      (k (.error (.store e))).Safe (footprint env) post (v.after o reply)) :
    ((ask o get).attempt >>= k).Safe (footprint env) post v := by
  refine Prog.Safe.tracked permitted fun reply honest => ?_
  dsimp only
  cases read : get reply with
  | ok a => exact ok reply a honest read
  | error e => exact error reply e honest read

/-- A statement whose error is only logged. -/
theorem safe_logged {get : o.Reply → Except StoreError Unit} {k : Unit → Act B} {post : Except Failure B → View → Prop}
    (permitted : Footprint env o v)
    (next : ∀ reply, o.honest reply → (k ()).Safe (footprint env) post (v.after o reply)) :
    (logged (ask o get) >>= k).Safe (footprint env) post v := by
  refine Prog.Safe.tracked permitted fun reply honest => ?_
  dsimp only
  cases get reply with
  | ok a => exact next reply honest
  | error e => exact next reply honest

theorem Ends.call {k : A → Act B} {good : B → View → Prop} (permitted : Footprint env o u) (quiet : o.quiet = true)
    (onward : Onward v u)
    (ok : ∀ reply a, o.honest reply → get reply = .ok a → Onward v (u.after o reply) →
      (k a).Safe (footprint env) (Ends v good) (u.after o reply)) :
    (ask o get >>= k).Safe (footprint env) (Ends v good) u :=
  safe_call permitted (fun reply a honest read => ok reply a honest read (onward.after quiet reply))
    fun reply _ _ _ => .error (onward.after quiet reply)

/-- A statement that ends the program. -/
theorem Ends.last {good : A → View → Prop} (permitted : Footprint env o u) (quiet : o.quiet = true) (onward : Onward v u)
    (ok : ∀ reply a, get reply = .ok a → good a (u.after o reply)) :
    (ask o get).Safe (footprint env) (Ends v good) u := by
  refine Prog.Safe.tracked permitted fun reply _ => ?_
  have later := onward.after quiet reply
  cases read : get reply with
  | ok a => exact .ok later (ok reply a read)
  | error e => exact .error later

theorem Ends.bind {p : Act A} {k : A → Act B} {m : A → View → Prop} {good : B → View → Prop}
    (safe : p.Safe (footprint env) (Ends v m) u)
    (next : ∀ a t, Onward v t → m a t → (k a).Safe (footprint env) (Ends v good) t) :
    (p >>= k).Safe (footprint env) (Ends v good) u := by
  refine Prog.Safe.bind _ safe (fun a t ended => ?_) fun e t ended => .error ended.1
  exact next a t ended.1 (ended.2 a rfl)

/-- A part that is verified from its own start, inside a larger program. -/
theorem Ends.part {p : Act A} {good : A → View → Prop} (onward : Onward v u) (safe : p.Safe (footprint env) (Ends u good) u) :
    p.Safe (footprint env) (Ends v fun a t => Onward u t ∧ good a t) u :=
  safe.mono fun _ _ ended => ⟨onward.trans ended.1, fun a same => ⟨ended.1, ended.2 a same⟩⟩

/-- The error of a part is a value; the part still stays in the section. -/
theorem Ends.attempt {p : Act A} {k : Except Failure A → Act B} {mid : A → View → Prop}
    {post : Except Failure B → View → Prop} (safe : p.Safe (footprint env) (Ends v mid) u)
    (ok : ∀ a t, Onward v t → mid a t → (k (.ok a)).Safe (footprint env) post t)
    (error : ∀ e t, Onward v t → (k (.error e)).Safe (footprint env) post t) :
    (p.attempt >>= k).Safe (footprint env) post u := by
  refine Prog.Safe.andThen (fun r t => Ends v mid r t) (Prog.Safe.attempt (safe.mono fun r t ended => ended)) fun r t ended => ?_
  cases r with
  | ok a => exact ok a t ended.1 (ended.2 a rfl)
  | error e => exact error e t ended.1

theorem Ends.fold {body : A → B → Act A} (keep : A → View → Prop) {items : List B} {a : A} (onward : Onward v u)
    (start : keep a u)
    (round : ∀ b ∈ items, ∀ a t, Onward v t → keep a t → (body a b).Safe (footprint env) (Ends v keep) t) :
    (Prog.fold body items a).Safe (footprint env) (Ends v keep) u := by
  apply Prog.Safe.fold fun rest a t => (∀ b ∈ rest, b ∈ items) ∧ Onward v t ∧ keep a t
  · exact ⟨fun _ member => member, onward, start⟩
  · intro b rest a t kept
    obtain ⟨inside, onward, kept⟩ := kept
    refine (round b (inside b (.head _)) a t onward kept).mono fun r s ended => ?_
    cases r with
    | ok a => exact ⟨fun x member => inside x (.tail _ member), ended.1, ended.2 a rfl⟩
    | error e => exact .error ended.1
  · exact fun a t kept => .ok kept.2.1 kept.2.2

theorem Ends.forEach {body : B → Act Unit} {items : List B} (onward : Onward v u)
    (round : ∀ b ∈ items, ∀ t, Onward v t → (body b).Safe (footprint env) (Ends v fun _ _ => True) t) :
    (Prog.forEach items body).Safe (footprint env) (Ends v fun _ _ => True) u :=
  Ends.fold (fun _ _ => True) onward trivial fun b member _ t onward _ => round b member t onward

theorem Ends.logged {p : Act Unit} (safe : p.Safe (footprint env) (Ends v fun _ _ => True) u) :
    (logged p).Safe (footprint env) (Prog.returns fun _ t => Onward v t) u :=
  Ends.attempt safe (fun _ _ onward _ => onward) fun _ _ onward => onward

end Rules

end Cronova.Scheduler
