import Cronova.Process.Promise
import Cronova.Scheduler.System

/-! Which statements the scheduler's programs issue at all: who enters a section of
`finalizeMu`, and who creates a run. -/

set_option autoImplicit false

namespace Cronova.Scheduler

open Model Store Process
open Calendar (Time)

/-! ### Kinds of statements -/

def Op.creation : Op → Option DagRun
  | .createDagRunBounded run _ | .createManualDagRunBounded run _ _ => some run
  | _ => none

def Op.enters : Op → Option Section
  | .lock what => some what
  | _ => none

/-- A statement from inside a section that creates no run: no bound of a section, no creation and no
listing of the runs in a state. -/
def Op.plain : Op → Bool
  | .lock _ | .unlock | .createDagRunBounded _ _ | .createManualDagRunBounded _ _ _ | .listDagRunsByState _
  | .listDagRunsByStateLimited _ _ | .listPendingEvents _ _ => false
  | _ => true

abbrev Op.Plain (o : Op) : Prop := o.plain = true

theorem Op.Plain.creation {o : Op} (plain : o.Plain) : o.creation = none := by
  cases o with
  | createDagRunBounded | createManualDagRunBounded => cases plain
  | _ => rfl

theorem Op.Plain.enters {o : Op} (plain : o.Plain) : o.enters = none := by
  cases o with
  | lock => cases plain
  | _ => rfl

/-- A statement of the deliveries and of the schedule: it has no part in a section and changes no run;
the runs that it creates have no parent. -/
def Op.delivers : Op → Bool
  | .lock _ | .unlock | .listDagRunsByState _ | .listDagRunsByStateLimited _ _ | .updateDagRunState _ _ _ _
  | .updateDagRunSuccess _ _ _ | .updateDagRunDefinition _ _ _ => false
  | .createDagRunBounded run _ | .createManualDagRunBounded run _ _ => run.parentRunID.isNone
  | _ => true

/-- A run that the statement creates has no parent. -/
def Op.Parentless (o : Op) : Prop := ∀ run, o.creation = some run → run.parentRunID = none

theorem Op.Plain.parentless {o : Op} (plain : o.Plain) : o.Parentless := by
  intro run creates
  rw [plain.creation] at creates
  cases creates

/-- The statement is plain, writes neither events nor the cache, and makes no run successful. -/
def Op.mild : Op → Bool
  | .updateDagRunSuccess _ _ _ | .consumeEvent _ | .publishEvent _ _ _ | .publishDAG _ _ | .evictDAG _ | .pauseCached _ _ => false
  | o => o.plain

theorem Op.mild_plain {o : Op} (mild : o.mild = true) : o.Plain := by
  cases o with
  | updateDagRunSuccess | consumeEvent | publishEvent | publishDAG | evictDAG | pauseCached => rfl
  | _ => exact mild

/-- A mild statement that writes no run, unless it cancels it. -/
def Op.cancels : Op → Bool
  | .updateDagRunState _ state _ _ => state == .cancelled
  | .updateDagRunDefinition _ _ _ => false
  | o => o.mild

theorem Op.cancels_mild {o : Op} (cancels : o.cancels = true) : o.mild = true := by
  cases o with
  | updateDagRunState => rfl
  | updateDagRunDefinition => cases cancels
  | _ => exact cancels

abbrev Plain {A : Type} (p : Act A) : Prop := Prog.Issues Op.Plain p

abbrev Mild {A : Type} (p : Act A) : Prop := Prog.Issues (fun o : Op => o.mild = true) p

abbrev Cancelling {A : Type} (p : Act A) : Prop := Prog.Issues (fun o : Op => o.cancels = true) p

abbrev Conveying {A : Type} (p : Act A) : Prop := Prog.Issues (fun o : Op => o.delivers = true) p

abbrev Parentless {A : Type} (p : Act A) : Prop := Prog.Issues Op.Parentless p

section Rules

variable {A B : Type} {may : Op → Prop} {p : Act A}

theorem Plain.parentless (plain : Plain p) : Parentless p := Prog.Yields.permits plain fun _ => Op.Plain.parentless

theorem Mild.plain (mild : Mild p) : Plain p := Prog.Yields.permits mild fun _ => Op.mild_plain

theorem Cancelling.mild (cancels : Cancelling p) : Mild p := Prog.Yields.permits cancels fun _ => Op.cancels_mild

theorem issues_ask {o : Op} {get : o.Reply → Except StoreError A} (permitted : may o) : Prog.Issues may (ask o get) := by
  refine fun _ _ _ => ⟨permitted, fun reply _ _ _ => ?_⟩
  dsimp only
  cases get reply with
  | ok a => exact fun _ _ => trivial
  | error e => exact fun _ _ => trivial

/-- A statement that neither creates a run nor enters a section. -/
theorem plain_ask {o : Op} {get : o.Reply → Except StoreError A} (plain : o.Plain) : Plain (ask o get) := issues_ask plain

theorem plain_perform {o : Op} (plain : o.Plain) : Plain (perform o) := Prog.Yields.perform plain

theorem issues_logged {p : Act Unit} (issues : Prog.Issues may p) : Prog.Issues may (logged p) :=
  Prog.Issues.bind (Prog.Issues.attempt issues) fun _ => Prog.Issues.pure ()

/-- A statement with its error as a value. -/
theorem plain_attempt {o : Op} {get : o.Reply → Except StoreError A} (plain : o.Plain) : Plain (ask o get).attempt :=
  Prog.Issues.attempt (plain_ask plain)

end Rules

open Prog (Issues Yields)

/-! ### The run's definition, its instances and their cancellation -/

section Common

variable (env : Env)

/-- The snapshot of a run goes under the same id and the same parent. -/
structure SameLink (run after : DagRun) : Prop where
  runID : after.runID = run.runID
  parentRunID : after.parentRunID = run.parentRunID

theorem SameLink.refl (run : DagRun) : SameLink run run := ⟨rfl, rfl⟩

theorem parseDefinition_plain (yaml : String) : Plain (parseDefinition env yaml) := by
  unfold parseDefinition
  split
  · exact Issues.pure _
  · exact Yields.fail _

theorem dagForRun_plain (run : DagRun) : Yields Op.Plain (fun r => SameLink run r.2) (dagForRun env run) := by
  unfold dagForRun
  split
  · exact Yields.bind (parseDefinition_plain env _) fun d _ => Yields.pure (.refl run)
  · have takes (d : DAG) : Yields Op.Plain (fun r => SameLink run r.2) (do
        updateDagRunDefinition (snapshotRun env run d).runID (snapshotRun env run d).definitionYAML
          (snapshotRun env run d).definitionHash
        pure (d, snapshotRun env run d) : Act (DAG × DagRun)) :=
      Yields.after (plain_ask rfl) fun _ => Yields.pure ⟨rfl, rfl⟩
    refine Yields.after (plain_perform rfl) fun cached => ?_
    cases cached with
    | some c => exact takes c.dag
    | none =>
      refine Yields.after (q := getDAG run.dagID) (plain_ask rfl) fun stored => ?_
      exact Yields.after (parseDefinition_plain env stored.definitionYAML) takes

/-- What an attempt's reference points to is cancelled by such statements, if child runs are. -/
theorem cancelAttempt_cancels {cancelRun : RunID → Act Unit} (cancels : ∀ run, Cancelling (cancelRun run)) (ref : ExecutorRef) :
    Cancelling (cancelAttempt cancelRun ref) := by
  cases ref with
  | subdag child => exact issues_logged (cancels child)
  | none => exact Yields.perform rfl
  | attempt run task try_ => exact Yields.perform rfl

theorem cancelInstances_cancels {cancelRun : RunID → Act Unit} (cancels : ∀ run, Cancelling (cancelRun run)) (fin : Time)
    (tis : List TaskInstance) : Cancelling (cancelInstances cancelRun fin tis) := by
  refine Issues.forEach fun ti => ?_
  split
  · exact Issues.pure ()
  · have writes : Cancelling (logged (updateTaskInstance { ti with state := .cancelled, finishedAt := some fin })) :=
      issues_logged (issues_ask rfl)
    split
    · exact Issues.bind (cancelAttempt_cancels cancels _) fun _ => writes
    · exact writes

theorem cancelRunLocked_cancels (depth : Nat) (run : RunID) : Cancelling (cancelRunLocked depth run) := by
  induction depth generalizing run with
  | zero => exact Yields.fail _
  | succ depth ih =>
    refine Issues.bind (issues_ask rfl) fun r => ?_
    split
    · exact Yields.fail _
    · refine Issues.bind (Yields.perform rfl) fun fin => ?_
      refine Issues.bind (issues_ask rfl) fun _ => ?_
      exact Issues.bind (issues_ask rfl) fun tis => cancelInstances_cancels ih fin tis

theorem cascade_cancels (run : RunID) : Cancelling (cascade run) :=
  Issues.bind (Yields.perform rfl) fun runs => cancelRunLocked_cancels (runs + 1) run

end Common

/-! ### The operator's overrides -/

section Operator

variable (env : Env)

theorem retryContext_mild (run : RunID) : Mild (retryContext run) := by
  refine Issues.bind (issues_ask rfl) fun r => ?_
  split
  · exact Yields.fail _
  · refine Issues.bind (Yields.perform rfl) fun cached => ?_
    cases cached with
    | none => exact Yields.fail _
    | some c => exact Issues.bind (issues_ask rfl) fun tis => Issues.pure _

theorem prepareRetryDefinition_mild (run : RunID) (d : DAG) (byTask : ByTask) (reset : List TaskID) :
    Mild (prepareRetryDefinition env run d byTask reset) := by
  refine Issues.bind (issues_ask rfl) fun _ => Issues.fold fun byTask t => ?_
  unfold adoptTask
  split
  · exact Issues.bind (issues_ask rfl) fun _ => Issues.pure _
  · split
    · exact Issues.pure _
    · exact Issues.pure _

theorem clearAndReactivate_mild (run : RunID) (byTask : ByTask) (ids : List TaskID) :
    Mild (clearAndReactivate run byTask ids) := by
  refine Issues.bind (Yields.perform rfl) fun ids => Issues.bind ?_ fun _ => Issues.bind (Yields.perform rfl) fun now => issues_ask rfl
  refine Issues.forEach fun id => ?_
  split
  · exact Issues.pure ()
  · exact issues_ask rfl

theorem retryRunLocked_mild (run : RunID) : Mild (retryRunLocked env run) := by
  refine Issues.bind (retryContext_mild run) fun context => ?_
  dsimp only
  split
  · exact Yields.fail _
  · exact Issues.bind (prepareRetryDefinition_mild env _ _ _ _) fun byTask => clearAndReactivate_mild _ _ _

end Operator

/-! ### The processing of a run -/

section Processing

variable (env : Env)

theorem expandRun_plain (run : DagRun) (d : DAG) (current : List TaskInstance) : Plain (expandRun run d current) := by
  refine Issues.forEach fun t => ?_
  split
  · exact Issues.pure ()
  · refine Issues.bind (plain_attempt rfl) fun created => ?_
    split
    · exact Issues.pure ()
    · exact Issues.pure ()
    · exact Yields.fail _

theorem expandedRun_plain (run : DagRun) : Yields Op.Plain (fun r => SameLink run r.2.1) (expandedRun env run) := by
  refine Yields.bind (dagForRun_plain env run) fun found link => ?_
  refine Yields.after (plain_ask rfl) fun tis => ?_
  split
  · refine Yields.after (expandRun_plain _ _ _) fun _ => ?_
    exact Yields.after (plain_ask rfl) fun tis => Yields.pure link
  · exact Yields.pure link

theorem failEmptyRun_plain (run : DagRun) : Plain (failEmptyRun run) :=
  Issues.bind (plain_perform rfl) fun _ => plain_ask rfl

theorem startRun_plain (run : DagRun) : Yields Op.Plain (SameLink run) (startRun run) := by
  unfold startRun
  split
  · refine Yields.after (plain_perform rfl) fun now => ?_
    exact Yields.after (plain_ask rfl) fun _ => Yields.pure ⟨rfl, rfl⟩
  · exact Yields.pure (.refl run)

theorem blockTask_plain (acc : ByTask × Bool) (t : Task) : Plain (blockTask acc t) := by
  unfold blockTask
  split
  · exact Issues.pure _
  · split
    · exact Issues.pure _
    · split
      · exact Issues.bind (plain_perform rfl) fun now => Issues.bind (plain_ask rfl) fun _ => Issues.pure _
      · exact Issues.pure _

theorem propagateBlocks_plain (tasks : List Task) (rounds : Nat) (byTask : ByTask) :
    Plain (propagateBlocks tasks rounds byTask) := by
  induction rounds generalizing byTask with
  | zero => exact Issues.pure _
  | succ rounds ih =>
    refine Issues.bind (Issues.fold blockTask_plain) fun changed => ?_
    dsimp only
    split
    · exact ih _
    · exact Issues.pure _

theorem requeueTask_plain (now : Time) (byTask : ByTask) (t : Task) : Plain (requeueTask now byTask t) := by
  unfold requeueTask
  split
  · exact Issues.pure _
  · split
    · exact Issues.pure _
    · dsimp only
      split
      · exact Issues.pure _
      · exact Issues.bind (plain_ask rfl) fun _ => Issues.pure _

/-- The preparation of a run leaves its id and its parent. -/
theorem prepareRun_plain (run : DagRun) :
    Yields Op.Plain (fun r => ∀ after d byTask, r = some (after, d, byTask) → SameLink run after) (prepareRun env run) := by
  have nothing : Yields Op.Plain (fun r => ∀ after d byTask, r = some (after, d, byTask) → SameLink run after)
      (pure none : Act (Option (DagRun × DAG × ByTask))) :=
    Yields.pure fun _ _ _ some => nomatch some
  refine Yields.bind (expandedRun_plain env run) fun expanded link => ?_
  obtain ⟨d, found, tis⟩ := expanded
  dsimp only
  split
  · exact Yields.after (failEmptyRun_plain _) fun _ => nothing
  · refine Yields.bind (startRun_plain _) fun started same => ?_
    refine Yields.after (propagateBlocks_plain _ _ _) fun byTask => ?_
    refine Yields.after (plain_perform rfl) fun now => ?_
    refine Yields.after (Issues.fold (requeueTask_plain now)) fun byTask => ?_
    split
    · exact nothing
    · apply Yields.pure
      intro after d byTask same'
      cases same'
      exact ⟨same.runID.trans link.runID, same.parentRunID.trans link.parentRunID⟩

theorem finalizeWrite_plain (ti : TaskInstance) : Plain (finalizeWrite ti) :=
  Issues.bind (plain_attempt rfl) fun _ => Issues.pure ()

theorem recordFailure_plain (ti : TaskInstance) : Plain (recordFailure ti) :=
  Issues.bind (plain_perform rfl) fun _ => Issues.bind (finalizeWrite_plain _) fun _ => Issues.pure _

theorem previousChild_plain (ref : ExecutorRef) : Plain (previousChild env ref) := by
  cases ref with
  | none => exact Issues.pure _
  | attempt run task try_ => exact Issues.pure _
  | subdag child =>
    refine Issues.bind (plain_attempt rfl) fun found => ?_
    cases found with
    | error e => exact Issues.pure _
    | ok run =>
      dsimp only
      split
      · refine Issues.bind (Issues.attempt (retryRunLocked_mild env child).plain) fun retried => ?_
        cases retried with
        | ok _ => exact Issues.pure _
        | error e => exact Issues.pure _
      · exact Issues.pure _

theorem mirrorSubdag_plain (ti : TaskInstance) (now : Time) : Plain (mirrorSubdag ti now) := by
  unfold mirrorSubdag
  split
  · refine Issues.bind (plain_attempt rfl) fun found => ?_
    cases found with
    | error e => exact recordFailure_plain ti
    | ok run =>
      dsimp only
      split
      · exact Issues.bind (finalizeWrite_plain _) fun _ => Issues.pure _
      · exact recordFailure_plain ti
      · exact recordFailure_plain ti
      · exact recordFailure_plain ti
      · exact Issues.pure _
      · exact Issues.pure _
  · exact recordFailure_plain ti

theorem subdagDepthLoop_plain (rounds depth : Nat) (run : DagRun) : Plain (subdagDepthLoop rounds depth run) := by
  induction rounds generalizing depth run with
  | zero => exact Issues.pure _
  | succ rounds ih =>
    unfold subdagDepthLoop
    split
    · exact Issues.pure _
    · refine Issues.bind (plain_attempt rfl) fun found => ?_
      cases found with
      | error e => exact Issues.pure _
      | ok parent => exact ih _ parent

/-- What a launch does with the depth that it has found. -/
def launchAt (run : DagRun) (t : Task) (ti : TaskInstance) (now : Time) (depth : Nat) : Act TaskInstance := do
  let refused := { ti with tryNumber := ti.tryNumber + 1, state := .failed, startedAt := some now, finishedAt := some now }
  if depth ≥ maxSubdagDepth then
    updateTaskInstance refused
    pure refused
  else match ← cachedDAG t.subdag with
  | none =>
    updateTaskInstance refused
    pure refused
  | some _ =>
    let attach (child : RunID) : Act TaskInstance := do
      let ti := { ti with
        tryNumber := ti.tryNumber + 1, state := .running, startedAt := some now, executorRef := .subdag child }
      updateTaskInstance ti
      pure ti
    match ← previousChild env ti.executorRef with
    | some child => attach child
    | none =>
      let child := childRun run t now
      match ← (createDagRunBounded child env.maxQueuedRunsGlobal).attempt with
      | .ok _ => attach child.runID
      | .error (.store .queueFull) => pure ti
      | .error e => .fail e

/-- The bound of the depth: the task fails. -/
theorem launchAt_deep {depth : Nat} (deep : maxSubdagDepth ≤ depth) (run : DagRun) (t : Task) (ti : TaskInstance) (now : Time) :
    Plain (launchAt env run t ti now depth) := by
  unfold launchAt
  dsimp only
  rw [if_pos deep]
  exact Issues.bind (plain_ask rfl) fun _ => Issues.pure _

theorem launchSubdag_eq (run : DagRun) (t : Task) (ti : TaskInstance) (now : Time) :
    launchSubdag env run t ti now = subdagDepth run >>= launchAt env run t ti now := rfl

/-- The launch of a sub-workflow task: the only statement that is not plain creates the child run. -/
theorem launchAt_issues {may : Op → Prop} (plain : ∀ o : Op, o.Plain → may o) (run : DagRun) (t : Task) (ti : TaskInstance)
    (now : Time) (creates : may (.createDagRunBounded (childRun run t now) env.maxQueuedRunsGlobal)) (depth : Nat) :
    Issues may (launchAt env run t ti now depth) := by
  have permitted {A : Type} {p : Act A} (issues : Plain p) : Issues may p := Yields.permits issues plain
  have refuses (refused : TaskInstance) : Issues may (do
      updateTaskInstance refused
      pure refused : Act TaskInstance) :=
    permitted (Issues.bind (plain_ask rfl) fun _ => Issues.pure _)
  unfold launchAt
  dsimp only
  split
  · exact refuses _
  · refine Issues.bind (permitted (plain_perform rfl)) fun cached => ?_
    cases cached with
    | none => exact refuses _
    | some c =>
      refine Issues.bind (permitted (previousChild_plain env _)) fun previous => ?_
      cases previous with
      | some child => exact refuses _
      | none =>
        refine Issues.bind (Issues.attempt (issues_ask creates)) fun created => ?_
        split
        · exact refuses _
        · exact Issues.pure _
        · exact Yields.fail _

theorem launchSubdag_issues {may : Op → Prop} (plain : ∀ o : Op, o.Plain → may o) (run : DagRun) (t : Task) (ti : TaskInstance)
    (now : Time) (creates : may (.createDagRunBounded (childRun run t now) env.maxQueuedRunsGlobal)) :
    Issues may (launchSubdag env run t ti now) := by
  rw [launchSubdag_eq]
  have walks : Issues may (subdagDepth run) := Yields.permits (subdagDepthLoop_plain _ _ run) plain
  exact Issues.bind walks (launchAt_issues env plain run t ti now creates)

theorem dependentReady_waiting_plain (run : DagRun) (dep : DependsOnDag) : Plain (dependentReady.waiting run dep) := by
  unfold dependentReady.waiting
  split
  · exact Issues.bind (plain_perform rfl) fun now => Issues.pure _
  · exact Issues.pure _

theorem dependentReady_plain (run : DagRun) (d : DAG) (dep : DependsOnDag) : Plain (dependentReady env run d dep) := by
  unfold dependentReady
  split
  · exact Issues.pure _
  · refine Issues.bind (plain_attempt rfl) fun found => ?_
    cases found with
    | error e => exact dependentReady_waiting_plain run dep
    | ok target =>
      dsimp only
      split
      · exact Issues.pure _
      · exact dependentReady_waiting_plain run dep

theorem dependencyGate_plain (run : DagRun) (d : DAG) (t : Task) (ti : TaskInstance) :
    Plain (dependencyGate env run d t ti) := by
  unfold dependencyGate
  split
  · exact Issues.pure _
  · refine Issues.bind (dependentReady_plain env run d _) fun answer => ?_
    dsimp only
    split
    · exact Issues.pure _
    · split
      · exact Issues.pure _
      · exact Issues.bind (plain_perform rfl) fun now => Issues.bind (plain_ask rfl) fun _ => Issues.pure _

theorem timeoutInstances_cancels (fin : Time) (tis : List TaskInstance) : Cancelling (timeoutInstances fin tis) := by
  refine Issues.forEach fun ti => ?_
  split
  · exact Issues.pure ()
  · have writes : Cancelling (do
        let _ ← (updateTaskInstanceGuarded { ti with state := .timedOut, finishedAt := some fin } ti.executorRef).attempt
        pure () : Act Unit) := Issues.bind (Issues.attempt (issues_ask rfl)) fun _ => Issues.pure ()
    split
    · exact Issues.bind (cancelAttempt_cancels cascade_cancels _) fun _ => writes
    · exact writes

theorem timeoutRun_plain (run : DagRun) (tis : List TaskInstance) : Plain (timeoutRun run tis) := by
  refine Issues.bind (plain_perform rfl) fun fin => Issues.bind (plain_attempt rfl) fun written => ?_
  cases written with
  | error e => exact Issues.pure ()
  | ok _ => exact (timeoutInstances_cancels fin tis).mild.plain

theorem enforceDeadlines_plain (d : DAG) (run : DagRun) (tis : List TaskInstance) : Plain (enforceDeadlines d run tis) := by
  unfold enforceDeadlines
  split
  · exact Issues.pure ()
  · refine Issues.bind (plain_perform rfl) fun now => ?_
    split
    · exact timeoutRun_plain run tis
    · exact Issues.pure ()

theorem finalizeRun_plain (run : DagRun) (d : DAG) : Plain (finalizeRun run d) := by
  refine Issues.bind (plain_ask rfl) fun tis => ?_
  split
  · exact enforceDeadlines_plain d run tis
  · refine Issues.bind (plain_perform rfl) fun fin => ?_
    split
    · exact plain_ask rfl
    · exact plain_ask rfl

theorem groupUp_plain (b : Budgets) (group : String) : Plain (groupUp b group) := by
  unfold groupUp
  split
  · exact Issues.pure _
  · split
    · exact Issues.pure _
    · exact Issues.bind (plain_perform rfl) fun _ => Issues.pure _

theorem dagBudget_plain (b : Budgets) (rt : ReadyTask) : Plain (dagBudget b rt) := by
  unfold dagBudget
  split
  · exact Issues.pure _
  · split
    · exact Issues.pure _
    · refine Issues.bind (plain_attempt rfl) fun counted => ?_
      cases counted with
      | ok used => exact Issues.bind (q := pure (rt.dagMaxTasks - used)) (Issues.pure _) fun _ => Issues.pure _
      | error e => exact Issues.bind (q := pure rt.dagMaxTasks) (Issues.pure _) fun _ => Issues.pure _

theorem poolBudget_plain (b : Budgets) (pool : String) : Plain (poolBudget b pool) := by
  unfold poolBudget
  split
  · exact Issues.pure _
  · refine Issues.bind (plain_attempt rfl) fun counted => ?_
    cases counted with
    | error e => exact Issues.pure _
    | ok used =>
      refine Issues.bind (q := poolSlots pool) ?_ fun slots => Issues.pure _
      refine Issues.bind (plain_attempt rfl) fun found => ?_
      cases found with
      | error e => exact Issues.pure _
      | ok p => exact Issues.pure _

theorem admitTask_plain (rt : ReadyTask) : Plain (admitTask rt) := by
  refine Issues.bind (plain_attempt rfl) fun found => ?_
  cases found with
  | error e => exact Issues.pure _
  | ok cur =>
    show Plain (ite (cur.state ≠ .scheduled) _ _ : Act Bool)
    split
    · exact Issues.pure _
    · refine Issues.bind (Issues.attempt ?_) fun launched => ?_
      · exact Issues.bind (plain_ask rfl) fun _ => plain_perform rfl
      · cases launched with
        | error e => exact Issues.pure _
        | ok _ => exact Issues.pure _

theorem admitRound_plain (b : Budgets) (rt : ReadyTask) : Plain (admitRound b rt) := by
  unfold admitRound
  split
  · exact Issues.pure _
  · refine Issues.bind (groupUp_plain b _) fun grouped => ?_
    obtain ⟨b, up⟩ := grouped
    dsimp only
    split
    · exact Issues.pure _
    · refine Issues.bind (dagBudget_plain _ rt) fun limited => ?_
      obtain ⟨b, within⟩ := limited
      dsimp only
      split
      · exact Issues.pure _
      · refine Issues.bind (poolBudget_plain _ _) fun found => ?_
        cases found with
        | none => exact Issues.pure _
        | some rem =>
          dsimp only
          split
          · exact Issues.pure _
          · refine Issues.bind (admitTask_plain rt) fun launched => ?_
            split
            · exact Issues.pure _
            · exact Issues.pure _

/-- A section: the lock, the body and the unlock. -/
theorem locked_issues {A : Type} {may : Op → Prop} {what : Section} {body : Act A} (enters : may (.lock what)) (leaves : may .unlock)
    (issues : Issues may body) : Issues may (locked what body) := by
  refine Issues.bind (Yields.perform enters) fun _ => Issues.bind (Issues.attempt issues) fun result => ?_
  refine Issues.bind (Yields.perform leaves) fun _ => ?_
  cases result with
  | ok a => exact Issues.pure a
  | error e => exact Yields.fail e

theorem admission_plain (ready : List ReadyTask) : Plain (do
    let active ← countActiveTaskInstances
    let _ ← Prog.fold admitRound (ready.insertionSort fun a b => a.before b) { global := env.maxConcurrentTasks - active }
    pure () : Act Unit) := by
  refine Issues.bind (plain_ask rfl) fun active => ?_
  exact Issues.bind (Issues.fold admitRound_plain) fun _ => Issues.pure ()

/-- The admission is a section of its own. -/
theorem admission_issues {may : Op → Prop} (plain : ∀ o : Op, o.Plain → may o) (enters : may (.lock .admission))
    (leaves : may .unlock) (ready : List ReadyTask) : Issues may (locked .admission do
      let active ← countActiveTaskInstances
      let _ ← Prog.fold admitRound (ready.insertionSort fun a b => a.before b) { global := env.maxConcurrentTasks - active }
      pure () : Act Unit) :=
  locked_issues enters leaves (Yields.permits (admission_plain env ready) plain)

theorem priorityDAGs_plain (queued : List DagRun) : Plain (priorityDAGs queued) :=
  Issues.fold fun _ _ => Issues.bind (plain_perform rfl) fun _ => Issues.pure _

theorem discardRun_plain (run : DagRun) : Plain (discardRun run) := by
  refine Issues.bind (plain_perform rfl) fun now => Issues.bind (plain_attempt rfl) fun written => ?_
  cases written with
  | error e => exact Issues.pure ()
  | ok _ =>
    refine Issues.bind (plain_attempt rfl) fun listed => ?_
    cases listed with
    | error e => exact Issues.pure ()
    | ok tis =>
      refine Issues.forEach fun ti => ?_
      split
      · exact Issues.pure ()
      · exact issues_logged (plain_ask rfl)

end Processing

/-! ### Deliveries and the schedule -/

section Deliveries

variable (env : Env)

theorem upstreamSucceeded_delivers (date : Time) (up : DagID) : Conveying (upstreamSucceeded date up) := by
  refine Issues.bind (Yields.perform rfl) fun cached => ?_
  cases cached with
  | none => exact Issues.pure _
  | some _ =>
    refine Issues.bind (Issues.attempt (issues_ask rfl)) fun found => ?_
    split
    · exact Issues.pure _
    · exact Issues.pure _
    · exact Yields.fail _

theorem allUpstreamsSucceeded_delivers (date : Time) (ups : List DagID) : Conveying (allUpstreamsSucceeded date ups) := by
  induction ups with
  | nil => exact Issues.pure _
  | cons up ups ih =>
    refine Issues.bind (upstreamSucceeded_delivers date up) fun satisfied => ?_
    split
    · exact ih
    · exact Issues.pure _

theorem triggerDownstream_delivers (date : Time) (dn : DagID) : Conveying (triggerDownstream env date dn) := by
  refine Issues.bind (issues_ask rfl) fun ups => Issues.bind (allUpstreamsSucceeded_delivers date ups) fun satisfied => ?_
  split
  · refine Issues.bind (Yields.perform rfl) fun cached => ?_
    cases cached with
    | none => exact Issues.pure _
    | some c =>
      dsimp only
      split
      · exact Issues.pure _
      · refine Issues.bind (Issues.attempt (issues_ask rfl)) fun created => ?_
        split
        · exact Issues.pure _
        · exact Issues.pure _
        · exact Issues.pure _
        · exact Issues.pure _
        · exact Yields.fail _
  · exact Issues.pure _

theorem triggerDownstreams_delivers (upstream : DagRun) : Conveying (triggerDownstreams env upstream) :=
  Issues.bind (issues_ask rfl) fun _ =>
    Issues.fold fun _ dn => Issues.bind (triggerDownstream_delivers env upstream.logicalDate dn) fun _ => Issues.pure _

theorem deliverDependencyEvent_delivers (event : Event) (run : RunID) : Conveying (deliverDependencyEvent env event run) := by
  have consumes : Conveying (logged (consumeEvent event.id)) := issues_logged (issues_ask rfl)
  refine Issues.bind (Issues.attempt (issues_ask rfl)) fun found => ?_
  split
  · exact consumes
  · exact Issues.pure _
  · split
    · split
      · exact consumes
      · exact Issues.pure _
    · refine Issues.bind (Issues.attempt (triggerDownstreams_delivers env _)) fun triggered => ?_
      split
      · exact Issues.pure _
      · exact Issues.pure _
      · exact consumes

theorem processPendingDependencyEvents_delivers : Conveying (processPendingDependencyEvents env) := by
  refine Issues.bind (Issues.attempt (issues_ask rfl)) fun listed => ?_
  split
  · exact Issues.pure _
  · refine Issues.forEach fun event => ?_
    split
    · exact deliverDependencyEvent_delivers env event _
    · exact issues_logged (issues_ask rfl)

theorem triggerSubscriber_delivers (event : Event) (key : String) (dag : DagID) : Conveying (triggerSubscriber env event key dag) := by
  refine Issues.bind (Yields.perform rfl) fun cached => ?_
  cases cached with
  | none => exact Issues.pure _
  | some c =>
    dsimp only
    split
    · exact Issues.pure _
    · refine Issues.bind (Yields.perform rfl) fun date => Issues.bind (Issues.attempt (issues_ask rfl)) fun created => ?_
      split
      · exact Issues.pure _
      · exact Issues.pure _
      · exact Issues.pure _

theorem deliverExternalEvent_delivers (dags : List DAG) (event : Event) (key : String) :
    Conveying (deliverExternalEvent env dags event key) := by
  refine Issues.bind (Issues.fold fun deferred dag => ?_) fun deferred => ?_
  · exact Issues.bind (triggerSubscriber_delivers env event key dag) fun more => Issues.pure _
  · split
    · exact Issues.pure _
    · exact issues_logged (issues_ask rfl)

theorem processPendingExternalEvents_delivers : Conveying (processPendingExternalEvents env) := by
  refine Issues.bind (Issues.attempt (issues_ask rfl)) fun listed => ?_
  split
  · exact Issues.pure _
  · exact Issues.pure _
  · refine Issues.bind (Yields.perform rfl) fun dags => Issues.forEach fun event => ?_
    split
    · exact deliverExternalEvent_delivers env dags event _
    · exact deliverExternalEvent_delivers env dags event _

theorem scheduleAnchor_delivers (d : DAG) : Conveying (scheduleAnchor d) := by
  refine Issues.bind (Issues.attempt (issues_ask rfl)) fun latest => ?_
  split
  · exact Issues.pure _
  · split
    · exact Issues.pure _
    · exact Yields.perform rfl

theorem createDueRun_delivers (now : Time) (active : ActiveRuns) (d : DAG) : Conveying (createDueRun env now active d) := by
  have counts : Conveying (activeRunsOf active d.dagID) := by
    unfold activeRunsOf
    split
    · exact Issues.pure _
    · refine Issues.bind (Issues.attempt (issues_ask rfl)) fun counted => ?_
      split
      · exact Issues.pure _
      · exact Issues.pure _
  unfold createDueRun
  split
  · exact Issues.pure _
  · refine Issues.bind (Yields.perform rfl) fun cached => ?_
    split
    · exact Issues.pure _
    · split
      · exact Issues.pure _
      · split
        · exact Issues.pure _
        · refine Issues.bind (scheduleAnchor_delivers d) fun anchor => ?_
          dsimp only
          split
          · exact Issues.pure _
          · refine Issues.bind counts fun counted => ?_
            split
            · exact Issues.pure _
            · split
              · exact Issues.pure _
              · refine Issues.bind (Issues.attempt (issues_ask rfl)) fun created => ?_
                split
                · exact Issues.pure _
                · exact Issues.pure _

theorem createDueRuns_delivers (now : Time) : Conveying (createDueRuns env now) := by
  have creates (active : ActiveRuns) : Conveying (do
      let dags ← perform .allDAGs
      let _ ← Prog.fold (createDueRun env now) dags active
      pure () : Act Unit) :=
    Issues.bind (Yields.perform rfl) fun dags => Issues.bind (Issues.fold (createDueRun_delivers env now)) fun _ => Issues.pure ()
  refine Issues.bind (Issues.attempt (issues_ask rfl)) fun counted => ?_
  cases counted with
  | ok count => exact creates _
  | error e => exact creates _

end Deliveries

/-! ### The processing of a run, but for its launches of child runs -/

section Within

variable {env : Env} {S A B : Type} {c : Contract statements S} {keep : S → Prop} {s : S}

/-- The program is verified inside the contract and leaves the assertion true. -/
abbrev Keeps (c : Contract statements S) (keep : S → Prop) (p : Act A) : Prop :=
  ∀ s, keep s → p.Safe c (fun _ t => keep t) s

/-- The program never fails, besides. -/
abbrev Completes (c : Contract statements S) (keep : S → Prop) (p : Act A) : Prop :=
  ∀ s, keep s → p.Safe c (Prog.returns fun _ t => keep t) s

theorem Keeps.promise {may : Op → Prop} {good : A → Prop} {p : Act A} (frame : Prog.Frame c may keep)
    (yields : Yields may good p) : Keeps c keep p :=
  fun _ holds => (yields.within frame holds).mono fun _ _ ended => ended.2

theorem Keeps.pure (a : A) : Keeps c keep (pure a) := fun _ holds => holds

theorem Keeps.bind {p : Act A} {k : A → Act B} (first : Keeps c keep p) (next : ∀ a, Keeps c keep (k a)) :
    Keeps c keep (p >>= k) :=
  fun s holds => Prog.Safe.bind _ (first s holds) (fun a t kept => next a t kept) fun _ _ kept => kept

theorem Keeps.fold {body : A → B → Act A} {items : List B} (round : ∀ a, ∀ b ∈ items, Keeps c keep (body a b)) (a : A) :
    Keeps c keep (Prog.fold body items a) := by
  induction items generalizing a with
  | nil => exact Keeps.pure a
  | cons b rest ih =>
    refine Keeps.bind (round a b (.head _)) fun a => ?_
    exact ih (fun a other member => round a other (.tail _ member)) a

/-- A section keeps what its body keeps, if the lock does no harm. -/
theorem Keeps.locked {may : Op → Prop} {what : Section} {body : Act A} (frame : Prog.Frame c may keep) (enters : may (.lock what))
    (leaves : may .unlock) (keeps : Keeps c keep body) : Keeps c keep (locked what body) := by
  refine Keeps.bind (.promise frame (Yields.perform enters)) fun _ => ?_
  refine Keeps.bind (fun s holds => Prog.Safe.attempt (keeps s holds)) fun result => ?_
  refine Keeps.bind (.promise frame (Yields.perform leaves)) fun _ => ?_
  cases result with
  | ok a => exact Keeps.pure a
  | error e => exact fun _ holds => holds

theorem Completes.keeps {p : Act A} (completes : Completes c keep p) : Keeps c keep p := by
  intro s holds
  refine (completes s holds).mono fun result t ended => ?_
  cases result with
  | ok a => exact ended
  | error e => exact ended.elim

theorem Completes.pure (a : A) : Completes c keep (pure a) := fun _ holds => holds

theorem Completes.bind {p : Act A} {k : A → Act B} (first : Completes c keep p) (next : ∀ a, Completes c keep (k a)) :
    Completes c keep (p >>= k) :=
  fun s holds => Prog.Safe.andThen _ (first s holds) fun a t kept => next a t kept

theorem Completes.attempt {p : Act A} (keeps : Keeps c keep p) : Completes c keep p.attempt :=
  fun s holds => Prog.Safe.attempt (keeps s holds)

theorem Completes.perform {may : Op → Prop} {o : Op} (frame : Prog.Frame c may keep) (permitted : may o) :
    Completes c keep (perform o) := by
  intro s holds s' relied inv
  have kept := frame.rely s s' relied holds
  exact ⟨frame.permit o s' permitted inv kept, fun r t stepped _ => frame.step o s' r t permitted inv stepped kept⟩

theorem Completes.fold {body : A → B → Act A} {items : List B} (round : ∀ a, ∀ b ∈ items, Completes c keep (body a b)) (a : A) :
    Completes c keep (Prog.fold body items a) := by
  induction items generalizing a with
  | nil => exact Completes.pure a
  | cons b rest ih =>
    refine Completes.bind (round a b (.head _)) fun a => ?_
    exact ih (fun a other member => round a other (.tail _ member)) a

theorem Completes.logged {p : Act Unit} (keeps : Keeps c keep p) : Completes c keep (logged p) :=
  Completes.bind (.attempt keeps) fun _ => .pure ()

/-- Every launch of a sub-workflow task of the run is verified. -/
def Launches (env : Env) (c : Contract statements S) (keep : S → Prop) (run : DagRun) : Prop :=
  ∀ after t ti now, SameLink run after → Keeps c keep (launchSubdag env after t ti now)

variable {run after : DagRun}

theorem discardRun_completes (frame : Prog.Frame c Op.Plain keep) (run : DagRun) : Completes c keep (discardRun run) := by
  refine Completes.bind (.perform frame rfl) fun now => ?_
  refine Completes.bind (.attempt (.promise frame (plain_ask rfl))) fun written => ?_
  cases written with
  | error e => exact .pure ()
  | ok _ =>
    refine Completes.bind (.attempt (.promise frame (plain_ask rfl))) fun listed => ?_
    cases listed with
    | error e => exact .pure ()
    | ok tis =>
      refine Completes.fold (fun _ ti _ => ?_) ()
      beta_reduce
      split
      · exact .pure ()
      · exact .logged (.promise frame (plain_ask rfl))

theorem admitReady_completes {may : Op → Prop} (frame : Prog.Frame c may keep) (plain : ∀ o : Op, o.Plain → may o)
    (enters : may (.lock .admission)) (leaves : may .unlock) (ready : List ReadyTask) :
    Completes c keep (admitReady env ready) := by
  unfold admitReady
  split
  · exact .pure ()
  · exact .logged (.promise frame (admission_issues env plain enters leaves ready))

theorem collectTask_keeps (frame : Prog.Frame c Op.Plain keep) (launches : Launches env c keep run)
    (link : SameLink run after) (d : DAG) (col : Collected) (t : Task) : Keeps c keep (collectTask env after d col t) := by
  unfold collectTask
  split
  · exact .pure _
  · rename_i ti _
    dsimp only
    split
    · split
      · exact .pure _
      · refine Keeps.bind ?_ fun ti => .pure _
        refine Keeps.bind (.promise frame (plain_perform rfl)) fun now => ?_
        split
        · exact launches after t ti now link
        · exact .promise frame (mirrorSubdag_plain ti now)
    · apply Keeps.promise frame
      split
      · exact Issues.pure _
      · split
        · exact Issues.pure _
        · refine Issues.bind (dependencyGate_plain env after d t ti) fun gate => ?_
          have skips (runs : Bool) : Plain (if runs = true then
                pure { col with ready := col.ready ++ [⟨after, t, ti, d.maxActiveTasks⟩] }
              else do
                let now ← timeNow
                let ti := { ti with state := .skipped, finishedAt := some now }
                updateTaskInstance ti
                pure { col with byTask := col.byTask.set ti } : Act Collected) := by
            split
            · exact Issues.pure _
            · exact Issues.bind (plain_perform rfl) fun _ => Issues.bind (plain_ask rfl) fun _ => Issues.pure _
          split
          · exact Issues.pure _
          · exact Issues.pure _
          · split
            · exact skips true
            · exact Issues.bind (plain_perform rfl) skips

theorem advanceRun_completes (frame : Prog.Frame c Op.Plain keep) (launches : Launches env c keep run) :
    Completes c keep (advanceRun env run) := by
  unfold advanceRun
  intro s holds
  refine Prog.Safe.andThen (fun (r : Except Failure (Option (DagRun × DAG × ByTask))) t =>
      (∀ a, r = .ok a → ∀ after d byTask, a = some (after, d, byTask) → SameLink run after) ∧ keep t)
    (Prog.Safe.attempt ((prepareRun_plain env run).within frame holds)) fun prepared t kept => ?_
  obtain ⟨linked, kept⟩ := kept
  match prepared, linked with
  | .error e, _ => exact kept
  | .ok none, _ => exact kept
  | .ok (some (after, d, byTask)), linked =>
    have link : SameLink run after := linked _ rfl after d byTask rfl
    refine Completes.bind ?_ (fun col => ?_) t kept
    · refine Completes.fold (fun col task _ => ?_) _
      split
      · exact .pure _
      · refine Completes.bind (.attempt (collectTask_keeps frame launches link d col task)) fun collected => ?_
        cases collected with
        | ok _ => exact .pure _
        | error e => exact .pure _
    · dsimp only
      split
      · exact Completes.bind (.logged (.promise frame (finalizeRun_plain after d))) fun _ => .pure _
      · exact .pure _

end Within

end Cronova.Scheduler
