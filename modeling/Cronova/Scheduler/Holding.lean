import Cronova.Scheduler.Finishing

/-! The operator hold. `processRun` of a held run ends where its dispatch would begin, so what
comes after the collection is lost with it: the finalization and the deadline. -/

set_option autoImplicit false

namespace Cronova.Scheduler

open Model Store Process
open Calendar (Time)

/-! ### Surroundings that answer by the statement -/

section Consulting

variable {A B : Type} {surroundings : Op → Answer} {w : World} {post : Except Failure B → World → Prop}

/-- A program that runs alone, each statement of which is answered in its own way. -/
abbrev consulting (surroundings : Op → Answer) : Contract statements World :=
  Prog.sequential (World.consult surroundings) fun _ => True

theorem consult_replay (surroundings : Op → Answer) (o : Op) (w : World) (answers : List Answer) :
    World.replay o (w, surroundings o :: answers) = ((World.consult surroundings o w).1, (World.consult surroundings o w).2, answers) := by
  unfold World.replay World.consult
  dsimp only [List.headD_cons, List.tail_cons]
  split <;> rfl

/-- What holds whatever a database that serves answers, holds of these answers. -/
theorem consulted (served : ∀ o, (surroundings o).served = true) {p : Act B}
    (safe : ∀ answers, Served (w, answers) → p.Safe serving (fun r s => post r s.1) (w, answers)) :
    p.Safe (consulting surroundings) post w := by
  have nothing (v : World) : Served (v, []) := fun a member => nomatch member
  induction p generalizing w with
  | done b => exact safe [] (nothing w)
  | fail e => exact safe [] (nothing w)
  | call o k ih =>
    rintro _ rfl _
    refine ⟨trivial, fun reply v stepped _ => ih reply fun answers left => ?_⟩
    have whole : Served (w, surroundings o :: answers) := List.forall_mem_cons.mpr ⟨served o, left⟩
    refine ((safe _ whole) _ rfl whole).2 reply (v, answers) ?_ left
    obtain ⟨rfl, rfl⟩ := Prod.mk.inj stepped
    exact consult_replay surroundings o w answers

theorem consulting_perform {o : Op} {k : o.Reply → Act B}
    (onward : (k (World.consult surroundings o w).1).Safe (consulting surroundings) post (World.consult surroundings o w).2) :
    (perform o >>= k).Safe (consulting surroundings) post w := by
  rintro _ rfl _
  refine ⟨trivial, fun reply v stepped _ => ?_⟩
  obtain ⟨rfl, rfl⟩ := Prod.mk.inj stepped
  exact onward

theorem consulting_now {k : Time → Act B} (onward : (k (surroundings .now).now).Safe (consulting surroundings) post w) :
    (timeNow >>= k).Safe (consulting surroundings) post w :=
  consulting_perform (o := .now) onward

/-- A statement that reads, with its error as a value. -/
theorem consulting_attempt (served : ∀ o, (surroundings o).served = true) {o : Op} {get : o.Reply → Except StoreError A}
    {k : Except Failure A → Act B} {found : Except StoreError A}
    (reads : ∀ a, ∃ reply v, World.perform 0 o a w = some (reply, v, []) ∧ Holds w.db w v ∧
      ((a.served = true ∧ get reply = found) ∨ (a.served = false ∧ get reply = .error .unavailable)))
    (onward : ∀ v, Holds w.db w v → (k (found.mapError .store)).Safe (consulting surroundings) post v) :
    ((ask o get).attempt >>= k).Safe (consulting surroundings) post w := by
  refine Prog.Safe.andThen (fun r v => r = found.mapError Failure.store ∧ Holds w.db w v) ?_
    fun r v answered => answered.1 ▸ onward v answered.2
  refine consulted served fun answers _ => ?_
  have whole : ((ask o get).attempt >>= fun r => pure r).Safe serving (fun r s =>
      Prog.returns (fun r v => r = found.mapError Failure.store ∧ Holds w.db w v) r s.1) (w, answers) :=
    serving_attempt reads fun s world => ⟨rfl, world⟩
  rwa [show ((ask o get).attempt >>= fun r => pure r) = (ask o get).attempt from Prog.bind_done _] at whole

/-- A statement that reads, and finds. -/
theorem consulting_read (served : ∀ o, (surroundings o).served = true) {o : Op} {get : o.Reply → Except StoreError A}
    {k : A → Act B} {a : A}
    (reads : ∀ x, ∃ reply v, World.perform 0 o x w = some (reply, v, []) ∧ Holds w.db w v ∧
      ((x.served = true ∧ get reply = .ok a) ∨ (x.served = false ∧ get reply = .error .unavailable)))
    (onward : ∀ v, Holds w.db w v → (k a).Safe (consulting surroundings) post v) :
    (ask o get >>= k).Safe (consulting surroundings) post w := by
  refine Prog.Safe.andThen (fun b v => b = a ∧ Holds w.db w v) ?_ fun b v found => found.1 ▸ onward v found.2
  refine consulted served fun answers _ => ?_
  have whole : (ask o get >>= pure).Safe serving (fun r s =>
      Prog.returns (fun b v => b = a ∧ Holds w.db w v) r s.1) (w, answers) :=
    serving_read reads (fun b t same world => ⟨(Except.ok.inj same).symm, world⟩) fun e t failed _ => nomatch failed
  rwa [show (ask o get >>= pure) = ask o get from Prog.bind_done _] at whole

end Consulting

/-! ### The same run, not held -/

section Released

variable (env : Env)

/-- The run as it would be if the operator had not put it on hold. -/
def released (run : DagRun) : DagRun := { run with held := false }

/-- `collectTask`; without `dispatch` nothing is appended to the ready list and no child is started. -/
def gatherTask (dispatch : Bool) (run : DagRun) (d : DAG) (c : Collected) (t : Task) : Act Collected :=
  match c.byTask.get t.id with
  | none => pure c
  | some ti =>
    if t.type = .subdag ∧ (ti.state = .scheduled ∨ ti.state = .running) then
      if ti.state = .scheduled ∧ (!(taskGate t c.byTask).ready || !dispatch) then pure c else do
        let ti ← advanceSubdag env run t ti
        pure { c with byTask := c.byTask.set ti }
    else if ti.state ≠ .scheduled then pure c
    else if !(taskGate t c.byTask).ready then pure c
    else do
      match ← dependencyGate env run d t ti with
      | none => pure c
      | some (some resolved) => pure { c with byTask := c.byTask.set resolved }
      | some none =>
        let runs ← if t.when_ = "" then pure true else perform (.evalWhen run t (ti.tryNumber + 1))
        if runs then pure { c with ready := if dispatch then c.ready ++ [⟨run, t, ti, d.maxActiveTasks⟩] else c.ready } else
        let now ← timeNow
        let ti := { ti with state := .skipped, finishedAt := some now }
        updateTaskInstance ti
        pure { c with byTask := c.byTask.set ti }

/-- `collectReady`, with or without dispatch. -/
def gatherReady (dispatch : Bool) (run : DagRun) (d : DAG) (byTask : ByTask) : Act Collected :=
  Prog.fold (fun c t =>
    if c.failed.isSome then pure c else do
      match ← (gatherTask env dispatch run d c t).attempt with
      | .ok c => pure c
      | .error e => pure { c with failed := some e }) d.tasks { byTask }

/-- The rest of `processRun` after its preparation, with or without dispatch. -/
def proceed (dispatch : Bool) : Except Failure (Option (DagRun × DAG × ByTask)) → Act (List ReadyTask)
  | .error _ => pure []
  | .ok none => pure []
  | .ok (some (run, d, byTask)) => do
    let c ← gatherReady env dispatch run d byTask
    if c.failed.isNone then logged (finalizeRun run d)
    pure c.ready

/-- What the comment on the hold promises: the run is processed like the same run not held, and a
hold takes only the dispatch out. -/
def intendedRun (run : DagRun) : Act (List ReadyTask) :=
  locked (.process run) ((prepareRun env (released run)).attempt >>= proceed env !run.held)

variable {env} {run : DagRun} {d : DAG}

theorem gatherTask_true : gatherTask env true run d = collectTask env run d := by
  funext c t
  unfold gatherTask collectTask
  simp only [Bool.not_true, Bool.or_false, if_true] <;> rfl

theorem gatherReady_true (byTask : ByTask) : gatherReady env true run d byTask = collectReady env run d byTask := by
  unfold gatherReady collectReady
  rw [gatherTask_true] <;> rfl

/-- A run that is not held is processed as intended. -/
theorem intendedRun_released (free : run.held = false) : intendedRun env run = processRun env run := by
  have same : released run = run := by rw [released, ← free]
  unfold intendedRun processRun advanceRun
  rw [same, free]
  refine congrArg _ (congrArg _ (funext fun prepared => ?_))
  match prepared with
  | .error _ => rfl
  | .ok none => rfl
  | .ok (some (run, d, byTask)) =>
    show (gatherReady env true run d byTask >>= _) = _
    rw [gatherReady_true]

theorem dagForRun_held (held : Bool) (run : DagRun) : dagForRun env { run with held } =
    (dagForRun env run).bind fun r => pure (r.1, { r.2 with held }) := by
  unfold dagForRun
  dsimp only
  split
  · simp only [Prog.bind_eq, Prog.bind_assoc, Prog.pure_eq, Prog.done_bind]
  · simp only [Prog.bind_eq, Prog.bind_assoc, Prog.pure_eq, Prog.done_bind]
    refine congrArg _ (funext fun cached => ?_)
    cases cached with
    | some cached => simp only [Prog.bind_assoc, Prog.done_bind, snapshotRun]
    | none => simp only [Prog.bind_assoc, Prog.done_bind, snapshotRun]

theorem expandedRun_held (held : Bool) (run : DagRun) : expandedRun env { run with held } =
    (expandedRun env run).bind fun r => pure (r.1, { r.2.1 with held }, r.2.2) := by
  unfold expandedRun
  rw [dagForRun_held]
  simp only [Prog.bind_eq, Prog.bind_assoc, Prog.pure_eq, Prog.done_bind]
  refine congrArg _ (funext fun r => congrArg _ (funext fun tis => ?_))
  split
  · simp only [Prog.bind_assoc, Prog.done_bind]
    rfl
  · rfl

theorem startRun_held (held : Bool) (run : DagRun) :
    startRun { run with held } = (startRun run).bind fun r => pure { r with held } := by
  unfold startRun
  dsimp only
  split
  · simp only [Prog.bind_eq, Prog.bind_assoc, Prog.pure_eq, Prog.done_bind]
  · rfl

/-- A hold only ends the preparation without work. -/
theorem prepareRun_held (env : Env) (run : DagRun) :
    prepareRun env { run with held := true } = (prepareRun env (released run)).bind fun _ => pure none := by
  unfold prepareRun released
  rw [expandedRun_held true, expandedRun_held false]
  simp only [Prog.bind_eq, Prog.bind_assoc, Prog.pure_eq, Prog.done_bind]
  refine congrArg _ (funext fun r => ?_)
  split
  · simp only [Prog.bind_assoc, Prog.done_bind]
    rfl
  · rw [startRun_held true, startRun_held false]
    simp only [Prog.bind_assoc, Prog.pure_eq, Prog.done_bind]
    rfl

end Released

/-! ### What the preparation leaves -/

section Preparation

variable {env : Env} {run : DagRun} {s : World × List Answer}

/-- The copies that the collection would work on stand for the rows of a running run. -/
def Poised (id : RunID) : Except Failure (Option (DagRun × DAG × ByTask)) → World → Prop
  | .ok (some (run, _, byTask)), v => run.runID = id ∧ ∃ row, row.state = .running ∧ row.startedAt = run.startedAt ∧
    Reflects id row v byTask v
  | _, _ => True

/-- The row of a run and the copy at hand, which may differ in the hold. -/
def Stored (run : DagRun) (db : DB) : Prop :=
  ∃ row, db.run? run.runID = some row ∧ row.state = run.state ∧ row.startedAt = run.startedAt

/-- The run goes by this copy. -/
def Defined (run : DagRun) : Except Failure (DAG × DagRun) → World × List Answer → Prop
  | .ok (_, run'), t => run'.runID = run.runID ∧ run'.state = run.state ∧ Stored run' t.1.db
  | .error _, _ => True

/-- A run without a snapshot takes one, and its row with it. -/
theorem takeSnapshot_stands (d : DAG) (stored : Stored run s.1.db) : Prog.Safe serving (do
    let run := snapshotRun env run d
    updateDagRunDefinition run.runID run.definitionYAML run.definitionHash
    pure (d, run)) (Defined run) s := by
  refine alone_write (updateDagRunDefinition_writes _ _ _ s.1) (fun db u written world _ => ?_) fun e u _ _ _ => trivial
  obtain ⟨row, found, state, startedAt⟩ := stored
  obtain ⟨old, known, runs, _⟩ := DB.updateDagRunDefinition_ok written
  obtain rfl : row = old := Option.some.inj (found.symm.trans known)
  refine ⟨rfl, rfl, DB.setDefinition (snapshotRun env run d).definitionYAML (snapshotRun env run d).definitionHash row, ?_, state, startedAt⟩
  rw [world.db, runs]
  exact if_pos rfl

theorem parseDefinition_stands {yaml : String} {k : DAG → Act (DAG × DagRun)}
    (onward : ∀ d, (k d).Safe serving (Defined run) s) : (parseDefinition env yaml >>= k).Safe serving (Defined run) s := by
  unfold parseDefinition
  split
  · exact onward _
  · trivial

theorem dagForRun_stands (stored : Stored run s.1.db) : (dagForRun env run).Safe serving (Defined run) s := by
  unfold dagForRun
  split
  · exact parseDefinition_stands fun d => ⟨rfl, rfl, stored⟩
  · refine serving_perform (o := .cachedDAG run.dagID) (fun a => ⟨_, _, _, rfl, Holds.refl _⟩) fun cached t world => ?_
    rw [← world.db] at stored
    cases cached with
    | some cached => exact takeSnapshot_stands cached.dag stored
    | none =>
      refine serving_read (getDAG_reads run.dagID t.1) (fun row u _ world' => ?_) fun e u _ _ => trivial
      rw [← world'.db] at stored
      exact parseDefinition_stands fun d => takeSnapshot_stands d stored

/-- New instances leave the row of their run alone. -/
theorem expandRun_stands {d : DAG} {tis : List TaskInstance} {id : RunID} {row : Option DagRun} (stored : s.1.db.run? id = row) :
    (expandRun run d tis).Safe serving (fun _ t => t.1.db.run? id = row) s := by
  apply Prog.Safe.forEach fun _ t => t.1.db.run? id = row
  · exact stored
  · intro t rest u stored
    split
    · exact stored
    · refine serving_attempt_write (createTaskInstance_writes _ u.1) (fun db v written world => ?_) fun e v _ world => ?_
      · show v.1.db.run? id = row
        rw [world.db, DB.run?, (DB.createTaskInstance_ok written).2.2.1, ← DB.run?, stored]
      · rw [← world.db] at stored
        cases e with
        | alreadyExists => exact stored
        | _ => exact stored
  · exact fun t stored => stored

/-- The listing of a running or queued run, with the instances that were missing. -/
def Opened (run : DagRun) : Except Failure (DAG × DagRun × List TaskInstance) → World × List Answer → Prop
  | .ok (_, run', tis), t => run'.runID = run.runID ∧ run'.state = run.state ∧
    ∃ row, row.state = run'.state ∧ row.startedAt = run'.startedAt ∧ Reflects run.runID row t.1 tis t.1
  | .error _, _ => True

theorem expandedRun_stands (stored : Stored run s.1.db) : (expandedRun env run).Safe serving (Opened run) s := by
  have listed {row : DagRun} {t u : World × List Answer} (stored : t.1.db.run? run.runID = some row) (world : Holds t.1.db t.1 u.1) :
      Reflects run.runID row u.1 (t.1.db.listTaskInstances run.runID) u.1 :=
    ⟨fun id => by rw [world.db, get_listTaskInstances], by rw [world.db]; exact stored, rfl, rfl⟩
  refine Prog.Safe.bind _ (dagForRun_stands stored) ?_ fun e t _ => trivial
  rintro ⟨d, run'⟩ t ⟨own, same, row, stored, state, startedAt⟩
  dsimp only
  rw [own] at stored ⊢
  refine serving_read (listTaskInstances_reads run.runID t.1) (fun tis u found world => ?_) fun e u _ _ => trivial
  cases found
  split
  · rw [← world.db] at stored
    refine Prog.Safe.bind _ (expandRun_stands stored) (fun _ v stored => ?_) fun e v _ => trivial
    refine serving_read (listTaskInstances_reads run.runID v.1) (fun tis x found world => ?_) fun e x _ _ => trivial
    cases found
    exact ⟨own, same, row, state, startedAt, listed stored world⟩
  · exact ⟨own, same, row, state, startedAt, listed stored world⟩

theorem prepareRun_stands (stored : Stored run s.1.db) (active : run.state = .queued ∨ run.state = .running) :
    (prepareRun env run).Safe serving (fun r t => Poised run.runID r t.1) s := by
  refine Prog.Safe.bind _ (expandedRun_stands stored) ?_ fun e t _ => trivial
  rintro ⟨d, run', tis⟩ t ⟨own, same, row, state, startedAt, reflects⟩
  dsimp only
  split
  · refine Prog.Safe.bind (fun _ _ => True) ?_ (fun _ _ _ => trivial) fun e u _ => trivial
    refine serving_now fun fin u world => ?_
    exact alone_write_last (updateDagRunState_writes _ _ _ _ u.1) (fun _ _ _ _ _ => trivial) fun _ _ _ _ _ => trivial
  · rw [← own] at reflects ⊢
    rw [← same] at active
    refine (started_reflects active state startedAt reflects).mono fun r u ended => ?_
    obtain ⟨run'', row, byTask, begun, reflects, rfl⟩ := ended
    split
    · trivial
    · exact ⟨begun.runID, row, begun.state, begun.startedAt, reflects.rows, reflects.row, rfl, rfl⟩

end Preparation

/-! ### What a hold must not stop -/

section Settling

variable (env : Env) (surroundings : Op → Answer) (run : DagRun) (d : DAG) (db : DB)

/-- The answer of `dependentReady` in this database. -/
def dependencyIn (dep : DependsOnDag) : Bool × Bool :=
  match env.shift d.timezone run.logicalDate dep.offset with
  | none => (false, true)
  | some date =>
    if (db.getDagRunByLogicalDate dep.dag date).toOption.any (·.state == .success) then (true, false)
    else (false, decide (dep.timeout > 0 ∧
      (surroundings .now).now - run.startedAt.getD run.logicalDate > dep.timeout * Calendar.second))

/-- The instance of a task whose turn to be dispatched has come. -/
structure Due (t : Task) (ti : TaskInstance) : Prop where
  plain : t.type ≠ .subdag
  found : db.instance? ⟨run.runID, t.id⟩ = some ti
  scheduled : ti.state = .scheduled
  ready : (gateIn t (taskStates db run.runID)).ready = true

/-- The task is about to be settled, and not by an attempt: its child has ended or is gone, the
dependency that it waits for has timed out, or its condition is false. -/
inductive SettlesAlone (t : Task) : Prop where
  | mirrors {ti : TaskInstance} : t.type = .subdag → db.instance? ⟨run.runID, t.id⟩ = some ti → ti.state = .running →
      (∀ child row, ti.executorRef = .subdag child → db.run? child = some row → row.state.isTerminal = true) → SettlesAlone t
  | timesOut {ti : TaskInstance} {dep : DependsOnDag} : Due run db t ti → t.dependsOnDag = some dep →
      dependencyIn env surroundings run d db dep = (false, true) → SettlesAlone t
  | skips {ti : TaskInstance} : Due run db t ti →
      (∀ dep, t.dependsOnDag = some dep → (dependencyIn env surroundings run d db dep).1 = true) →
      t.when_ ≠ "" → (surroundings (.evalWhen run t (ti.tryNumber + 1))).yes = false → SettlesAlone t

/-- The run has not reached its deadline. -/
def InTime : Prop := ∀ started, run.startedAt = some started →
  ¬ (d.dagrunTimeout > 0 ∧ (surroundings .now).now - started ≥ d.dagrunTimeout * Calendar.second)

/-- Nothing but dispatches is left to do in this call. -/
structure Idle : Prop where
  unfinished : ¬ AllTerminal d.tasks (taskStates db run.runID)
  inTime : InTime surroundings run d
  rests : ∀ t ∈ d.tasks, ¬ SettlesAlone env surroundings run d db t

end Settling

/-! ### The collection without dispatch -/

section Gathering

variable {env : Env} {surroundings : Op → Answer} {run row : DagRun} {d : DAG} {start w v : World} {c c' : Collected} {t : Task}
  {ti next : TaskInstance} {settles : Prop}

/-- The task could still be dispatched, or mirrors a child. -/
def Waiting (db : DB) (run : RunID) (task : TaskID) : Prop :=
  ∃ state, taskStates db run task = some state ∧ (state = .scheduled ∨ state = .running)

/-- One task of the collection without dispatch: its row is written exactly if the task settles. -/
structure Passes (run : RunID) (row : DagRun) (start : World) (settles : Prop) (c c' : Collected) (before after : World) : Prop where
  failed : c'.failed = c.failed
  ready : c'.ready = c.ready
  reflects : Reflects run row start c'.byTask after
  onward : ∀ task, Waiting after.db run task → Waiting before.db run task
  rests : ¬ settles → after.db = before.db
  moves : settles → ∃ task, Waiting before.db run task ∧ ¬ Waiting after.db run task

theorem Passes.rested (unsettled : ¬ settles) (reflects : Reflects run.runID row start c.byTask w) (world : Holds w.db w v) :
    Passes run.runID row start settles c c w v where
  failed := rfl
  ready := rfl
  reflects := reflects.holds world
  onward _ waits := by rwa [world.db] at waits
  rests _ := world.db
  moves holds := absurd holds unsettled

theorem taskStates_reflects {byTask : ByTask} {id : RunID} (reflects : Reflects id row start byTask w) (task : TaskID) :
    taskStates w.db id task = byTask.states task :=
  congrArg (Option.map TaskInstance.state) (reflects.rows task)

/-- The write of a copy that waited and waits no longer. -/
theorem Passes.written (holds : settles) (reflects : Reflects run.runID row start c.byTask w)
    (found : c.byTask.get next.taskID = some ti) (waits : ti.state = .scheduled ∨ ti.state = .running)
    (settled : next.state ≠ .scheduled ∧ next.state ≠ .running) (after : Reflects run.runID row start (c.byTask.set next) v) :
    Passes run.runID row start settles c { c with byTask := c.byTask.set next } w v := by
  have now : taskStates v.db run.runID next.taskID = some next.state := by
    rw [taskStates_reflects after, ByTask.states, ByTask.get_set, if_pos rfl, found]
    rfl
  have gone : ¬ Waiting v.db run.runID next.taskID := by
    rintro ⟨state, same, waits⟩
    rw [now] at same
    cases same
    exact waits.elim settled.1 settled.2
  refine ⟨rfl, rfl, after, fun task waits => ?_, fun unsettled => absurd holds unsettled, fun _ => ⟨next.taskID, ?_, gone⟩⟩
  · by_cases own : task = next.taskID
    · exact absurd (own ▸ waits) gone
    · obtain ⟨state, same, waits⟩ := waits
      rw [taskStates_reflects after, ByTask.states, ByTask.get_set, if_neg own, ← ByTask.states, ← taskStates_reflects reflects] at same
      exact ⟨state, same, waits⟩
  · refine ⟨ti.state, ?_, waits⟩
    rw [taskStates_reflects reflects, ByTask.states, found]
    rfl

variable {B : Type} {post : Except Failure B → World → Prop} (served : ∀ o, (surroundings o).served = true)

include served

theorem consulting_update {id : RunID} {byTask : ByTask} {k : Unit → Act B} (reflects : Reflects id row start byTask w)
    (found : byTask.get next.taskID = some ti) (own : next.runID = id)
    (onward : ∀ v, Reflects id row start (byTask.set next) v → (k ()).Safe (consulting surroundings) post v) :
    (updateTaskInstance next >>= k).Safe (consulting surroundings) post w := by
  refine Prog.Safe.andThen (fun _ v => Reflects id row start (byTask.set next) v) ?_ fun _ v after => onward v after
  refine consulted served fun answers _ => ?_
  have whole : (updateTaskInstance next >>= fun _ => pure ()).Safe serving (fun r s =>
      Prog.returns (fun _ v => Reflects id row start (byTask.set next) v) r s.1) (w, answers) :=
    serving_update reflects found own fun t after => after
  rwa [show (updateTaskInstance next >>= fun _ => pure ()) = updateTaskInstance next from Prog.bind_done _] at whole

theorem consulting_finalize {id : RunID} {byTask : ByTask} {k : Unit → Act B} (reflects : Reflects id row start byTask w)
    (found : byTask.get next.taskID = some ti) (own : next.runID = id) (ref : ti.executorRef = next.executorRef)
    (unfinished : ti.state.isTerminal = false)
    (onward : ∀ v, Reflects id row start (byTask.set next) v → (k ()).Safe (consulting surroundings) post v) :
    (finalizeWrite next >>= k).Safe (consulting surroundings) post w := by
  refine Prog.Safe.andThen (fun _ v => Reflects id row start (byTask.set next) v) ?_ fun _ v after => onward v after
  refine consulted served fun answers _ => ?_
  have whole : (finalizeWrite next >>= fun _ => pure ()).Safe serving (fun r s =>
      Prog.returns (fun _ v => Reflects id row start (byTask.set next) v) r s.1) (w, answers) :=
    serving_finalize reflects found own ref unfinished fun t after => after
  rwa [show (finalizeWrite next >>= fun _ => pure ()) = finalizeWrite next from Prog.bind_done _] at whole

/-- The child that a reference names has ended or is gone. -/
def ChildEnded (db : DB) (ref : ExecutorRef) : Prop :=
  ∀ child row, ref = .subdag child → db.run? child = some row → row.state.isTerminal = true

/-- A running sub-workflow task is settled once its child has ended, and is left alone until then. -/
theorem mirrorSubdag_settles {id : RunID} {byTask : ByTask} {now : Time} (reflects : Reflects id row start byTask w)
    (found : byTask.get ti.taskID = some ti) (running : ti.state = .running) :
    (mirrorSubdag ti now).Safe (consulting surroundings) (Prog.returns fun next v => next.taskID = ti.taskID ∧
      ((ChildEnded w.db ti.executorRef ∧ next.state ≠ .scheduled ∧ next.state ≠ .running ∧
          Reflects id row start (byTask.set next) v) ∨
        (¬ ChildEnded w.db ti.executorRef ∧ next = ti ∧ Holds w.db w v))) w := by
  have own : ti.runID = id := congrArg InstanceKey.run (reflects.key found)
  have unfinished : ti.state.isTerminal = false := by rw [running]; rfl
  have records (ended : ChildEnded w.db ti.executorRef) {u : World} (reflects : Reflects id row start byTask u) :
      (recordFailure ti).Safe (consulting surroundings) (Prog.returns fun next v => next.taskID = ti.taskID ∧
        ((ChildEnded w.db ti.executorRef ∧ next.state ≠ .scheduled ∧ next.state ≠ .running ∧
            Reflects id row start (byTask.set next) v) ∨
          (¬ ChildEnded w.db ti.executorRef ∧ next = ti ∧ Holds w.db w v))) u := by
    refine consulting_now ?_
    refine consulting_finalize served reflects found own rfl unfinished fun v after => ⟨rfl, .inl ⟨ended, ?_, ?_, after⟩⟩
    · dsimp only
      split <;> rintro ⟨⟩
    · dsimp only
      split <;> rintro ⟨⟩
  unfold mirrorSubdag
  split
  · rename_i child ref
    refine consulting_attempt served (getDagRun_reads child w) fun v world => ?_
    cases stored : w.db.getDagRun child with
    | error e =>
      refine records (fun other row same found => ?_) (reflects.holds world)
      rw [ref] at same
      cases same
      rw [DB.getDagRun, found] at stored
      cases stored
    | ok child' =>
      have known := getDagRun_ok stored
      have ended (state : child'.state.isTerminal = true) : ChildEnded w.db ti.executorRef := by
        rintro other row same found
        rw [ref] at same
        cases same
        rw [known] at found
        cases found
        exact state
      have going (state : child'.state.isTerminal = false) : ¬ ChildEnded w.db ti.executorRef := by
        intro ended
        rw [ended child child' ref known] at state
        cases state
      dsimp only [Except.mapError]
      cases state : child'.state with
      | success =>
        have held : byTask.get ({ ti with state := .success, finishedAt := some now } : TaskInstance).taskID = some ti := found
        exact consulting_finalize served (reflects.holds world) held own rfl unfinished fun u after =>
          ⟨rfl, .inl ⟨ended (by rw [state]; rfl), by rintro ⟨⟩, by rintro ⟨⟩, after⟩⟩
      | failed | timedOut | cancelled => exact records (ended (by rw [state]; rfl)) (reflects.holds world)
      | queued | running => exact ⟨rfl, .inr ⟨going (by rw [state]; rfl), rfl, world⟩⟩
  · rename_i other
    exact records (fun child _ same _ => absurd same (other child)) reflects

/-- The gate answers as the database says, and asks only. -/
theorem dependentReady_answers (dep : DependsOnDag) : (dependentReady env run d dep).Safe (consulting surroundings)
    (Prog.returns fun answer v => answer = dependencyIn env surroundings run d w.db dep ∧ Holds w.db w v) w := by
  unfold dependentReady dependencyIn
  cases env.shift d.timezone run.logicalDate dep.offset with
  | none => exact ⟨rfl, Holds.refl _⟩
  | some date =>
    have waits {v : World} (world : Holds w.db w v) :
        (dependentReady.waiting run dep).Safe (consulting surroundings) (Prog.returns fun answer v => answer = (false, decide (dep.timeout > 0 ∧
          (surroundings .now).now - run.startedAt.getD run.logicalDate > dep.timeout * Calendar.second)) ∧ Holds w.db w v) v := by
      unfold dependentReady.waiting
      split
      · rename_i bounded
        refine consulting_now ⟨?_, world⟩
        simp [bounded]
      · rename_i unbounded
        refine ⟨?_, world⟩
        simp [unbounded]
    refine consulting_attempt served (getDagRunByLogicalDate_reads dep.dag date w) fun v world => ?_
    dsimp only
    cases w.db.getDagRunByLogicalDate dep.dag date with
    | error e => exact waits world
    | ok target =>
      show Prog.Safe _ (if target.state = .success then pure (true, false) else dependentReady.waiting run dep) _ v
      by_cases success : target.state = .success
      · rw [if_pos success, if_pos (by simp [Except.toOption, success])]
        exact ⟨rfl, world⟩
      · rw [if_neg success, if_neg (by simp [Except.toOption, success])]
        exact waits world

/-- What the `depends_on_dag` gate does with a scheduled task. -/
theorem dependencyGate_settles {id : RunID} {byTask : ByTask} (reflects : Reflects id row start byTask w)
    (found : byTask.get ti.taskID = some ti) : (dependencyGate env run d t ti).Safe (consulting surroundings) (Prog.returns fun gate v =>
      match gate with
      | none => (∃ dep, t.dependsOnDag = some dep ∧ dependencyIn env surroundings run d w.db dep = (false, false)) ∧ Holds w.db w v
      | some none => (∀ dep, t.dependsOnDag = some dep → (dependencyIn env surroundings run d w.db dep).1 = true) ∧ Holds w.db w v
      | some (some next) => (∃ dep, t.dependsOnDag = some dep ∧ dependencyIn env surroundings run d w.db dep = (false, true)) ∧
        next.taskID = ti.taskID ∧ next.state ≠ .scheduled ∧ next.state ≠ .running ∧ Reflects id row start (byTask.set next) v) w := by
  have own : ti.runID = id := congrArg InstanceKey.run (reflects.key found)
  unfold dependencyGate
  cases asks : t.dependsOnDag with
  | none => exact ⟨nofun, Holds.refl _⟩
  | some dep =>
    refine Prog.Safe.andThen _ (dependentReady_answers served dep) fun answer v answered => ?_
    obtain ⟨satisfied, timedOut⟩ := answer
    obtain ⟨answered, world⟩ := answered
    dsimp only
    cases satisfied with
    | true =>
      refine ⟨fun other same => ?_, world⟩
      cases same
      rw [← answered]
    | false =>
      cases timedOut with
      | false => exact ⟨⟨dep, rfl, answered.symm⟩, world⟩
      | true =>
        refine consulting_now ?_
        cases dep.onTimeout with
        | skip => exact consulting_update served (reflects.holds world) found own fun u after =>
            ⟨⟨dep, rfl, answered.symm⟩, rfl, nofun, nofun, after⟩
        | fail => exact consulting_update served (reflects.holds world) found own fun u after =>
            ⟨⟨dep, rfl, answered.symm⟩, rfl, nofun, nofun, after⟩

/-- Without dispatch, a task of the collection is written exactly if it settles. -/
theorem gatherTask_passes (reflects : Reflects run.runID row start c.byTask w) :
    (gatherTask env false run d c t).Safe (consulting surroundings)
      (Prog.returns fun c' v => Passes run.runID row start (SettlesAlone env surroundings run d w.db t) c c' w v) w := by
  have gates : gateIn t (taskStates w.db run.runID) = taskGate t c.byTask := by
    rw [taskGate_eq, show taskStates w.db run.runID = c.byTask.states from funext (taskStates_reflects reflects)]
  unfold gatherTask
  cases found : c.byTask.get t.id with
  | none =>
    have missing : w.db.instance? ⟨run.runID, t.id⟩ = none := (reflects.rows t.id).trans found
    refine .rested (fun settles => ?_) reflects (Holds.refl _)
    cases settles with
    | mirrors _ stored _ _ =>
      rw [missing] at stored
      cases stored
    | timesOut due _ _ | skips due _ _ _ =>
      have stored := due.found
      rw [missing] at stored
      cases stored
  | some ti =>
    have stored : w.db.instance? ⟨run.runID, t.id⟩ = some ti := (reflects.rows t.id).trans found
    have same {other : TaskInstance} (known : w.db.instance? ⟨run.runID, t.id⟩ = some other) : other = ti :=
      Option.some.inj (known.symm.trans stored)
    have task : ti.taskID = t.id := (ByTask.get_some found).2
    have held : c.byTask.get ti.taskID = some ti := task ▸ found
    -- a task that is neither mirrored nor at its turn does not settle
    have rests (unmirrored : ¬ (t.type = .subdag ∧ ti.state = .running)) (early : ¬ Due run w.db t ti) :
        ¬ SettlesAlone env surroundings run d w.db t := by
      intro settles
      cases settles with
      | mirrors sub known running _ => exact unmirrored ⟨sub, same known ▸ running⟩
      | timesOut due _ _ => exact early (same due.found ▸ due)
      | skips due _ _ _ => exact early (same due.found ▸ due)
    dsimp only
    split
    · rename_i subdag
      have early : ¬ Due run w.db t ti := fun due => due.plain subdag.1
      split
      · rename_i scheduled
        exact .rested (rests (fun running => nomatch scheduled.1.symm.trans running.2) early) reflects (Holds.refl _)
      · rename_i other
        have running : ti.state = .running := subdag.2.resolve_left fun scheduled => other ⟨scheduled, by simp⟩
        refine Prog.Safe.andThen (fun next v => next.taskID = ti.taskID ∧
          ((ChildEnded w.db ti.executorRef ∧ next.state ≠ .scheduled ∧ next.state ≠ .running ∧
              Reflects run.runID row start (c.byTask.set next) v) ∨
            (¬ ChildEnded w.db ti.executorRef ∧ next = ti ∧ Holds w.db w v))) ?_ fun next v ended => ?_
        · unfold advanceSubdag
          refine consulting_now ?_
          rw [if_neg (by rw [running]; exact nofun)]
          exact mirrorSubdag_settles served reflects held running
        · obtain ⟨own, ⟨ended, scheduled, active, after⟩ | ⟨going, rfl, world⟩⟩ := ended
          · exact .written (.mirrors subdag.1 stored running ended) reflects (own ▸ held) (.inr running) ⟨scheduled, active⟩ after
          · refine ⟨rfl, rfl, (reflects.holds world).same held, fun task waits => ?_, fun _ => world.db, fun settles => ?_⟩
            · rwa [world.db] at waits
            · cases settles with
              | mirrors _ known _ ended => exact absurd (same known ▸ ended) going
              | timesOut due _ _ | skips due _ _ _ => exact absurd subdag.1 due.plain
    · rename_i plain
      split
      · rename_i moved
        refine .rested (rests (fun mirrored => plain ⟨mirrored.1, .inr mirrored.2⟩) fun due => moved due.scheduled) reflects (Holds.refl _)
      · rename_i waits
        have scheduled : ti.state = .scheduled := not_not.mp waits
        have unmirrored : ¬ (t.type = .subdag ∧ ti.state = .running) := fun mirrored => plain ⟨mirrored.1, .inr mirrored.2⟩
        split
        · rename_i closed
          refine .rested (rests unmirrored fun due => ?_) reflects (Holds.refl _)
          have ready := due.ready
          rw [gates] at ready
          rw [ready] at closed
          cases closed
        · rename_i opened
          have due : Due run w.db t ti := ⟨fun sub => plain ⟨sub, .inl scheduled⟩, stored, scheduled, by rw [gates]; simpa using opened⟩
          refine Prog.Safe.andThen _ (dependencyGate_settles served reflects held) fun gate v gated => ?_
          match gate, gated with
          | none, ⟨⟨dep, asks, waiting⟩, world⟩ =>
            refine .rested (fun settles => ?_) reflects world
            cases settles with
            | mirrors sub _ _ _ => exact due.plain sub
            | timesOut _ asks' timedOut =>
              cases asks.symm.trans asks'
              rw [waiting] at timedOut
              cases timedOut
            | skips _ satisfied _ _ =>
              have passed := satisfied dep asks
              rw [waiting] at passed
              cases passed
          | some (some next), ⟨⟨dep, asks, timedOut⟩, own, unscheduled, stopped, after⟩ =>
            exact .written (.timesOut due asks timedOut) reflects (own ▸ held) (.inl scheduled) ⟨unscheduled, stopped⟩ after
          | some none, ⟨satisfied, world⟩ =>
            have stays (runs : t.when_ = "" ∨ (surroundings (.evalWhen run t (ti.tryNumber + 1))).yes = true) :
                ¬ SettlesAlone env surroundings run d w.db t := by
              intro settles
              cases settles with
              | mirrors sub _ _ _ => exact due.plain sub
              | timesOut _ asks timedOut =>
                have passed := satisfied _ asks
                rw [timedOut] at passed
                cases passed
              | skips due' _ conditional refused =>
                rw [same due'.found] at refused
                rcases runs with free | met
                · exact conditional free
                · rw [met] at refused
                  cases refused
            dsimp only
            split
            · rename_i free
              exact .rested (stays (.inl free)) reflects world
            · rename_i conditional
              refine consulting_perform ?_
              show Prog.Safe _ (if (surroundings (.evalWhen run t (ti.tryNumber + 1))).yes = true then _ else _) _ _
              split
              · rename_i met
                exact .rested (stays (.inr met)) reflects world
              · rename_i refused
                have settles : SettlesAlone env surroundings run d w.db t := .skips due satisfied conditional (by simpa using refused)
                have own : ti.runID = run.runID := congrArg InstanceKey.run (reflects.key held)
                refine consulting_now ?_
                exact consulting_update served (reflects.holds world) held own fun u after =>
                  .written settles reflects held (.inl scheduled) ⟨nofun, nofun⟩ after

/-- The collection without dispatch writes nothing, or it writes a task that settles. -/
theorem gatherReady_passes {byTask : ByTask} (reflects : Reflects run.runID row start byTask w) :
    (gatherReady env false run d byTask).Safe (consulting surroundings) (Prog.returns fun c v => c.failed = none ∧ c.ready = [] ∧
      Reflects run.runID row start c.byTask v ∧
      ((v.db = w.db ∧ ∀ t ∈ d.tasks, ¬ SettlesAlone env surroundings run d w.db t) ∨
        ((∃ t ∈ d.tasks, SettlesAlone env surroundings run d w.db t) ∧
          ∃ task, Waiting w.db run.runID task ∧ ¬ Waiting v.db run.runID task))) w := by
  apply Prog.Safe.fold fun rest (c : Collected) v => c.failed = none ∧ c.ready = [] ∧ (∀ t ∈ rest, t ∈ d.tasks) ∧
    Reflects run.runID row start c.byTask v ∧
    ((v.db = w.db ∧ ∀ t ∈ d.tasks, t ∈ rest ∨ ¬ SettlesAlone env surroundings run d w.db t) ∨
      ((∃ t ∈ d.tasks, SettlesAlone env surroundings run d w.db t) ∧
        ∃ task, Waiting w.db run.runID task ∧ ¬ Waiting v.db run.runID task))
  · exact ⟨rfl, rfl, fun _ member => member, reflects, .inl ⟨rfl, fun t member => .inl member⟩⟩
  · rintro t rest c v ⟨unfailed, empty, defined, reflects, progress⟩
    rw [if_neg (by simp [unfailed])]
    refine Prog.Safe.andThen _ (Prog.Safe.attempt (gatherTask_passes served reflects)) fun result u passed => ?_
    cases result with
    | error e => exact passed.elim
    | ok c' =>
      refine ⟨passed.failed.trans unfailed, passed.ready.trans empty, fun other member => defined other (.tail _ member), passed.reflects, ?_⟩
      rcases progress with ⟨same, before⟩ | ⟨settles, task, waits, gone⟩
      · by_cases settles : SettlesAlone env surroundings run d v.db t
        · have moved := passed.moves settles
          rw [same] at settles moved
          exact .inr ⟨⟨t, defined t (.head _), settles⟩, moved⟩
        · refine .inl ⟨(passed.rests settles).trans same, fun other member => ?_⟩
          rw [same] at settles
          rcases before other member with later | rests
          · rcases List.mem_cons.mp later with rfl | later
            · exact .inr settles
            · exact .inl later
          · exact .inr rests
      · exact .inr ⟨settles, task, waits, fun still => gone (passed.onward task still)⟩
  · rintro c v ⟨unfailed, empty, _, reflects, progress⟩
    refine ⟨unfailed, empty, reflects, progress.imp_left fun unmoved => ⟨unmoved.1, fun t member => ?_⟩⟩
    exact (unmoved.2 t member).resolve_left List.not_mem_nil

/-- The end of the call changes nothing, or the run is no longer running. -/
theorem finalizeRun_ends {byTask : ByTask} {id : RunID} (running : row.state = .running) (own : run.runID = id)
    (reflects : Reflects id row start byTask w) : (finalizeRun run d).Safe (consulting surroundings) (fun _ v =>
      (v.db = w.db ∧ ¬ AllTerminal d.tasks (taskStates w.db id) ∧ InTime surroundings run d) ∨
        (runState v.db id ≠ some .running ∧ (AllTerminal d.tasks (taskStates w.db id) ∨ ¬ InTime surroundings run d))) w := by
  by_cases ended : AllTerminal d.tasks (taskStates w.db id)
  · obtain ⟨final, result⟩ := ResultOf.exists d.tasks (taskStates w.db id)
    have decides : (finalizeRun run d).Safe (consulting surroundings) (fun _ v => Decided id d.tasks start.db w.db v.db) w :=
      consulted served fun answers _ => finalizeRun_decides running own reflects
    refine decides.mono fun _ v decided => .inr ⟨?_, .inl ended⟩
    rw [(decided.result final (by cases result <;> simp)).mpr ⟨ended, result⟩]
    cases result <;> exact nofun
  · subst own
    have waits : finalState d (w.db.listTaskInstances run.runID) = none :=
      finalState_none (by rw [states_listTaskInstances]; exact ended)
    refine consulting_read served (listTaskInstances_reads run.runID w) fun v world => ?_
    rw [waits]
    show (enforceDeadlines d run (w.db.listTaskInstances run.runID)).Safe _ _ v
    unfold enforceDeadlines
    cases started : run.startedAt with
    | none => exact .inl ⟨world.db, ended, fun _ same => nomatch started.symm.trans same⟩
    | some time =>
      refine consulting_now ?_
      split
      · rename_i late
        have stored : v.db.run? run.runID = some row := by rw [world.db]; exact reflects.row
        have stops : (timeoutRun run (w.db.listTaskInstances run.runID)).Safe (consulting surroundings)
            (fun _ u => runState u.db run.runID = some .timedOut) v :=
          consulted served fun answers _ => (timeoutRun_stops _ running stored).mono fun _ _ stopped => stopped.1
        refine stops.mono fun _ u stopped => .inr ⟨?_, .inr fun inTime => ?_⟩
        · rw [stopped]
          exact nofun
        · exact inTime time started late
      · rename_i early
        refine .inl ⟨world.db, ended, fun other same => ?_⟩
        cases started.symm.trans same
        exact early

/-- The rest of the call without dispatch leaves the store alone exactly if it is idle. -/
theorem proceed_idle {byTask : ByTask} {id : RunID} (own : run.runID = id) (running : row.state = .running)
    (reflects : Reflects id row w byTask w) : (proceed env false (.ok (some (run, d, byTask)))).Safe (consulting surroundings)
      (Prog.returns fun ready v => ready = [] ∧ (v.db = w.db ↔ Idle env surroundings run d w.db)) w := by
  subst own
  refine Prog.Safe.andThen _ (gatherReady_passes served reflects) fun c v gathered => ?_
  obtain ⟨unfailed, empty, reflects', progress⟩ := gathered
  have before : runState w.db run.runID = some .running := by rw [runState, reflects.row, Option.map_some, running]
  rw [unfailed, empty]
  refine Prog.Safe.andThen (fun _ (u : World) => u.db = w.db ↔ Idle env surroundings run d w.db) ?_ fun _ u same => ⟨rfl, same⟩
  refine Prog.Safe.andThen (fun _ (u : World) => u.db = w.db ↔ Idle env surroundings run d w.db) ?_ fun _ u same => same
  refine Prog.Safe.attempt ((finalizeRun_ends served running rfl reflects').mono fun _ u ended => ?_)
  -- the run is still running in the store that the call started from
  have stopped (changed : runState u.db run.runID ≠ some .running) : u.db ≠ w.db := fun same => changed (same ▸ before)
  rcases progress with ⟨same, rests⟩ | ⟨⟨t, member, settles⟩, task, waits, gone⟩
  · rw [same] at ended
    rcases ended with ⟨still, unfinished, inTime⟩ | ⟨changed, over_⟩
    · exact iff_of_true still ⟨unfinished, inTime, rests⟩
    · exact iff_of_false (stopped changed) fun idle => over_.elim idle.unfinished fun late => late idle.inTime
  · refine iff_of_false (fun same => ?_) fun idle => idle.rests t member settles
    rcases ended with ⟨still, _⟩ | ⟨changed, _⟩
    · exact gone (still ▸ same ▸ waits)
    · exact stopped changed same

omit served

end Gathering

/-! ### The whole call -/

section Call

variable {A : Type} {env : Env} {surroundings : Op → Answer} {run : DagRun} {w : World}

/-- The lock and the unlock leave the result and the database of the body. -/
theorem locked_consult (surroundings : Op → Answer) (what : Section) (body : Act A) (w : World) :
    ((locked what body).run (World.consult surroundings) w).1 =
      (body.run (World.consult surroundings) (World.consult surroundings (.lock what) w).2).1 ∧
    ((locked what body).run (World.consult surroundings) w).2.db =
      (body.run (World.consult surroundings) (World.consult surroundings (.lock what) w).2).2.db := by
  have whole : (locked what body).run (World.consult surroundings) w = (((body.attempt).bind fun result =>
      (perform .unlock).bind fun _ => Prog.ofExcept result).run (World.consult surroundings) (World.consult surroundings (.lock what) w).2) := rfl
  rw [whole, Prog.run_bind, Prog.run_attempt]
  cases (body.run (World.consult surroundings) (World.consult surroundings (.lock what) w).2).1 <;> exact ⟨rfl, rfl⟩

theorem lock_consult (what : Section) (w : World) : (World.consult surroundings (.lock what) w).2.db = w.db := by
  unfold World.consult
  split
  · rename_i performed
    rcases (World.perform_some performed).2.2.2 with same | written
    · exact same
    · cases written
  · rfl

/-- The preparation of the call, up to the point where a hold ends it. -/
def atHold (env : Env) (surroundings : Op → Answer) (run : DagRun) (w : World) :
    Except Failure (Option (DagRun × DAG × ByTask)) × World :=
  (prepareRun env (released run)).run (World.consult surroundings) (World.consult surroundings (.lock (.process run)) w).2

/-- The hold of a run stops only its dispatch: the call appends nothing and leaves the store as the
call for the same run without its hold does, dispatches apart. -/
structure HoldsDispatchOnly (env : Env) (surroundings : Op → Answer) (run : DagRun) (w : World) : Prop where
  empty : ((processRun env run).run (World.consult surroundings) w).1 = .ok []
  store : ((processRun env run).run (World.consult surroundings) w).2.db =
    ((intendedRun env run).run (World.consult surroundings) w).2.db

/-- A held call ends with its preparation. -/
theorem processRun_held (env : Env) (surroundings : Op → Answer) (w : World) (held : run.held = true) : ((processRun env run).run (World.consult surroundings) w).1 = .ok [] ∧
    ((processRun env run).run (World.consult surroundings) w).2.db = (atHold env surroundings run w).2.db := by
  have same : prepareRun env run = (prepareRun env (released run)).bind fun _ => pure none := by
    have form : { run with held := true } = run := by rw [← held]
    have ends := prepareRun_held env run
    rwa [form] at ends
  obtain ⟨result, db⟩ := locked_consult surroundings (.process run) (advanceRun env run) w
  unfold processRun
  rw [result, db]
  unfold atHold advanceRun
  rw [same, Prog.bind_eq, Prog.run_bind, Prog.run_attempt, Prog.run_bind]
  rcases (prepareRun env (released run)).run (World.consult surroundings) (World.consult surroundings (.lock (.process run)) w).2 with
    ⟨_ | _, v⟩ <;> exact ⟨rfl, rfl⟩

theorem intendedRun_held (held : run.held = true) : ((intendedRun env run).run (World.consult surroundings) w).2.db =
    ((proceed env false (atHold env surroundings run w).1).run (World.consult surroundings) (atHold env surroundings run w).2).2.db := by
  have body := (locked_consult surroundings (.process run)
    ((prepareRun env (released run)).attempt >>= proceed env !run.held) w).2
  unfold intendedRun
  rw [body, Prog.bind_eq, Prog.run_bind, Prog.run_attempt, held]
  rfl

/-- What the call with dispatch left out still does after its preparation. -/
theorem proceed_stands (served : ∀ o, (surroundings o).served = true) {id : RunID} {result : Except Failure (Option (DagRun × DAG × ByTask))}
    {v : World} (stands : Poised id result v) : ((proceed env false result).run (World.consult surroundings) v).2.db = v.db ↔
      ∀ run d byTask, result = .ok (some (run, d, byTask)) → Idle env surroundings run d v.db := by
  match result, stands with
  | .error e, _ => exact iff_of_true rfl fun _ _ _ same => by cases same
  | .ok none, _ => exact iff_of_true rfl fun _ _ _ same => by cases same
  | .ok (some (run, d, byTask)), ⟨own, row, running, _, reflects⟩ =>
    have idles : (proceed env false (.ok (some (run, d, byTask)))).Safe (consulting surroundings)
        (Prog.returns fun ready u => ready = [] ∧ (u.db = v.db ↔ Idle env surroundings run d v.db)) v :=
      proceed_idle served own running reflects
    have changes : ((proceed env false (.ok (some (run, d, byTask)))).run (World.consult surroundings) v).2.db = v.db ↔
        Idle env surroundings run d v.db := by
      have ended := idles.runs_on (fun _ _ _ => trivial) trivial
      revert ended
      rcases (proceed env false (.ok (some (run, d, byTask)))).run (World.consult surroundings) v with ⟨_ | ready, u⟩
      · exact False.elim
      · exact fun ended => ended.2
    rw [changes]
    constructor
    · rintro idle _ _ _ ⟨rfl⟩
      exact idle
    · exact fun idle => idle run d byTask rfl

/-- A hold stops only dispatch exactly when, where the held call ends, dispatches are all that is
left to do. -/
theorem hold_stops_dispatch (env : Env) (surroundings : Op → Answer) (run : DagRun) (w : World)
    (served : ∀ o, (surroundings o).served = true) (stored : w.db.run? run.runID = some run)
    (active : run.state = .queued ∨ run.state = .running) (held : run.held = true) :
    HoldsDispatchOnly env surroundings run w ↔
      ∀ run' d byTask, (atHold env surroundings run w).1 = .ok (some (run', d, byTask)) →
        Idle env surroundings run' d (atHold env surroundings run w).2.db := by
  obtain ⟨empty, ends⟩ := processRun_held env surroundings w held
  have stands : Poised run.runID (atHold env surroundings run w).1 (atHold env surroundings run w).2 := by
    have safe : (prepareRun env (released run)).Safe (consulting surroundings) (fun r v => Poised run.runID r v)
        (World.consult surroundings (.lock (.process run)) w).2 := by
      have row : Stored (released run) (World.consult surroundings (.lock (.process run)) w).2.db := by
        refine ⟨run, ?_, rfl, rfl⟩
        rw [lock_consult]
        exact stored
      exact consulted served fun answers _ => prepareRun_stands row active
    exact safe.runs_on (fun _ _ _ => trivial) trivial
  constructor
  · rintro ⟨_, same⟩
    rw [ends, intendedRun_held held] at same
    exact (proceed_stands served stands).mp same.symm
  · intro idle
    refine ⟨empty, ?_⟩
    rw [ends, intendedRun_held held]
    exact ((proceed_stands served stands).mpr idle).symm

/-- A held run whose only task is in this state. -/
def loadOnHold : DagRun := { loadedRun with held := true }

def holdWorld (state : TaskState) : World where
  db := { DB.empty with
    runs := ⟨[loadOnHold], List.pairwise_singleton _ _⟩
    taskInstances := ⟨[{ runID := .manual "etl" 0, taskID := "load", state }], List.pairwise_singleton _ _⟩ }
  cache := ⟨[⟨serialLoad, none⟩], serialLoad_distinct⟩

/-- While its task waits to be dispatched, the hold keeps back nothing else. -/
theorem waiting_run_held : HoldsDispatchOnly loadEnv (fun _ => {}) loadOnHold (holdWorld .scheduled) := by
  refine (hold_stops_dispatch loadEnv (fun _ => {}) loadOnHold (holdWorld .scheduled) (fun _ => rfl) rfl (.inr rfl) rfl).mpr ?_
  intro run d byTask prepared
  have reached : (Except.ok (some (released loadOnHold, serialLoad, (holdWorld .scheduled).db.listTaskInstances (.manual "etl" 0))) :
    Except Failure (Option (DagRun × DAG × ByTask))) = .ok (some (run, d, byTask)) := prepared
  cases reached
  have waits : taskStates (atHold loadEnv (fun _ => {}) loadOnHold (holdWorld .scheduled)).2.db (.manual "etl" 0) "load" =
    some .scheduled := rfl
  refine ⟨fun ended => ?_, fun started _ late => absurd late.1 (by decide), fun t member settles => ?_⟩
  · obtain ⟨state, same, terminal⟩ := ended { id := "load" } (.head _)
    cases waits.symm.trans same
    cases terminal
  · obtain rfl := List.mem_singleton.mp member
    cases settles with
    | mirrors subdag _ _ _ => cases subdag
    | timesOut _ asks _ => cases asks
    | skips _ _ conditional _ => exact conditional rfl

/-- The tasks of the run have ended, and the hold keeps the run from ending. -/
theorem finished_run_held : ¬ ∀ (env : Env) (surroundings : Op → Answer) (run : DagRun) (w : World),
    (∀ o, (surroundings o).served = true) → w.db.run? run.runID = some run → (run.state = .queued ∨ run.state = .running) →
    run.held = true → HoldsDispatchOnly env surroundings run w := by
  intro claim
  have same := (claim loadEnv (fun _ => {}) loadOnHold (holdWorld .success) (fun _ => rfl) rfl (.inr rfl) rfl).store
  have held : runState ((processRun loadEnv loadOnHold).run (World.consult fun _ => {}) (holdWorld .success)).2.db (.manual "etl" 0) =
      some .running := by decide +kernel
  have ended : runState ((intendedRun loadEnv loadOnHold).run (World.consult fun _ => {}) (holdWorld .success)).2.db (.manual "etl" 0) =
      some .success := by decide +kernel
  rw [same, ended] at held
  cases held

end Call

end Cronova.Scheduler
