import Cronova.Scheduler.Mirror
import Cronova.Scheduler.Propagation
import Cronova.Scheduler.Serial

/-! How a run ends. `processRun` decides on the rows that its own steps have left of the
snapshot's tasks. -/

set_option autoImplicit false

namespace Cronova.Scheduler

open Model Store Process
open Calendar (Time)

/-! ### The decision -/

section Decision

/-- Every task of the snapshot has ended. -/
def AllTerminal (tasks : List Task) (states : TaskID → Option TaskState) : Prop :=
  ∀ t ∈ tasks, ∃ state, states t.id = some state ∧ state.isTerminal = true

/-- Some task of the snapshot is in one of these states. -/
def AnyIn (among : List TaskState) (tasks : List Task) (states : TaskID → Option TaskState) : Prop :=
  ∃ t ∈ tasks, ∃ state ∈ among, states t.id = some state

/-- The states of a task that fail its run. -/
def failures : List TaskState := [.failed, .upstreamFailed, .timedOut]

/-- The result that the tasks of the snapshot give the run. -/
inductive ResultOf (tasks : List Task) (states : TaskID → Option TaskState) : RunState → Prop where
  | failed : AnyIn failures tasks states → ResultOf tasks states .failed
  | cancelled : ¬ AnyIn failures tasks states → AnyIn [.cancelled] tasks states → ResultOf tasks states .cancelled
  | success : ¬ AnyIn failures tasks states → ¬ AnyIn [.cancelled] tasks states → ResultOf tasks states .success

variable {d : DAG} {byTask : ByTask} {states : TaskID → Option TaskState}

theorem all_terminal_iff : (d.tasks.map fun t => (byTask.get t.id).map (·.state)).all (fun s => s.any (·.isTerminal)) = true ↔
    AllTerminal d.tasks byTask.states := by
  rw [List.all_map, List.all_eq_true]
  exact forall₂_congr fun t _ => Option.any_eq_true _ _

theorem any_failed_iff : (d.tasks.map fun t => (byTask.get t.id).map (·.state)).any
    (fun s => s == some .failed || s == some .upstreamFailed || s == some .timedOut) = true ↔
      AnyIn failures d.tasks byTask.states := by
  rw [List.any_map, List.any_eq_true]
  refine exists_congr fun t => and_congr_right fun _ => ?_
  simp only [Function.comp_apply, Bool.or_eq_true, beq_iff_eq, failures, List.mem_cons, List.not_mem_nil, or_false, or_assoc]
  exact ⟨fun met => by rcases met with met | met | met <;> exact ⟨_, by simp, met⟩,
    fun ⟨state, among, met⟩ => by rcases among with rfl | rfl | rfl <;> simp [← ByTask.states.eq_1, met]⟩

theorem any_cancelled_iff : (d.tasks.map fun t => (byTask.get t.id).map (·.state)).any (fun s => s == some .cancelled) = true ↔
    AnyIn [.cancelled] d.tasks byTask.states := by
  rw [List.any_map, List.any_eq_true]
  simp [AnyIn, ByTask.states]

theorem ResultOf.exists (tasks : List Task) (states : TaskID → Option TaskState) : ∃ final, ResultOf tasks states final := by
  by_cases failed : AnyIn failures tasks states
  · exact ⟨_, .failed failed⟩
  · by_cases cancelled : AnyIn [.cancelled] tasks states
    · exact ⟨_, .cancelled failed cancelled⟩
    · exact ⟨_, .success failed cancelled⟩

theorem ResultOf.unique {tasks : List Task} {final other : RunState} (one : ResultOf tasks states final)
    (two : ResultOf tasks states other) : final = other := by
  cases one <;> cases two <;> first | rfl | contradiction

theorem ResultOf.decided {final : RunState} (ended : AllTerminal d.tasks byTask.states)
    (result : ResultOf d.tasks byTask.states final) : finalState d byTask = some final := by
  unfold finalState
  dsimp only
  rw [if_pos (all_terminal_iff.mpr ended)]
  cases result with
  | failed failed => rw [if_pos (any_failed_iff.mpr failed)]
  | cancelled failed cancelled => rw [if_neg (mt any_failed_iff.mp failed), if_pos (any_cancelled_iff.mpr cancelled)]
  | success failed cancelled => rw [if_neg (mt any_failed_iff.mp failed), if_neg (mt any_cancelled_iff.mp cancelled)]

theorem finalState_none (unfinished : ¬ AllTerminal d.tasks byTask.states) : finalState d byTask = none :=
  if_neg (mt all_terminal_iff.mp unfinished)

/-- The order of the tasks and the instances of other tasks do not matter. -/
theorem finalState_congr {d' : DAG} {byTask' : ByTask} (members : ∀ t, t ∈ d'.tasks ↔ t ∈ d.tasks)
    (agree : ∀ t ∈ d.tasks, byTask'.states t.id = byTask.states t.id) : finalState d' byTask' = finalState d byTask := by
  have terminal : AllTerminal d'.tasks byTask'.states ↔ AllTerminal d.tasks byTask.states := by
    constructor
    · intro ended t member
      rw [← agree t member]
      exact ended t ((members t).mpr member)
    · intro ended t member
      rw [agree t ((members t).mp member)]
      exact ended t ((members t).mp member)
  have any (among : List TaskState) : AnyIn among d'.tasks byTask'.states ↔ AnyIn among d.tasks byTask.states := by
    refine exists_congr fun t => ?_
    rw [members]
    refine and_congr_right fun member => ?_
    rw [agree t member]
  by_cases ended : AllTerminal d.tasks byTask.states
  · obtain ⟨final, result⟩ := ResultOf.exists d.tasks byTask.states
    rw [result.decided ended]
    refine ResultOf.decided (terminal.mpr ended) ?_
    cases result with
    | failed failed => exact .failed ((any _).mpr failed)
    | cancelled failed cancelled => exact .cancelled (mt (any _).mp failed) ((any _).mpr cancelled)
    | success failed cancelled => exact .success (mt (any _).mp failed) (mt (any _).mp cancelled)
  · rw [finalState_none ended, finalState_none (mt terminal.mp ended)]

theorem finalState_decides {final : RunState} (decided : finalState d byTask = some final) :
    AllTerminal d.tasks byTask.states ∧ ResultOf d.tasks byTask.states final := by
  by_cases ended : AllTerminal d.tasks byTask.states
  · obtain ⟨other, result⟩ := ResultOf.exists d.tasks byTask.states
    rw [result.decided ended] at decided
    obtain rfl := Option.some.inj decided
    exact ⟨ended, result⟩
  · rw [finalState_none ended] at decided
    cases decided

end Decision

/-! ### The decision in the store -/

section Store

/-- The states of the tasks of a run, as they are stored. -/
def taskStates (db : DB) (run : RunID) (id : TaskID) : Option TaskState := (db.instance? ⟨run, id⟩).map (·.state)

def runState (db : DB) (run : RunID) : Option RunState := (db.run? run).map (·.state)

theorem states_listTaskInstances (db : DB) (run : RunID) : ByTask.states (db.listTaskInstances run) = taskStates db run :=
  funext fun id => congrArg (Option.map TaskInstance.state) (get_listTaskInstances db run id)

/-- The run ends exactly if every task of the snapshot had ended before the decision, with the
result that those tasks give; its dependency event is published exactly if that is a success. -/
structure Decided (run : RunID) (tasks : List Task) (start before after : DB) : Prop where
  result : ∀ final, final = .success ∨ final = .failed ∨ final = .cancelled → (runState after run = some final ↔
    AllTerminal tasks (taskStates before run) ∧ ResultOf tasks (taskStates before run) final)
  waits : ¬ AllTerminal tasks (taskStates before run) → runState after run = some .running ∨ runState after run = some .timedOut
  publishes : ∀ source key, after.Pending source key ↔
    (runState after run = some .success ∧ source = .dependency ∧ key = .run run) ∨ start.Pending source key
  silent : runState after run ≠ some .success → after.events = start.events

variable {id : RunID} {tasks : List Task} {start before after : DB}

theorem Decided.waiting (unfinished : ¬ AllTerminal tasks (taskStates before id))
    (waits : runState after id = some .running ∨ runState after id = some .timedOut) (events : after.events = start.events) :
    Decided id tasks start before after where
  result final among := by
    refine iff_of_false (fun same => ?_) fun decided => unfinished decided.1
    rw [same] at waits
    rcases among with rfl | rfl | rfl <;> rcases waits with other | other <;> cases other
  waits _ := waits
  publishes source key := by
    rw [DB.Pending, events]
    refine (or_iff_right ?_).symm
    rintro ⟨success, _⟩
    rw [success] at waits
    rcases waits with other | other <;> cases other
  silent _ := events

theorem Decided.ended {final : RunState} (ended : AllTerminal tasks (taskStates before id))
    (result : ResultOf tasks (taskStates before id) final) (state : runState after id = some final)
    (publishes : ∀ source key, after.Pending source key ↔
      (final = .success ∧ source = .dependency ∧ key = .run id) ∨ start.Pending source key)
    (silent : final ≠ .success → after.events = start.events) : Decided id tasks start before after where
  result other _ := by
    rw [state]
    constructor
    · rintro ⟨rfl⟩
      exact ⟨ended, result⟩
    · rintro ⟨_, other⟩
      rw [result.unique other]
  waits unfinished := absurd ended unfinished
  publishes source key := by
    rw [publishes, state, Option.some.injEq]
  silent other := silent fun success => other (success ▸ state)

end Store

/-! ### The steps of one call -/

section Steps

variable {run row : DagRun} {start : World} {byTask : ByTask} {s : World × List Answer} {env : Env} {d : DAG} {id : RunID}

theorem updateDagRunSuccess_writes (run : RunID) (started finished : Option Time) (w : World) (a : Answer) :
    ∃ reply v, World.perform 0 (.updateDagRunSuccess run started finished) a w = some (reply, v, []) ∧ v.cache = w.cache ∧
      ((∃ db, w.db.updateDagRunSuccess run started finished = .ok db ∧ reply = .ok () ∧ v.db = db) ∨
        ∃ e, reply = .error e ∧ v.db = w.db ∧ Refused (w.db.updateDagRunSuccess run started finished) (a.served = true) e) :=
  World.write_spec a w _ _

theorem timeoutRun_stops (tis : List TaskInstance) (running : row.state = .running) (stored : s.1.db.run? run.runID = some row) :
    (timeoutRun run tis).Safe serving (fun _ t => runState t.1.db run.runID = some .timedOut ∧ t.1.db.events = s.1.db.events) s := by
  refine serving_now fun fin u world => ?_
  refine serving_attempt_write (updateDagRunState_writes _ _ _ _ u.1) (fun db v written world' => ?_) fun e v failed _ => ?_
  · obtain ⟨old, _, _, runs, _, events, _⟩ := DB.updateDagRunState_ok written
    have ended : v.1.db.run? run.runID = some (DB.setRunState .timedOut run.startedAt (some fin) old) := by
      rw [world'.db, runs, if_pos rfl]
    have kept := timeoutInstances_cancels fin tis
    have terminal := Prog.Yields.within kept (cancels_frame run.runID _ rfl) ended
    have quiet := Prog.Yields.within kept.mild (mild_frame v) ⟨rfl, rfl⟩
    refine (terminal.and quiet).mono fun _ x after => ⟨?_, ?_⟩
    · rw [runState, after.1.2]
      rfl
    · rw [after.2.2.1, world'.db, events, world.db]
  · unfold DB.updateDagRunState at failed
    rw [world.db] at failed
    simp [stored, running, legalPriorRunStates] at failed

/-- The deadline can only time the run out. -/
theorem enforceDeadlines_silent (tis : List TaskInstance) (running : row.state = .running)
    (stored : s.1.db.run? run.runID = some row) : (enforceDeadlines d run tis).Safe serving (fun _ t =>
      (runState t.1.db run.runID = some .running ∨ runState t.1.db run.runID = some .timedOut) ∧ t.1.db.events = s.1.db.events) s := by
  have still (t : World × List Answer) (world : Holds s.1.db s.1 t.1) :
      (runState t.1.db run.runID = some .running ∨ runState t.1.db run.runID = some .timedOut) ∧ t.1.db.events = s.1.db.events := by
    rw [world.db, runState, stored, Option.map_some, running]
    exact ⟨.inl rfl, rfl⟩
  unfold enforceDeadlines
  split
  · exact still s (Holds.refl _)
  · refine serving_now fun now t world => ?_
    rw [← world.db] at stored
    split
    · exact (timeoutRun_stops tis running stored).mono fun _ u stopped => ⟨.inr stopped.1, by rw [stopped.2, world.db]⟩
    · exact still t world

theorem finalizeRun_decides (running : row.state = .running) (own : run.runID = id) (reflects : Reflects id row start byTask s.1) :
    (finalizeRun run d).Safe serving (fun _ t => Decided id d.tasks start.db s.1.db t.1.db) s := by
  subst own
  refine serving_read (listTaskInstances_reads run.runID s.1) (fun tis t listed world => ?_) fun e t failed _ => nomatch failed
  cases listed
  cases decided : finalState d (s.1.db.listTaskInstances run.runID) with
  | none =>
    have unfinished : ¬ AllTerminal d.tasks (taskStates s.1.db run.runID) := by
      rw [← states_listTaskInstances]
      intro ended
      obtain ⟨final, result⟩ := ResultOf.exists d.tasks (ByTask.states (s.1.db.listTaskInstances run.runID))
      rw [result.decided ended] at decided
      cases decided
    refine (enforceDeadlines_silent _ running (by rw [world.db]; exact reflects.row)).mono fun _ u after => ?_
    exact .waiting unfinished after.1 (by rw [after.2, world.db, reflects.events])
  | some final =>
    obtain ⟨ended, result⟩ := finalState_decides decided
    rw [states_listTaskInstances] at ended result
    refine serving_now fun fin u world' => ?_
    replace reflects := (reflects.holds world).holds world'
    split
    · rename_i success
      subst success
      refine alone_write_last (updateDagRunSuccess_writes _ _ _ u.1) (fun db v written world _ => ?_) fun e v refused _ _ => ?_
      · obtain ⟨old, _, runs, _, pending, _⟩ := DB.updateDagRunSuccess_ok written
        refine .ended ended result ?_ (fun source key => ?_) fun other => absurd rfl other
        · rw [runState, world.db, runs, if_pos rfl]
          rfl
        · rw [world.db, pending, DB.Pending, reflects.events]
          exact or_congr_left (and_iff_right rfl).symm
      · have failed := refused.served
        unfold DB.updateDagRunSuccess at failed
        rw [reflects.row] at failed
        cases failed
    · rename_i other
      refine alone_write_last (updateDagRunState_writes _ _ _ _ u.1) (fun db v written world _ => ?_) fun e v refused _ _ => ?_
      · obtain ⟨old, _, _, runs, _, events, _⟩ := DB.updateDagRunState_ok written
        have silent : v.1.db.events = start.db.events := by rw [world.db, events, reflects.events]
        refine .ended ended result ?_ (fun source key => ?_) fun _ => silent
        · rw [runState, world.db, runs, if_pos rfl]
          rfl
        · rw [DB.Pending, silent]
          exact (or_iff_right fun success => other success.1).symm
      · have failed := refused.served
        unfold DB.updateDagRunState at failed
        cases result <;> simp [reflects.row, running, legalPriorRunStates] at failed

/-- The steps of `processRun` before its decision: expansion, propagation and retries, then the
collection with its skips, timeouts and sub-workflows. -/
def ownSteps (env : Env) (run : DagRun) : Act (Option (DagRun × DAG × Collected)) := do
  match ← (prepareRun env run).attempt with
  | .error _ => pure none
  | .ok none => pure none
  | .ok (some (run, d, byTask)) =>
    let c ← collectReady env run d byTask
    pure (some (run, d, c))

/-- The rest of `processRun`. -/
def conclude : Option (DagRun × DAG × Collected) → Act (List ReadyTask)
  | none => pure []
  | some (run, d, c) => do
    if c.failed.isNone then logged (finalizeRun run d)
    pure c.ready

theorem advanceRun_eq (env : Env) (run : DagRun) : advanceRun env run = ownSteps env run >>= conclude := by
  refine Eq.trans ?_ (Prog.bind_assoc _ _ _).symm
  refine congrArg (Prog.bind _) (funext fun prepared => ?_)
  cases prepared with
  | error e => rfl
  | ok work =>
    cases work with
    | none => rfl
    | some work =>
      obtain ⟨run, d, byTask⟩ := work
      exact (Prog.bind_assoc (collectReady env run d byTask) (fun c => pure (some (run, d, c))) conclude).symm

/-- What the steps of the call leave: the copies stand for the rows, the run is running, and a
collection that failed has left a task that has not ended. -/
def Worked (run : DagRun) (d : DAG) (start : World) :
    Except Failure (Option (DagRun × DAG × Collected)) → World × List Answer → Prop
  | .ok (some (run', d', c)), t => d' = d ∧ run'.runID = run.runID ∧ ∃ row, row.state = .running ∧
      Reflects run.runID row start c.byTask t.1 ∧
      (c.failed.isSome = true → ∃ t ∈ d.tasks, ∃ ti, c.byTask.get t.id = some ti ∧ ti.state.isTerminal = false)
  | _, _ => False

theorem ownSteps_reflects (covered : Covered env run d s.1) (stored : s.1.db.run? run.runID = some run)
    (active : run.state = .queued ∨ run.state = .running) (held : run.held = false) :
    (ownSteps env run).Safe serving (Worked run d s.1) s := by
  refine Prog.Safe.andThen _ (Prog.Safe.attempt (prepareRun_reflects covered stored active)) fun prepared t ended => ?_
  obtain ⟨run', row, byTask, begun, reflects, same⟩ := ended
  rw [if_neg (by simp [held])] at same
  subst same
  refine Prog.Safe.andThen _ (collectReady_reflects begun.state reflects) fun c u ended => ?_
  exact ⟨rfl, begun.runID, row, begun.state, ended⟩

theorem conclude_decides {work : Option (DagRun × DAG × Collected)} {start : World} (worked : Worked run d start (.ok work) s) :
    (conclude work).Safe serving (fun _ t => Decided run.runID d.tasks start.db s.1.db t.1.db) s := by
  obtain _ | ⟨run', d', c⟩ := work
  · exact worked.elim
  · obtain ⟨rfl, own, row, running, reflects, stopped⟩ := worked
    unfold conclude
    dsimp only
    split
    · have logs : (logged (finalizeRun run' d')).Safe serving (fun _ t => Decided run.runID d'.tasks start.db s.1.db t.1.db) s :=
        Prog.Safe.andThen _ (Prog.Safe.attempt (finalizeRun_decides running own reflects)) fun _ t decided => decided
      exact Prog.Safe.bind _ logs (fun _ t decided => decided) fun e t decided => decided
    · rename_i failed
      obtain ⟨t, member, ti, found, waits⟩ := stopped (Option.isSome_iff_ne_none.mpr (by simpa using failed))
      have unfinished : ¬ AllTerminal d'.tasks (taskStates s.1.db run.runID) := by
        intro ended
        obtain ⟨state, same, terminal⟩ := ended t member
        rw [taskStates, reflects.rows, found, Option.map_some, Option.some.injEq] at same
        rw [same, terminal] at waits
        cases waits
      have still : runState s.1.db run.runID = some .running := by rw [runState, reflects.row, Option.map_some, running]
      exact .waiting unfinished (.inl still) reflects.events

end Steps

/-! ### The whole call -/

section Call

variable {A : Type} {s : World × List Answer} {env : Env} {run : DagRun} {d : DAG} {what : Section}

/-- The unlock leaves the database as the body has left it. -/
theorem locked_run (what : Section) (body : Act A) (s : World × List Answer) :
    ((locked what body).run World.replay s).2.1.db = (body.run World.replay (World.replay (.lock what) s).2).2.1.db := by
  show (((body.attempt).bind _).run World.replay (World.replay (.lock what) s).2).2.1.db = _
  rw [Prog.run_bind, Prog.run_attempt]
  cases (body.run World.replay (World.replay (.lock what) s).2).1 <;> rfl

/-- The world in which `processRun` decides. -/
def decidesIn (env : Env) (run : DagRun) (w : World) (answers : List Answer) : World :=
  ((perform (.lock (.process run)) >>= fun _ => ownSteps env run).run World.replay (w, answers)).2.1

/-- `processRun` decides about an active run that is not held by the tasks of its snapshot as the
steps of the call itself have left them, in whatever order and among whatever other instances. -/
theorem processRun_decides (env : Env) (run : DagRun) (d : DAG) (w : World) (answers : List Answer)
    (stored : w.db.run? run.runID = some run) (active : run.state = .queued ∨ run.state = .running) (held : run.held = false)
    (covered : Covered env run d w) (served : ∀ a ∈ answers, a.served = true) :
    Decided run.runID d.tasks w.db (decidesIn env run w answers).db ((processRun env run).run World.replay (w, answers)).2.1.db ∧
    ∀ (d' : DAG) (byTask : ByTask), (∀ t, t ∈ d'.tasks ↔ t ∈ d.tasks) →
      (∀ t ∈ d.tasks, byTask.states t.id = taskStates (decidesIn env run w answers).db run.runID t.id) →
      finalState d' byTask = finalState d ((decidesIn env run w answers).db.listTaskInstances run.runID) := by
  refine ⟨?_, fun d' byTask members agree => finalState_congr members fun t member => ?_⟩
  swap
  · rw [agree t member, states_listTaskInstances]
  obtain ⟨s, entered⟩ : ∃ s, (World.replay (.lock (.process run)) (w, answers)).2 = s := ⟨_, rfl⟩
  have same : Holds w.db w s.1 := entered ▸ replay_lock (.process run) (w, answers)
  have left : Served s := entered ▸ replay_left _ _ served
  have own : decidesIn env run w answers = ((ownSteps env run).run World.replay s).2.1 := entered ▸ rfl
  have covered' : Covered env run d s.1 := { covered with covers := fun t member => by rw [same.db]; exact covered.covers t member }
  have safe := ownSteps_reflects covered' (by rw [same.db]; exact stored) active held
  have worked := safe.runs_on replay_left left
  have onward : Served ((ownSteps env run).run World.replay s).2 := Prog.run_kept replay_left _ left
  rw [processRun, locked_run, entered, advanceRun_eq, own, Prog.bind_eq, Prog.run_bind, ← same.db]
  revert worked onward
  cases (ownSteps env run).run World.replay s with
  | mk result t =>
    intro worked onward
    cases result with
    | error e => exact worked.elim
    | ok work => exact (conclude_decides worked).runs_on replay_left onward

/-- A running run whose only task has succeeded, with the instance of a task that its definition no
longer has. -/
def loadedRun : DagRun := { failedRun with state := .running, startedAt := some 0 }

def loadedWorld : World where
  db := { DB.empty with
    runs := ⟨[loadedRun], List.pairwise_singleton _ _⟩
    taskInstances := ⟨[{ runID := .manual "etl" 0, taskID := "load", state := .success },
      { runID := .manual "etl" 0, taskID := "extract", state := .failed }], by decide⟩ }
  cache := ⟨[⟨serialLoad, none⟩], serialLoad_distinct⟩

theorem loaded_run_succeeds :
    runState ((processRun loadEnv loadedRun).run World.replay (loadedWorld, [])).2.1.db (.manual "etl" 0) = some .success ∧
    ((processRun loadEnv loadedRun).run World.replay (loadedWorld, [])).2.1.db.Pending .dependency (.run (.manual "etl" 0)) := by
  have covered : Covered loadEnv loadedRun serialLoad loadedWorld :=
    ⟨by decide, rfl, by decide, fun t member => by obtain rfl := List.mem_singleton.mp member; rfl⟩
  have decided := (processRun_decides loadEnv loadedRun serialLoad loadedWorld [] rfl (.inr rfl) rfl covered (by simp)).1
  have apart (among : List TaskState) (other : .success ∉ among) : ¬ AnyIn among serialLoad.tasks
      (taskStates (decidesIn loadEnv loadedRun loadedWorld []).db (.manual "etl" 0)) := by
    rintro ⟨t, member, state, met, same⟩
    obtain rfl := List.mem_singleton.mp member
    obtain rfl : .success = state := Option.some.inj same
    exact other met
  have success := (decided.result .success (.inl rfl)).mpr ⟨fun t member => ?_, .success ?_ ?_⟩
  · exact ⟨success, (decided.publishes _ _).mpr (.inl ⟨success, rfl, rfl⟩)⟩
  · obtain rfl := List.mem_singleton.mp member
    exact ⟨.success, rfl, rfl⟩
  · exact apart _ (by decide)
  · exact apart _ (by decide)

end Call

end Cronova.Scheduler
