import Cronova.Scheduler.Promises
import Cronova.Scheduler.Reset

/-! The copies of its task instances that `processRun` works on, and the rows that they stand
for: in a call beside which nothing else happens, each step leaves the two equal. -/

set_option autoImplicit false

namespace Cronova.Scheduler

open Model Store Process
open Calendar (Time)

/-! ### A database that serves every statement -/

section Serving

variable {A B : Type} {s : World × List Answer} {post : Except Failure B → World × List Answer → Prop}

/-- A program that runs alone, on a database that serves every statement. -/
abbrev serving : Contract statements (World × List Answer) := Prog.sequential World.replay Served

theorem Refused.served {R : Type} {found : Except StoreError R} {e : StoreError} (refused : Refused found (Reliable Served) e) :
    found = .error e :=
  refused.elim id fun unserved => absurd Served.reliable unserved.2

/-- A statement that reads. -/
theorem serving_read {o : Op} {get : o.Reply → Except StoreError A} {k : A → Act B} {found : Except StoreError A}
    (reads : ∀ a, ∃ reply v, World.perform 0 o a s.1 = some (reply, v, []) ∧ Holds s.1.db s.1 v ∧
      ((a.served = true ∧ get reply = found) ∨ (a.served = false ∧ get reply = .error .unavailable)))
    (ok : ∀ a t, found = .ok a → Holds s.1.db s.1 t.1 → (k a).Safe serving post t)
    (error : ∀ e t, found = .error e → Holds s.1.db s.1 t.1 → post (.error (.store e)) t) :
    (ask o get >>= k).Safe serving post s :=
  alone_read reads (fun a t same world _ => ok a t same world) fun e t refused world _ => error e t refused.served world

/-- A statement that reads, with its error as a value. -/
theorem serving_attempt {o : Op} {get : o.Reply → Except StoreError A} {k : Except Failure A → Act B} {found : Except StoreError A}
    (reads : ∀ a, ∃ reply v, World.perform 0 o a s.1 = some (reply, v, []) ∧ Holds s.1.db s.1 v ∧
      ((a.served = true ∧ get reply = found) ∨ (a.served = false ∧ get reply = .error .unavailable)))
    (onward : ∀ t, Holds s.1.db s.1 t.1 → (k (found.mapError .store)).Safe serving post t) :
    ((ask o get).attempt >>= k).Safe serving post s := by
  refine Prog.Safe.andThen (fun r t => r = found.mapError Failure.store ∧ Holds s.1.db s.1 t.1) (Prog.Safe.attempt ?_)
    fun r t answered => answered.1 ▸ onward t answered.2
  have whole := @serving_read A A s (fun r t => r = found.mapError Failure.store ∧ Holds s.1.db s.1 t.1) o get pure found reads
    (fun a t same world => ⟨same ▸ rfl, world⟩) (fun e t same world => ⟨same ▸ rfl, world⟩)
  rwa [show (ask o get >>= pure) = ask o get from Prog.bind_done _] at whole

/-- A statement that writes, with its error as a value. -/
theorem serving_attempt_write {o : Op} {get : o.Reply → Except StoreError Unit} {k : Except Failure Unit → Act B}
    {found : Except StoreError DB}
    (writes : ∀ a, ∃ reply v, World.perform 0 o a s.1 = some (reply, v, []) ∧ v.cache = s.1.cache ∧
      ((∃ db, found = .ok db ∧ get reply = .ok () ∧ v.db = db) ∨
        ∃ e, get reply = .error e ∧ v.db = s.1.db ∧ Refused found (a.served = true) e))
    (ok : ∀ db t, found = .ok db → Holds db s.1 t.1 → (k (.ok ())).Safe serving post t)
    (error : ∀ e t, found = .error e → Holds s.1.db s.1 t.1 → (k (.error (.store e))).Safe serving post t) :
    ((ask o get).attempt >>= k).Safe serving post s := by
  refine Prog.Safe.andThen (fun r t => (∃ db, found = .ok db ∧ r = .ok () ∧ Holds db s.1 t.1) ∨
    ∃ e, found = .error e ∧ r = .error (.store e) ∧ Holds s.1.db s.1 t.1) (Prog.Safe.attempt ?_) fun r t ended => ?_
  · exact alone_write_last writes (fun db t written world _ => .inl ⟨db, written, rfl, world⟩)
      fun e t refused world _ => .inr ⟨e, refused.served, rfl, world⟩
  · rcases ended with ⟨db, written, rfl, world⟩ | ⟨e, failed, rfl, world⟩
    · exact ok db t written world
    · exact error e t failed world

/-- A statement that leaves the store and the cache alone. -/
theorem serving_perform {o : Op} {k : o.Reply → Act B}
    (performs : ∀ a, ∃ reply v spawned, World.perform 0 o a s.1 = some (reply, v, spawned) ∧ Holds s.1.db s.1 v)
    (onward : ∀ reply t, Holds s.1.db s.1 t.1 → (k reply).Safe serving post t) : (perform o >>= k).Safe serving post s :=
  alone_perform (fun _ _ => True)
    (fun a => let ⟨reply, v, spawned, performed, world⟩ := performs a; ⟨reply, v, spawned, performed, world, trivial⟩)
    fun reply t _ _ world _ => onward reply t world

theorem serving_now {k : Time → Act B} (onward : ∀ now t, Holds s.1.db s.1 t.1 → (k now).Safe serving post t) :
    (timeNow >>= k).Safe serving post s :=
  serving_perform (o := .now) (fun a => ⟨a.now, s.1, [], rfl, Holds.refl _⟩) onward

end Serving

/-! ### The copies and the rows -/

section Copies

variable {run : RunID} {row : DagRun} {start v : World} {byTask : ByTask} {ti old : TaskInstance}

/-- The copies in memory are the rows of the run, which has this row; no event and no definition has
been written since the start. -/
structure Reflects (run : RunID) (row : DagRun) (start : World) (byTask : ByTask) (v : World) : Prop where
  rows : ∀ id, v.db.instance? ⟨run, id⟩ = byTask.get id
  row : v.db.run? run = some row
  events : v.db.events = start.db.events
  cache : v.cache = start.cache

theorem Reflects.key (reflects : Reflects run row start byTask v) {id : TaskID} (found : byTask.get id = some ti) :
    ti.key = ⟨run, id⟩ := by
  rw [← reflects.rows] at found
  exact (DB.instance?_some found).2

theorem Reflects.holds {u : World} (reflects : Reflects run row start byTask v) (world : Holds v.db v u) :
    Reflects run row start byTask u := by
  obtain ⟨db, cache⟩ := world
  exact ⟨fun id => by rw [db]; exact reflects.rows id, by rw [db]; exact reflects.row, by rw [db]; exact reflects.events,
    cache.trans reflects.cache⟩

/-- A write through a copy reaches the row that it stands for. -/
theorem Reflects.written {guard : TaskInstance → Bool} {u : World} (reflects : Reflects run row start byTask v)
    (found : byTask.get ti.taskID = some old) (own : ti.runID = run) (holds : guard old = true)
    (world : Holds (v.db.writeInstance ti guard) v u) : Reflects run row start (byTask.set ti) u := by
  obtain ⟨db, cache⟩ := world
  refine ⟨fun id => ?_, by rw [db]; exact reflects.row, by rw [db]; exact reflects.events, cache.trans reflects.cache⟩
  rw [db, DB.instance?_writeInstance, ByTask.get_set, reflects.rows]
  have key : ti.key = ⟨run, ti.taskID⟩ := by rw [TaskInstance.key, own]
  by_cases same : id = ti.taskID
  · subst same
    rw [if_pos key.symm, if_pos rfl, found, Option.map_some, Option.map_some, if_pos holds]
  · rw [if_neg same, if_neg]
    rw [key]
    exact fun keys => same (congrArg InstanceKey.task keys)

variable {B : Type} {s : World × List Answer} {post : Except Failure B → World × List Answer → Prop}

/-- The unguarded write of a copy. -/
theorem serving_update {k : Unit → Act B} (reflects : Reflects run row start byTask s.1) (found : byTask.get ti.taskID = some old)
    (own : ti.runID = run) (onward : ∀ t, Reflects run row start (byTask.set ti) t.1 → (k ()).Safe serving post t) :
    (updateTaskInstance ti >>= k).Safe serving post s := by
  have stored : s.1.db.instance? ti.key = some old := by
    rw [TaskInstance.key, own, reflects.rows, found]
  refine alone_write (updateTaskInstance_writes ti s.1) (fun db t written world _ => ?_) fun e t refused _ _ => ?_
  · obtain ⟨_, rfl⟩ := DB.updateTaskInstance_ok written
    exact onward t (reflects.written found own rfl world)
  · have failed := refused.served
    rw [DB.updateTaskInstance, stored] at failed
    cases failed

/-- The guarded write of a copy that carries its row's reference and has not ended. -/
theorem serving_finalize {k : Unit → Act B} (reflects : Reflects run row start byTask s.1) (found : byTask.get ti.taskID = some old)
    (own : ti.runID = run) (ref : old.executorRef = ti.executorRef) (unfinished : old.state.isTerminal = false)
    (onward : ∀ t, Reflects run row start (byTask.set ti) t.1 → (k ()).Safe serving post t) :
    (finalizeWrite ti >>= k).Safe serving post s := by
  rintro _ rfl holds
  refine ⟨trivial, fun reply t stepped _ => ?_⟩
  have performed := World.writeFlag_served (w := s.1) (x := s.1.db.updateTaskInstanceGuarded ti ti.executorRef) (Served.reliable s holds)
  obtain ⟨rfl, rfl⟩ := Prod.mk.inj (stepped.symm.trans (replay_eq (o := .updateTaskInstanceGuarded ti ti.executorRef) performed))
  have guard : DB.holdsAttempt ti.executorRef old = true := by simp [DB.holdsAttempt, ref, unfinished]
  exact onward _ (reflects.written found own guard ⟨rfl, rfl⟩)

end Copies

/-! ### The phases of `processRun` -/

section Phases

variable {run : DagRun} {row : DagRun} {start : World} {byTask : ByTask} {s : World × List Answer} {env : Env} {d : DAG}

/-- A run with a snapshot of this definition and with an instance of each of its tasks. -/
structure Covered (env : Env) (run : DagRun) (d : DAG) (w : World) : Prop where
  snapshot : run.definitionYAML ≠ ""
  parsed : env.parse run.definitionYAML = some d
  some : d.tasks ≠ []
  covers : ∀ t ∈ d.tasks, (w.db.instance? ⟨run.runID, t.id⟩).isSome

/-- Nothing is missing, so the expansion writes nothing. -/
theorem expandedRun_reflects (covered : Covered env run d s.1) : (expandedRun env run).Safe serving (fun r t =>
    r = .ok (d, run, s.1.db.listTaskInstances run.runID) ∧ Holds s.1.db s.1 t.1) s := by
  have own : dagForRun env run = pure (d, run) := by
    unfold dagForRun parseDefinition
    rw [if_pos covered.snapshot, covered.parsed]
    rfl
  have present : ∀ t ∈ d.tasks, (s.1.db.listTaskInstances run.runID).any (·.taskID == t.id) = true := by
    intro t member
    obtain ⟨ti, found⟩ := Option.isSome_iff_exists.mp (covered.covers t member)
    rw [← get_listTaskInstances] at found
    obtain ⟨listed, same⟩ := ByTask.get_some found
    exact List.any_eq_true.mpr ⟨ti, listed, beq_iff_eq.mpr same⟩
  unfold expandedRun
  rw [own]
  refine serving_read (listTaskInstances_reads run.runID s.1) (fun tis t listed world => ?_) fun e t failed _ => ?_
  · cases listed
    split
    · refine Prog.Safe.andThen (fun _ u => Holds s.1.db s.1 u.1) ?_ fun _ u world => ?_
      · apply Prog.Safe.forEach fun rest u => (∀ t ∈ rest, t ∈ d.tasks) ∧ Holds s.1.db s.1 u.1
        · exact ⟨fun _ member => member, world⟩
        · intro t rest u kept
          rw [if_pos (present t (kept.1 t (.head _)))]
          exact ⟨fun other member => kept.1 other (.tail _ member), kept.2⟩
        · exact fun u kept => kept.2
      · refine serving_read (listTaskInstances_reads run.runID u.1) (fun tis' v listed' world' => ?_) fun e t failed _ => ?_
        · rw [world.db] at listed'
          cases listed'
          exact ⟨rfl, world'.db.trans world.db, world'.cache.trans world.cache⟩
        · cases failed
    · exact ⟨rfl, world⟩
  · cases failed

/-- The run once it is running, as it is in memory and as it is stored. -/
structure Begun (run run' row : DagRun) : Prop where
  runID : run'.runID = run.runID
  held : run'.held = run.held
  state : row.state = .running
  startedAt : row.startedAt = run'.startedAt

/-- The row of the run may differ from the copy at hand, but not in what the start reads. -/
theorem startRun_reflects {old : DagRun} (active : run.state = .queued ∨ run.state = .running) (state : old.state = run.state)
    (startedAt : old.startedAt = run.startedAt) (reflects : Reflects run.runID old start byTask s.1) :
    (startRun run).Safe serving (Prog.returns fun run' t => ∃ row, Begun run run' row ∧ Reflects run.runID row start byTask t.1) s := by
  unfold startRun
  split
  · rename_i queued
    refine serving_now fun now t world => ?_
    replace reflects := reflects.holds world
    refine alone_write (updateDagRunState_writes _ _ _ _ t.1) (fun db u written world' _ => ?_) fun e u refused _ _ => ?_
    · obtain ⟨stored, found, _, runs, instances, events, _⟩ := DB.updateDagRunState_ok written
      rw [reflects.row] at found
      cases found
      refine ⟨DB.setRunState .running (some now) none old, ⟨rfl, rfl, rfl, rfl⟩, fun id => ?_, ?_, ?_, ?_⟩
      · rw [world'.db, DB.instance?, instances, ← DB.instance?]
        exact reflects.rows id
      · rw [world'.db, runs, if_pos rfl]
      · rw [world'.db, events, reflects.events]
      · exact world'.cache.trans reflects.cache
    · have failed := refused.served
      unfold DB.updateDagRunState at failed
      simp [reflects.row, state, queued, legalPriorRunStates] at failed
  · rename_i other
    exact ⟨old, ⟨rfl, rfl, state.trans (active.resolve_left other), startedAt⟩, reflects⟩

theorem blockTask_reflects (acc : ByTask × Bool) (t : Task) (reflects : Reflects run.runID row start acc.1 s.1) :
    (blockTask acc t).Safe serving (Prog.returns fun acc' u => Reflects run.runID row start acc'.1 u.1) s := by
  unfold blockTask
  split
  · exact reflects
  · rename_i ti found
    split
    · exact reflects
    · split
      · refine serving_now fun now u world => ?_
        have key := reflects.key found
        have task : ti.taskID = t.id := (ByTask.get_some found).2
        exact serving_update (reflects.holds world) (task ▸ found) (congrArg InstanceKey.run key) fun v after => after
      · exact reflects

theorem propagateBlocks_reflects (tasks : List Task) (rounds : Nat) (reflects : Reflects run.runID row start byTask s.1) :
    (propagateBlocks tasks rounds byTask).Safe serving (Prog.returns fun after u => Reflects run.runID row start after u.1) s := by
  induction rounds generalizing byTask s with
  | zero => exact reflects
  | succ rounds ih =>
    refine Prog.Safe.andThen (fun (acc : ByTask × Bool) u => Reflects run.runID row start acc.1 u.1) ?_ fun acc u kept => ?_
    · apply Prog.Safe.fold fun _ (acc : ByTask × Bool) u => Reflects run.runID row start acc.1 u.1
      · exact reflects
      · intro t rest acc u kept
        refine (blockTask_reflects acc t kept).mono fun result v after => ?_
        cases result with
        | ok acc' => exact after
        | error e => exact after.elim
      · exact fun acc u kept => kept
    · obtain ⟨after, changed⟩ := acc
      cases changed with
      | true => exact ih kept
      | false => exact kept

theorem requeueTask_reflects (now : Time) (t : Task) (reflects : Reflects run.runID row start byTask s.1) :
    (requeueTask now byTask t).Safe serving (Prog.returns fun after u => Reflects run.runID row start after u.1) s := by
  unfold requeueTask
  split
  · exact reflects
  · rename_i ti found
    split
    · exact reflects
    · dsimp only
      split
      · exact reflects
      · have key := reflects.key found
        have task : ti.taskID = t.id := (ByTask.get_some found).2
        have held : byTask.get (TaskInstance.reset ti).taskID = some ti := task ▸ found
        exact serving_update reflects held (congrArg InstanceKey.run key) fun v after => after

/-- The start of the run, the propagation and the requeueing. -/
theorem started_reflects {old : DagRun} (active : run.state = .queued ∨ run.state = .running) (state : old.state = run.state)
    (startedAt : old.startedAt = run.startedAt) (reflects : Reflects run.runID old start byTask s.1) :
    Prog.Safe serving (do
      let run ← startRun run
      let byTask ← propagateBlocks d.tasks (d.tasks.length + 1) byTask
      let now ← timeNow
      let byTask ← Prog.fold (requeueTask now) d.tasks byTask
      if run.held then pure none else pure (some (run, d, byTask))) (fun r t => ∃ run' row byTask, Begun run run' row ∧
        Reflects run.runID row start byTask t.1 ∧ r = .ok (if run.held then none else some (run', d, byTask))) s := by
  refine Prog.Safe.bind _ (startRun_reflects active state startedAt reflects) ?_ fun e u failed => failed.elim
  rintro run' u ⟨row, started, reflects⟩
  refine Prog.Safe.bind _ (propagateBlocks_reflects d.tasks _ reflects) ?_ fun e v failed => failed.elim
  intro byTask v reflects
  refine serving_now fun now x world => ?_
  have requeued : (Prog.fold (requeueTask now) d.tasks byTask).Safe serving
      (Prog.returns fun after y => Reflects run.runID row start after y.1) x := by
    apply Prog.Safe.fold fun _ byTask y => Reflects run.runID row start byTask y.1
    · exact reflects.holds world
    · intro t rest byTask y kept
      refine (requeueTask_reflects now t kept).mono fun result z after => ?_
      cases result with
      | ok after' => exact after
      | error e => exact after.elim
    · exact fun byTask y kept => kept
  refine Prog.Safe.bind _ requeued ?_ fun e y failed => failed.elim
  intro byTask y reflects
  rw [← started.held]
  split
  · exact ⟨run', row, byTask, started, reflects, rfl⟩
  · exact ⟨run', row, byTask, started, reflects, rfl⟩

/-- Nothing but the start of the run, the propagation and the requeueing happens before the collection. -/
theorem prepareRun_reflects (covered : Covered env run d s.1) (stored : s.1.db.run? run.runID = some run)
    (active : run.state = .queued ∨ run.state = .running) : (prepareRun env run).Safe serving (fun r t =>
      ∃ run' row byTask, Begun run run' row ∧ Reflects run.runID row s.1 byTask t.1 ∧
        r = .ok (if run.held then none else some (run', d, byTask))) s := by
  refine Prog.Safe.bind _ (expandedRun_reflects covered) ?_ fun e t ended => nomatch ended.1
  rintro ⟨d', run', tis⟩ t ⟨same, world⟩
  cases same
  have reflects : Reflects run.runID run s.1 (s.1.db.listTaskInstances run.runID) t.1 :=
    ⟨fun id => by rw [world.db, get_listTaskInstances], by rw [world.db]; exact stored, by rw [world.db], world.cache⟩
  dsimp only
  split
  · rename_i empty
    obtain ⟨task, member⟩ := List.exists_mem_of_ne_nil _ covered.some
    have present := covered.covers task member
    rw [← get_listTaskInstances, List.isEmpty_iff.mp empty] at present
    cases present
  · exact started_reflects active rfl rfl reflects

end Phases

/-! ### Statements about other runs -/

section Others

variable {db after : DB} {o : Op} {w v : World} {s : World × List Answer}

theorem Op.mild_cache (mild : o.mild = true) : o.onCache = false := by
  cases o with
  | publishDAG | evictDAG | pauseCached => cases mild
  | _ => rfl

theorem Op.writes_events (written : o.writes db = some after) (mild : o.mild = true) : after.events = db.events := by
  cases o with
  | updateDagRunState id state started finished =>
    obtain ⟨_, _, _, _, _, same, _⟩ := DB.updateDagRunState_ok (ok_of_toOption written)
    exact same
  | updateDagRunDefinition id yaml hash =>
    obtain ⟨_, _, _, _, same, _⟩ := DB.updateDagRunDefinition_ok (ok_of_toOption written)
    exact same
  | createTaskInstance ti => exact (DB.createTaskInstance_ok (ok_of_toOption written)).2.2.2.1
  | updateTaskInstance ti =>
    obtain ⟨_, rfl⟩ := DB.updateTaskInstance_ok (ok_of_toOption written)
    rfl
  | upsertDAG | softDeleteDAG | setDAGPaused | upsertPool | replaceDagDependencies =>
    exact (Op.writes_definitions written rfl).2.2.1
  | updateTaskInstanceGuarded | setTaskOutput =>
    cases written
    rfl
  | createDagRunBounded | createManualDagRunBounded | updateDagRunSuccess | consumeEvent | publishEvent => cases mild
  | _ => cases written

/-- A mild statement leaves the events and the cache as they are. -/
theorem mild_frame (s : World × List Answer) : Prog.Frame serving (fun o : Op => o.mild = true)
    (fun t => t.1.db.events = s.1.db.events ∧ t.1.cache = s.1.cache) where
  rely _ _ same kept := same ▸ kept
  permit _ _ _ _ _ := trivial
  step o t reply u mild _ stepped kept := by
    rcases World.replay_step stepped with ⟨a, spawned, performed⟩ | ⟨_, world⟩
    · obtain ⟨cache, _, _, same | written⟩ := World.perform_some performed
      · exact ⟨same ▸ kept.1, (cache (Op.mild_cache mild)).trans kept.2⟩
      · exact ⟨(Op.writes_events written mild).trans kept.1, (cache (Op.mild_cache mild)).trans kept.2⟩
    · rw [world]
      exact kept

/-- A run that has ended stays as it is while others are cancelled. -/
theorem cancels_frame (run : RunID) (row : DagRun) (ended : row.state.isTerminal = true) :
    Prog.Frame serving (fun o : Op => o.cancels = true) (fun t => t.1.db.run? run = some row) where
  rely _ _ same kept := same ▸ kept
  permit _ _ _ _ _ := trivial
  step o t reply u cancels _ stepped kept := by
    rcases World.replay_step stepped with ⟨a, spawned, performed⟩ | ⟨_, world⟩
    · rcases World.perform_run? performed run with same | changed
      · exact same.trans kept
      · cases o with
        | updateDagRunState id state started finished =>
          obtain ⟨rfl, row', found, legal, _⟩ := changed
          obtain rfl : state = .cancelled := beq_iff_eq.mp cancels
          rw [kept] at found
          cases found
          cases state : row.state <;> rw [state] at ended legal <;> simp [RunState.isTerminal, legalPriorRunStates] at ended legal
        | createDagRunBounded | createManualDagRunBounded | updateDagRunSuccess | updateDagRunDefinition => cases cancels
        | _ => exact changed.elim
    · rw [world]
      exact kept

end Others

/-! ### The collection -/

section Collection

variable {run row : DagRun} {start : World} {byTask : ByTask} {s : World × List Answer} {env : Env} {id : RunID}

/-- What changes neither the rows of the run nor the events leaves the copies as they are. -/
theorem Reflects.aside {v u : World} (reflects : Reflects id row start byTask v)
    (instances : ∀ task, u.db.instance? ⟨id, task⟩ = v.db.instance? ⟨id, task⟩) (runs : u.db.run? id = v.db.run? id)
    (events : u.db.events = v.db.events) (cache : u.cache = v.cache) : Reflects id row start byTask u :=
  ⟨fun task => (instances task).trans (reflects.rows task), runs.trans reflects.row, events.trans reflects.events,
    cache.trans reflects.cache⟩

/-- A copy that is written as it was. -/
theorem Reflects.same {v : World} {ti : TaskInstance} (reflects : Reflects id row start byTask v)
    (found : byTask.get ti.taskID = some ti) : Reflects id row start (byTask.set ti) v := by
  refine ⟨fun task => ?_, reflects.row, reflects.events, reflects.cache⟩
  rw [ByTask.get_set, reflects.rows]
  split
  · rename_i own
    rw [own, found, Option.map_some]
  · rfl

/-- How many runs the walk from a run to its parents meets, with this many rounds left. -/
def depthIn (db : DB) : Nat → Nat → DagRun → Nat
  | 0, depth, _ => depth
  | rounds + 1, depth, cur => match cur.parentRunID with
    | none => depth
    | some parent => match db.run? parent with
      | none => depth
      | some run => depthIn db rounds (depth + 1) run

theorem subdagDepthLoop_serves (rounds depth : Nat) (cur : DagRun) : (subdagDepthLoop rounds depth cur).Safe serving
    (fun r t => r = .ok (depthIn s.1.db rounds depth cur) ∧ Holds s.1.db s.1 t.1) s := by
  induction rounds generalizing depth cur s with
  | zero => exact ⟨rfl, Holds.refl _⟩
  | succ rounds ih =>
    unfold subdagDepthLoop depthIn
    cases cur.parentRunID with
    | none => exact ⟨rfl, Holds.refl _⟩
    | some parent =>
      refine serving_attempt (getDagRun_reads parent s.1) fun t world => ?_
      dsimp only
      rw [DB.getDagRun]
      cases s.1.db.run? parent with
      | none => exact ⟨rfl, world⟩
      | some run =>
        refine (ih (depth + 1) run (s := t)).mono fun r u ended => ?_
        rw [world.db] at ended
        exact ⟨ended.1, ended.2.db, ended.2.cache.trans world.cache⟩

/-- The previous child is attached or run again; the parent is not touched. -/
theorem previousChild_reflects (ref : ExecutorRef) (running : row.state = .running) (reflects : Reflects id row start byTask s.1) :
    (previousChild env ref).Safe serving (Prog.returns fun _ t => Reflects id row start byTask t.1) s := by
  unfold previousChild
  split
  · rename_i child
    refine serving_attempt (getDagRun_reads child s.1) fun t world => ?_
    replace reflects := reflects.holds world
    cases found : s.1.db.getDagRun child with
    | error e => exact reflects
    | ok stored =>
      show Prog.Safe serving (if stored.state.isTerminal ∧ stored.state ≠ .success then _ else _) _ t
      split
      · rename_i stopped
        have apart : id ≠ child := by
          rintro rfl
          have same := getDagRun_ok found
          rw [← world.db, reflects.row] at same
          cases same
          rw [running] at stopped
          cases stopped.1
        have ends := @retryRunLocked_ends env child Served t t (Holds.refl _)
        have calm := Prog.Yields.within (retryRunLocked_mild env child) (mild_frame t) ⟨rfl, rfl⟩
        refine Prog.Safe.andThen _ (Prog.Safe.attempt (ends.and calm)) fun result u ended => ?_
        obtain ⟨ended, _, events, cache⟩ := ended
        have kept : Reflects id row start byTask u.1 := by
          cases result with
          | ok _ =>
            obtain ⟨_, _, _, _, _, _, reopened⟩ := ended u.1 (Holds.refl _)
            exact reflects.aside (fun task => reopened.elsewhere _ apart) (reopened.others id apart) events cache
          | error e =>
            rcases ended u.1 (Holds.refl _) with ⟨_, unserved⟩ | ⟨same, _⟩
            · exact absurd Served.reliable unserved
            · exact reflects.holds ⟨same, cache⟩
        cases result with
        | ok _ => exact kept
        | error e => exact kept
      · exact reflects
  · exact reflects

theorem createDagRunBounded_writes (child : DagRun) (global : Int) (w : World) (a : Answer) : ∃ reply v,
    World.perform 0 (.createDagRunBounded child global) a w = some (reply, v, []) ∧ v.cache = w.cache ∧
      ((∃ db, w.db.createDagRunBounded child global = .ok db ∧ reply = .ok () ∧ v.db = db) ∨
        ∃ e, reply = .error e ∧ v.db = w.db ∧ Refused (w.db.createDagRunBounded child global) (a.served = true) e) :=
  World.write_spec a w _ _

/-- What the step of a sub-workflow task leaves: the copy that it returns, or after an error the copies that there were. -/
def Advanced (id : RunID) (row : DagRun) (start : World) (byTask : ByTask) (task : TaskID) :
    Except Failure TaskInstance → World × List Answer → Prop
  | .ok ti, t => ti.taskID = task ∧ Reflects id row start (byTask.set ti) t.1
  | .error _, t => Reflects id row start byTask t.1

theorem launchSubdag_reflects {t : Task} {ti : TaskInstance} {now : Time} (running : row.state = .running)
    (found : byTask.get t.id = some ti) (reflects : Reflects id row start byTask s.1) :
    (launchSubdag env run t ti now).Safe serving (Advanced id row start byTask t.id) s := by
  have task : ti.taskID = t.id := (ByTask.get_some found).2
  have own : ti.runID = id := congrArg InstanceKey.run (reflects.key found)
  rw [← task] at found
  -- every write is one of the task's own copy
  have writes (next : TaskInstance) (same : next.key = ti.key) {u : World × List Answer} (reflects : Reflects id row start byTask u.1) :
      Prog.Safe serving (do
        updateTaskInstance next
        pure next) (Advanced id row start byTask t.id) u := by
    have sameTask : next.taskID = ti.taskID := congrArg InstanceKey.task same
    have sameRun : next.runID = ti.runID := congrArg InstanceKey.run same
    rw [← sameTask] at found
    exact serving_update reflects found (sameRun.trans own) fun v after => ⟨sameTask.trans task, after⟩
  unfold launchSubdag
  refine Prog.Safe.bind _ (subdagDepthLoop_serves _ _ run) ?_ fun e u ended => nomatch ended.1
  rintro depth u ⟨_, world⟩
  replace reflects := reflects.holds world
  dsimp only
  split
  · exact writes _ (by rfl) reflects
  · refine serving_perform (o := .cachedDAG t.subdag) (fun a => ⟨_, _, _, rfl, Holds.refl _⟩) fun cached v world => ?_
    replace reflects := reflects.holds world
    cases cached with
    | none => exact writes _ (by rfl) reflects
    | some c =>
      refine Prog.Safe.bind _ (previousChild_reflects ti.executorRef running reflects) ?_ fun e x failed => failed.elim
      intro previous x reflects
      cases previous with
      | some child => exact writes _ (by rfl) reflects
      | none =>
        refine serving_attempt_write (createDagRunBounded_writes _ _ x.1) (fun db y created world => ?_) fun e y _ world => ?_
        · obtain ⟨apart, _, runs, instances, events, _⟩ := DB.insertRun_ok (DB.createDagRunBounded_ok created).2.2
          refine writes _ (by rfl) (reflects.aside (fun task => ?_) ?_ ?_ world.cache)
          · rw [world.db, DB.instance?, instances, ← DB.instance?]
          · rw [world.db, runs, if_neg]
            intro same
            obtain ⟨stored, key⟩ := DB.run?_some reflects.row
            exact (apart row stored).1 (key.trans same)
          · rw [world.db, events]
        · replace reflects := reflects.holds world
          cases e with
          | queueFull => exact ⟨task, reflects.same found⟩
          | _ => exact reflects

theorem recordFailure_reflects {task : TaskID} {ti : TaskInstance} (unfinished : ti.state.isTerminal = false)
    (found : byTask.get task = some ti) (reflects : Reflects id row start byTask s.1) :
    (recordFailure ti).Safe serving (Advanced id row start byTask task) s := by
  have own : ti.taskID = task := (ByTask.get_some found).2
  have ofRun : ti.runID = id := congrArg InstanceKey.run (reflects.key found)
  rw [← own] at found
  refine serving_now fun fin t world => ?_
  exact serving_finalize (reflects.holds world) found ofRun rfl unfinished fun u after => ⟨own, after⟩

theorem mirrorSubdag_reflects {task : TaskID} {ti : TaskInstance} {now : Time} (unfinished : ti.state.isTerminal = false)
    (found : byTask.get task = some ti) (reflects : Reflects id row start byTask s.1) :
    (mirrorSubdag ti now).Safe serving (Advanced id row start byTask task) s := by
  have own : ti.taskID = task := (ByTask.get_some found).2
  have ofRun : ti.runID = id := congrArg InstanceKey.run (reflects.key found)
  unfold mirrorSubdag
  split
  · rename_i child _
    refine serving_attempt (getDagRun_reads child s.1) fun t world => ?_
    replace reflects := reflects.holds world
    cases s.1.db.getDagRun child with
    | error e => exact recordFailure_reflects unfinished found reflects
    | ok stored =>
      dsimp only [Except.mapError]
      cases stored.state with
      | success =>
        have held : byTask.get ({ ti with state := .success, finishedAt := some now } : TaskInstance).taskID = some ti := own ▸ found
        exact serving_finalize reflects held ofRun rfl unfinished fun u after => ⟨own, after⟩
      | failed | timedOut | cancelled => exact recordFailure_reflects unfinished found reflects
      | queued | running => exact ⟨own, reflects.same (own ▸ found)⟩
  · exact recordFailure_reflects unfinished found reflects

theorem advanceSubdag_reflects {t : Task} {ti : TaskInstance} (running : row.state = .running)
    (state : ti.state = .scheduled ∨ ti.state = .running) (found : byTask.get t.id = some ti)
    (reflects : Reflects id row start byTask s.1) :
    (advanceSubdag env run t ti).Safe serving (Advanced id row start byTask t.id) s := by
  refine serving_now fun now u world => ?_
  replace reflects := reflects.holds world
  split
  · exact launchSubdag_reflects running found reflects
  · rename_i other
    have unfinished : ti.state.isTerminal = false := by rw [state.resolve_left other]; rfl
    exact mirrorSubdag_reflects unfinished found reflects

theorem getDagRunByLogicalDate_reads (dag : DagID) (date : Time) (w : World) (a : Answer) : ∃ reply v,
    World.perform 0 (.getDagRunByLogicalDate dag date) a w = some (reply, v, []) ∧ Holds w.db w v ∧
      ((a.served = true ∧ reply = w.db.getDagRunByLogicalDate dag date) ∨ (a.served = false ∧ reply = .error .unavailable)) := by
  obtain ⟨reply, v, read, same, answered⟩ := World.read_spec a w (w.db.getDagRunByLogicalDate dag date)
  subst same
  exact ⟨reply, _, read, Holds.refl _, answered⟩

/-- The gate asks other runs only. -/
theorem dependentReady_holds (d : DAG) (dep : DependsOnDag) :
    (dependentReady env run d dep).Safe serving (Prog.returns fun _ t => Holds s.1.db s.1 t.1) s := by
  have waits (t : World × List Answer) (world : Holds s.1.db s.1 t.1) :
      (dependentReady.waiting run dep).Safe serving (Prog.returns fun _ u => Holds s.1.db s.1 u.1) t := by
    unfold dependentReady.waiting
    split
    · exact serving_now fun now u same => ⟨same.db.trans world.db, same.cache.trans world.cache⟩
    · exact world
  unfold dependentReady
  split
  · exact Holds.refl _
  · rename_i date _
    refine serving_attempt (getDagRunByLogicalDate_reads dep.dag date s.1) fun t world => ?_
    cases s.1.db.getDagRunByLogicalDate dep.dag date with
    | error e => exact waits t world
    | ok target =>
      show Prog.Safe serving (if target.state = .success then pure (true, false) else dependentReady.waiting run dep) _ t
      split
      · exact world
      · exact waits t world

theorem dependencyGate_reflects {d : DAG} {t : Task} {ti : TaskInstance} (found : byTask.get t.id = some ti)
    (reflects : Reflects id row start byTask s.1) : (dependencyGate env run d t ti).Safe serving (Prog.returns fun gate u =>
      match gate with
      | some (some next) => next.taskID = t.id ∧ Reflects id row start (byTask.set next) u.1
      | _ => Reflects id row start byTask u.1) s := by
  have own : ti.taskID = t.id := (ByTask.get_some found).2
  have ofRun : ti.runID = id := congrArg InstanceKey.run (reflects.key found)
  rw [← own] at found
  unfold dependencyGate
  split
  · exact reflects
  · rename_i dep _
    refine Prog.Safe.andThen _ (dependentReady_holds d dep) fun answer u world => ?_
    obtain ⟨satisfied, timedOut⟩ := answer
    replace reflects := reflects.holds world
    dsimp only
    split
    · exact reflects
    · split
      · exact reflects
      · refine serving_now fun now v world => ?_
        replace reflects := reflects.holds world
        cases dep.onTimeout with
        | skip => exact serving_update reflects found ofRun fun x after => ⟨own, after⟩
        | fail => exact serving_update reflects found ofRun fun x after => ⟨own, after⟩

/-- What the collection of a task leaves; after an error, that task has not ended. -/
def Gathered (id : RunID) (row : DagRun) (start : World) (c : Collected) (task : TaskID) :
    Except Failure Collected → World × List Answer → Prop
  | .ok c', t => c'.failed = c.failed ∧ Reflects id row start c'.byTask t.1
  | .error _, t => Reflects id row start c.byTask t.1 ∧ ∃ ti, c.byTask.get task = some ti ∧ ti.state.isTerminal = false

/-- The end of the collection of a task, with the value of its condition. -/
theorem collectWhen_reflects {d : DAG} {c : Collected} {t : Task} {ti : TaskInstance} (runs : Bool)
    (found : c.byTask.get t.id = some ti) (reflects : Reflects id row start c.byTask s.1) :
    (if runs then pure { c with ready := c.ready ++ [⟨run, t, ti, d.maxActiveTasks⟩] } else do
      let now ← timeNow
      let ti := { ti with state := .skipped, finishedAt := some now }
      updateTaskInstance ti
      pure { c with byTask := c.byTask.set ti } : Act Collected).Safe serving (Gathered id row start c t.id) s := by
  split
  · exact ⟨rfl, reflects⟩
  · refine serving_now fun now u world => ?_
    have own : ti.taskID = t.id := (ByTask.get_some found).2
    have ofRun : ti.runID = id := congrArg InstanceKey.run (reflects.key found)
    rw [← own] at found
    exact serving_update (reflects.holds world) found ofRun fun v after => ⟨rfl, after⟩

theorem collectTask_reflects {d : DAG} {c : Collected} {t : Task} (running : row.state = .running)
    (reflects : Reflects id row start c.byTask s.1) :
    (collectTask env run d c t).Safe serving (Gathered id row start c t.id) s := by
  unfold collectTask
  split
  · exact ⟨rfl, reflects⟩
  · rename_i ti found
    split
    · rename_i subdag
      split
      · exact ⟨rfl, reflects⟩
      · refine Prog.Safe.bind _ (advanceSubdag_reflects running subdag.2 found reflects) (fun next u ended => ⟨rfl, ended.2⟩)
          fun e u ended => ⟨ended, ti, found, ?_⟩
        rcases subdag.2 with waits | runs
        · rw [waits]
          rfl
        · rw [runs]
          rfl
    · split
      · exact ⟨rfl, reflects⟩
      · split
        · exact ⟨rfl, reflects⟩
        · rename_i waits _
          have scheduled : ti.state = .scheduled := not_not.mp waits
          refine Prog.Safe.bind _ (dependencyGate_reflects found reflects) ?_ fun e u failed => failed.elim
          intro gate u reached
          match gate, reached with
          | none, reached => exact ⟨rfl, reached⟩
          | some (some next), reached => exact ⟨rfl, reached.2⟩
          | some none, reached =>
            dsimp only
            split
            · exact collectWhen_reflects true found reached
            · refine serving_perform (o := .evalWhen run t (ti.tryNumber + 1)) (fun a => ⟨_, _, _, rfl, Holds.refl _⟩) ?_
              intro runs v world
              exact collectWhen_reflects runs found (reached.holds world)

theorem collectReady_reflects {d : DAG} (running : row.state = .running) (reflects : Reflects id row start byTask s.1) :
    (collectReady env run d byTask).Safe serving (Prog.returns fun c u => Reflects id row start c.byTask u.1 ∧
      (c.failed.isSome = true → ∃ t ∈ d.tasks, ∃ ti, c.byTask.get t.id = some ti ∧ ti.state.isTerminal = false)) s := by
  apply Prog.Safe.fold fun rest (c : Collected) u => (∀ t ∈ rest, t ∈ d.tasks) ∧ Reflects id row start c.byTask u.1 ∧
    (c.failed.isSome = true → ∃ t ∈ d.tasks, ∃ ti, c.byTask.get t.id = some ti ∧ ti.state.isTerminal = false)
  · exact ⟨fun _ member => member, reflects, fun failed => nomatch failed⟩
  · rintro t rest c u ⟨defined, reflects, stopped⟩
    have later : ∀ t ∈ rest, t ∈ d.tasks := fun t member => defined t (.tail _ member)
    split
    · exact ⟨later, reflects, stopped⟩
    · rename_i onward
      refine Prog.Safe.andThen _ (Prog.Safe.attempt (collectTask_reflects running reflects)) fun result v ended => ?_
      cases result with
      | ok c' => exact ⟨later, ended.2, fun failed => absurd (ended.1 ▸ failed) onward⟩
      | error e => exact ⟨later, ended.1, fun _ => ⟨t, defined t (.head _), ended.2⟩⟩
  · exact fun c u kept => kept.2

end Collection

end Cronova.Scheduler
