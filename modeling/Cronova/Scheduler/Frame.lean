import Cronova.Scheduler.Common

/-! What a statement does to the database, whoever issues it. -/

set_option autoImplicit false

namespace Cronova.Scheduler

open Model Store Process

/-- The database after a statement that writes. -/
def Op.writes : Op → DB → Option DB
  | .createDagRunBounded run global, db => (db.createDagRunBounded run global).toOption
  | .createManualDagRunBounded run perDAG global, db => (db.createManualDagRunBounded run perDAG global).toOption
  | .updateDagRunState run state started finished, db => (db.updateDagRunState run state started finished).toOption
  | .updateDagRunSuccess run started finished, db => (db.updateDagRunSuccess run started finished).toOption
  | .updateDagRunDefinition run yaml hash, db => (db.updateDagRunDefinition run yaml hash).toOption
  | .createTaskInstance ti, db => (db.createTaskInstance ti).toOption
  | .updateTaskInstance ti, db => (db.updateTaskInstance ti).toOption
  | .updateTaskInstanceGuarded ti expectRef, db => some (db.updateTaskInstanceGuarded ti expectRef).2
  | .consumeEvent id, db => some (db.consumeEvent id)
  | .publishEvent source key payload, db => some (db.publishEvent source key payload).2
  | .upsertDAG d, db => some (db.upsertDAG d)
  | .softDeleteDAG dag, db => (db.softDeleteDAG dag).toOption
  | .setDAGPaused dag paused, db => (db.setDAGPaused dag paused).toOption
  | .upsertPool p, db => (db.upsertPool p).toOption
  | .replaceDagDependencies downstream upstreams, db => some (db.replaceDagDependencies downstream upstreams)
  | .setTaskOutput ti output, db => some (db.setTaskOutput ti.key output)
  | _, _ => none

/-- The statements that write the cache. -/
def Op.onCache : Op → Bool
  | .publishDAG _ _ | .evictDAG _ | .pauseCached _ _ => true
  | _ => false

section Perform

variable {tid : Nat} {o : Op} {a : Answer} {w v : World} {reply : o.Reply} {spawned : List Request}

theorem World.writeFlag_some {x : Bool × DB} {reply : Except StoreError Bool}
    (performed : w.writeFlag a x = some (reply, v, spawned)) :
    spawned = [] ∧ ((reply = .ok x.1 ∧ v = { w with db := x.2 }) ∨ (reply = .error .unavailable ∧ v = w)) := by
  unfold World.writeFlag at performed
  split at performed
  · cases performed
    exact ⟨rfl, .inl ⟨rfl, rfl⟩⟩
  · cases performed
    exact ⟨rfl, .inr ⟨rfl, rfl⟩⟩

theorem World.read_served {A : Type} {x : Except StoreError A} (served : a.served = true) :
    w.read a x = some (x, w, []) := by
  rw [World.read, if_pos served]

theorem World.writeFlag_served {x : Bool × DB} (served : a.served = true) :
    w.writeFlag a x = some (.ok x.1, { w with db := x.2 }, []) := by
  rw [World.writeFlag, if_pos served]

theorem World.write_db {x : Except StoreError DB} {trail : Trail} {reply : Except StoreError Unit}
    (performed : w.write a x trail = some (reply, v, spawned)) :
    v.cache = w.cache ∧ v.bootTime = w.bootTime ∧ v.holder = w.holder ∧ (v.db = w.db ∨ x.toOption = some v.db) := by
  obtain ⟨_, ⟨db, rfl, _, rfl⟩ | ⟨_, rfl⟩⟩ := World.write_some performed
  · exact ⟨rfl, rfl, rfl, .inr rfl⟩
  · exact ⟨rfl, rfl, rfl, .inl rfl⟩

theorem World.writeFlag_db {x : Bool × DB} {reply : Except StoreError Bool}
    (performed : w.writeFlag a x = some (reply, v, spawned)) :
    v.cache = w.cache ∧ v.bootTime = w.bootTime ∧ v.holder = w.holder ∧ (v.db = w.db ∨ some x.2 = some v.db) := by
  obtain ⟨_, ⟨_, rfl⟩ | ⟨_, rfl⟩⟩ := World.writeFlag_some performed
  · exact ⟨rfl, rfl, rfl, .inr rfl⟩
  · exact ⟨rfl, rfl, rfl, .inl rfl⟩

/-- The holder of the lock after a statement. -/
def Op.holder (tid : Nat) (before : Option (Nat × Section)) : Op → Option (Nat × Section)
  | .lock what => some (tid, what)
  | .unlock => none
  | _ => before

/-- What a statement leaves alone: the database unless it is a write, the cache unless it is an
edit of a definition. -/
theorem World.perform_some (performed : World.perform tid o a w = some (reply, v, spawned)) :
    (o.onCache = false → v.cache = w.cache) ∧ v.bootTime = w.bootTime ∧ v.holder = o.holder tid w.holder ∧
      (v.db = w.db ∨ o.writes w.db = some v.db) := by
  cases o with
  | createDagRunBounded | createManualDagRunBounded | updateDagRunState | updateDagRunSuccess
  | updateDagRunDefinition | createTaskInstance | updateTaskInstance | consumeEvent | upsertDAG | softDeleteDAG
  | setDAGPaused | upsertPool | replaceDagDependencies | setTaskOutput =>
    obtain ⟨cache, rest⟩ := World.write_db performed
    exact ⟨fun _ => cache, rest⟩
  | updateTaskInstanceGuarded | publishEvent =>
    obtain ⟨cache, rest⟩ := World.writeFlag_db performed
    exact ⟨fun _ => cache, rest⟩
  | lock what =>
    simp only [World.perform] at performed
    split at performed
    · cases performed
      exact ⟨fun _ => rfl, rfl, rfl, .inl rfl⟩
    · cases performed
  | await ref =>
    simp only [World.perform] at performed
    split at performed
    · cases performed
      exact ⟨fun _ => rfl, rfl, rfl, .inl rfl⟩
    · cases performed
      exact ⟨fun _ => rfl, rfl, rfl, .inl rfl⟩
    · cases performed
    · cases performed
  | pauseCached dag paused =>
    simp only [World.perform] at performed
    split at performed
    · cases performed
      exact ⟨nofun, rfl, rfl, .inl rfl⟩
    · cases performed
      exact ⟨nofun, rfl, rfl, .inl rfl⟩
  | getDagRun | getDAG | getDagRunByLogicalDate | latestScheduledRun | listDagRunsByState | listDagRunsByStateLimited
  | countActiveRuns | countActiveRunsByDag | getTaskInstance | listTaskInstances | listTaskInstancesByState
  | countActiveTaskInstances | countRunningInPool | countActiveTasksForDag | getPool | listDownstreams
  | listUpstreams | listPendingEvents =>
    obtain ⟨rfl, _⟩ := World.read_some performed
    exact ⟨fun _ => rfl, rfl, rfl, .inl rfl⟩
  | publishDAG | evictDAG =>
    cases performed
    exact ⟨nofun, rfl, rfl, .inl rfl⟩
  | unlock | now | order | cachedDAG | allDAGs | bootTime | census | evalWhen | groupAvailable | stageProject
  | launch | probe | cancel | go | readOutput | removeOutput =>
    cases performed
    exact ⟨fun _ => rfl, rfl, rfl, .inl rfl⟩

/-- Only `go` starts a goroutine. -/
theorem World.perform_spawned (performed : World.perform tid o a w = some (reply, v, spawned)) {request : Request}
    (member : request ∈ spawned) : ∃ task epoch, o = .go task ∧ request = .goroutine task epoch := by
  cases o with
  | go task =>
    cases performed
    exact ⟨task, _, rfl, List.mem_singleton.mp member⟩
  | createDagRunBounded | createManualDagRunBounded | updateDagRunState | updateDagRunSuccess
  | updateDagRunDefinition | createTaskInstance | updateTaskInstance | consumeEvent | upsertDAG | softDeleteDAG
  | setDAGPaused | upsertPool | replaceDagDependencies | setTaskOutput =>
    rw [(World.write_some performed).1] at member
    cases member
  | updateTaskInstanceGuarded | publishEvent =>
    rw [(World.writeFlag_some performed).1] at member
    cases member
  | lock what =>
    simp only [World.perform] at performed
    split at performed
    · cases performed
      cases member
    · cases performed
  | await ref =>
    simp only [World.perform] at performed
    split at performed
    · cases performed
      cases member
    · cases performed
      cases member
    · cases performed
    · cases performed
  | getDagRun | getDAG | getDagRunByLogicalDate | latestScheduledRun | listDagRunsByState | listDagRunsByStateLimited
  | countActiveRuns | countActiveRunsByDag | getTaskInstance | listTaskInstances | listTaskInstancesByState
  | countActiveTaskInstances | countRunningInPool | countActiveTasksForDag | getPool | listDownstreams
  | listUpstreams | listPendingEvents =>
    rw [(World.read_some performed).2.1] at member
    cases member
  | pauseCached dag paused =>
    simp only [World.perform] at performed
    split at performed
    · cases performed
      cases member
    · cases performed
      cases member
  | unlock | now | order | cachedDAG | allDAGs | bootTime | census | evalWhen | groupAvailable | stageProject
  | launch | probe | cancel | publishDAG | evictDAG | readOutput | removeOutput =>
    cases performed
    cases member

end Perform

/-- One statement of a program that runs alone. -/
theorem World.replay_step {o : Op} {s t : World × List Answer} {reply : o.Reply} (stepped : World.replay o s = (reply, t)) :
    (∃ a spawned, World.perform 0 o a s.1 = some (reply, t.1, spawned)) ∨
      (∃ a, World.perform 0 o a s.1 = none) ∧ t.1 = s.1 := by
  obtain ⟨w, answers⟩ := s
  cases performed : World.perform 0 o (answers.headD {}) w with
  | none =>
    have replayed : World.replay o (w, answers) = (Op.idle o, w, answers.tail) := by
      simp only [World.replay, performed]
      rfl
    rw [replayed] at stepped
    cases stepped
    exact .inr ⟨⟨_, performed⟩, rfl⟩
  | some result =>
    obtain ⟨r, v, spawned⟩ := result
    have replayed : World.replay o (w, answers) = (r, v, answers.tail) := by
      simp only [World.replay, performed]
      rfl
    rw [replayed] at stepped
    cases stepped
    exact .inl ⟨_, spawned, performed⟩

section Alone

variable {a : Answer} {w : World}

theorem World.write_ne_none (x : Except StoreError DB) (trail : Trail) : w.write a x trail ≠ none := by
  unfold World.write
  split <;> simp

theorem World.writeFlag_ne_none (x : Bool × DB) : w.writeFlag a x ≠ none := by
  unfold World.writeFlag
  split <;> simp

theorem World.read_ne_none {A : Type} (x : Except StoreError A) : w.read a x ≠ none := by simp [World.read]

end Alone

section Runs

variable {db after : DB}

theorem ok_of_toOption {E A : Type} {x : Except E A} {a : A} (found : x.toOption = some a) : x = .ok a := by
  cases x with
  | ok b => exact congrArg _ (Option.some.inj found)
  | error e => cases found

/-- The statements that write definitions, pools or dependencies. -/
def Op.onDefinitions : Op → Bool
  | .upsertDAG _ | .softDeleteDAG _ | .setDAGPaused _ _ | .upsertPool _ | .replaceDagDependencies _ _ => true
  | _ => false

theorem Op.writes_definitions {o : Op} (written : o.writes db = some after) (edit : o.onDefinitions = true) :
    DB.SameRows db after := by
  cases o with
  | upsertDAG d =>
    cases written
    exact DB.upsertDAG_rows db d
  | softDeleteDAG dag => exact DB.softDeleteDAG_rows (ok_of_toOption written)
  | setDAGPaused dag paused => exact DB.setDAGPaused_rows (ok_of_toOption written)
  | upsertPool p => exact DB.upsertPool_rows (ok_of_toOption written)
  | replaceDagDependencies downstream upstreams =>
    cases written
    exact ⟨rfl, rfl, rfl, rfl⟩
  | _ => cases edit

theorem runKeys_updateRun (db : DB) (id : RunID) (guard : DagRun → Bool) (f : DagRun → DagRun)
    (same : ∀ r, runKey (f r) = runKey r) : (db.updateRun id guard f same).runs.rows.map runKey = db.runs.rows.map runKey :=
  Table.keys_modify _ _ _ same

/-- No statement deletes a run or changes its key. -/
theorem Op.writes_runKeys {o : Op} (written : o.writes db = some after) :
    db.runs.rows.map runKey <+: after.runs.rows.map runKey := by
  have gains (r : DagRun) (inserted : db.insertRun r = .ok after) :
      db.runs.rows.map runKey <+: after.runs.rows.map runKey := by
    refine ⟨[runKey r], ?_⟩
    simp [(DB.insertRun_ok inserted).2.1]
  have keeps (same : after.runs.rows.map runKey = db.runs.rows.map runKey) :
      db.runs.rows.map runKey <+: after.runs.rows.map runKey := same ▸ List.prefix_rfl
  cases o with
  | createDagRunBounded r global => exact gains r (DB.createDagRunBounded_ok (ok_of_toOption written)).2.2
  | createManualDagRunBounded r perDAG global =>
    exact gains r (DB.createManualDagRunBounded_ok (ok_of_toOption written))
  | updateDagRunState id state started finished =>
    replace written := ok_of_toOption written
    unfold DB.updateDagRunState at written
    simp only at written
    split at written
    · cases written
    · split at written
      · cases written
      · split at written
        · cases written
          exact keeps (runKeys_updateRun db id _ _ (DB.runKey_setRunState _ _ _))
        · cases written
  | updateDagRunSuccess id started finished =>
    replace written := ok_of_toOption written
    unfold DB.updateDagRunSuccess at written
    split at written
    · cases written
    · cases written
      apply keeps
      rw [(DB.armEvent_frame _ _ _).1]
      exact runKeys_updateRun db id _ _ (DB.runKey_setRunState _ _ _)
  | updateDagRunDefinition id yaml hash =>
    replace written := ok_of_toOption written
    unfold DB.updateDagRunDefinition at written
    split at written
    · cases written
    · cases written
      exact keeps (runKeys_updateRun db id _ _ (DB.runKey_setDefinition yaml hash))
  | createTaskInstance ti =>
    apply keeps
    rw [(DB.createTaskInstance_ok (ok_of_toOption written)).2.2.1]
  | updateTaskInstance ti =>
    obtain ⟨_, rfl⟩ := DB.updateTaskInstance_ok (ok_of_toOption written)
    exact keeps rfl
  | publishEvent source key payload =>
    cases written
    apply keeps
    unfold DB.publishEvent
    cases inserted : db.insertEvent source key payload with
    | none => rfl
    | some armed =>
      dsimp only
      rw [(DB.insertEvent_some inserted).2.2.1]
  | upsertDAG | softDeleteDAG | setDAGPaused | upsertPool | replaceDagDependencies =>
    apply keeps
    rw [(Op.writes_definitions written rfl).1]
  | updateTaskInstanceGuarded | consumeEvent | setTaskOutput =>
    cases written
    exact keeps rfl
  | _ => cases written

/-- The statements that write `task_instances`. -/
def Op.onInstances : Op → Bool
  | .createTaskInstance _ | .updateTaskInstance _ | .updateTaskInstanceGuarded _ _ => true
  | _ => false

theorem Op.writes_instances {o : Op} (written : o.writes db = some after) (other : o.onInstances = false) :
    after.taskInstances = db.taskInstances := by
  cases o with
  | createDagRunBounded r global =>
    exact (DB.insertRun_ok (DB.createDagRunBounded_ok (ok_of_toOption written)).2.2).2.2.2.1
  | createManualDagRunBounded r perDAG global =>
    exact (DB.insertRun_ok (DB.createManualDagRunBounded_ok (ok_of_toOption written))).2.2.2.1
  | updateDagRunState id state started finished =>
    obtain ⟨_, _, _, _, same, _⟩ := DB.updateDagRunState_ok (ok_of_toOption written)
    exact same
  | updateDagRunSuccess id started finished =>
    obtain ⟨_, _, _, same, _⟩ := DB.updateDagRunSuccess_ok (ok_of_toOption written)
    exact same
  | updateDagRunDefinition id yaml hash =>
    obtain ⟨_, _, _, same, _⟩ := DB.updateDagRunDefinition_ok (ok_of_toOption written)
    exact same
  | publishEvent source key payload =>
    cases written
    unfold DB.publishEvent
    cases inserted : db.insertEvent source key payload with
    | none => rfl
    | some armed => exact (DB.insertEvent_some inserted).2.2.2.1
  | upsertDAG | softDeleteDAG | setDAGPaused | upsertPool | replaceDagDependencies =>
    exact (Op.writes_definitions written rfl).2.1
  | consumeEvent | setTaskOutput =>
    cases written
    rfl
  | createTaskInstance | updateTaskInstance | updateTaskInstanceGuarded => cases other
  | _ => cases written

/-- The statements that write `dags`. -/
def Op.onDAGs : Op → Bool
  | .upsertDAG _ | .softDeleteDAG _ | .setDAGPaused _ _ => true
  | _ => false

theorem Op.writes_dags {o : Op} (written : o.writes db = some after) (other : o.onDAGs = false) : after.dags = db.dags := by
  cases o with
  | createDagRunBounded r global =>
    exact (DB.insertRun_ok (DB.createDagRunBounded_ok (ok_of_toOption written)).2.2).2.2.2.2.2.2.1
  | createManualDagRunBounded r perDAG global =>
    exact (DB.insertRun_ok (DB.createManualDagRunBounded_ok (ok_of_toOption written))).2.2.2.2.2.2.1
  | updateDagRunState id state started finished =>
    obtain ⟨_, _, _, _, _, _, _, same, _⟩ := DB.updateDagRunState_ok (ok_of_toOption written)
    exact same
  | updateDagRunSuccess id started finished =>
    obtain ⟨_, _, _, _, _, same, _⟩ := DB.updateDagRunSuccess_ok (ok_of_toOption written)
    exact same
  | updateDagRunDefinition id yaml hash =>
    obtain ⟨_, _, _, _, _, _, same, _⟩ := DB.updateDagRunDefinition_ok (ok_of_toOption written)
    exact same
  | createTaskInstance ti => exact (DB.createTaskInstance_ok (ok_of_toOption written)).2.2.2.2.2.1
  | updateTaskInstance ti =>
    obtain ⟨_, rfl⟩ := DB.updateTaskInstance_ok (ok_of_toOption written)
    rfl
  | publishEvent source key payload =>
    cases written
    unfold DB.publishEvent
    cases inserted : db.insertEvent source key payload with
    | none => rfl
    | some armed => exact (DB.insertEvent_some inserted).2.2.2.2.1
  | upsertPool p =>
    replace written := ok_of_toOption written
    unfold DB.upsertPool at written
    split at written
    · cases written
    · cases written
      rfl
  | updateTaskInstanceGuarded | consumeEvent | replaceDagDependencies | setTaskOutput =>
    cases written
    rfl
  | upsertDAG | softDeleteDAG | setDAGPaused => cases other
  | _ => cases written

/-- How a statement changes the row of a run. -/
def Op.changesRun (db after : DB) (id : RunID) : Op → Prop
  | .createDagRunBounded run _ | .createManualDagRunBounded run _ _ =>
    run.runID = id ∧ db.run? id = none ∧ after.run? id = some run
  | .updateDagRunState run state started finished => run = id ∧ ∃ row, db.run? id = some row ∧
    row.state ∈ legalPriorRunStates state ∧ after.run? id = some (DB.setRunState state started finished row)
  | .updateDagRunSuccess run started finished => run = id ∧ ∃ row, db.run? id = some row ∧
    after.run? id = some (DB.setRunState .success started finished row)
  | .updateDagRunDefinition run yaml hash => run = id ∧ ∃ row, db.run? id = some row ∧
    after.run? id = some (DB.setDefinition yaml hash row)
  | _ => False

theorem DB.insertRun_run? {run : DagRun} (inserted : db.insertRun run = .ok after) (id : RunID) :
    after.run? id = db.run? id ∨ (run.runID = id ∧ db.run? id = none ∧ after.run? id = some run) := by
  obtain ⟨apart, _, rows, _⟩ := DB.insertRun_ok inserted
  by_cases own : id = run.runID
  · subst own
    right
    refine ⟨rfl, ?_, by simp [rows]⟩
    cases found : db.run? run.runID with
    | none => rfl
    | some row =>
      obtain ⟨member, same⟩ := DB.run?_some found
      exact absurd same (apart row member).1
  · left
    simp [rows, own]

theorem Op.writes_run? {o : Op} (written : o.writes db = some after) (id : RunID) :
    after.run? id = db.run? id ∨ o.changesRun db after id := by
  have same (rows : after.runs = db.runs) : after.run? id = db.run? id := by rw [DB.run?, rows, ← DB.run?]
  cases o with
  | createDagRunBounded run global => exact DB.insertRun_run? (DB.createDagRunBounded_ok (ok_of_toOption written)).2.2 id
  | createManualDagRunBounded run perDAG global =>
    exact DB.insertRun_run? (DB.createManualDagRunBounded_ok (ok_of_toOption written)) id
  | updateDagRunState run state started finished =>
    obtain ⟨row, found, legal, rows, _⟩ := DB.updateDagRunState_ok (ok_of_toOption written)
    by_cases own : id = run
    · subst own
      exact .inr ⟨rfl, row, found, legal, by simp [rows]⟩
    · exact .inl (by simp [rows, own])
  | updateDagRunSuccess run started finished =>
    obtain ⟨row, found, rows, _⟩ := DB.updateDagRunSuccess_ok (ok_of_toOption written)
    by_cases own : id = run
    · subst own
      exact .inr ⟨rfl, row, found, by simp [rows]⟩
    · exact .inl (by simp [rows, own])
  | updateDagRunDefinition run yaml hash =>
    obtain ⟨row, found, rows, _⟩ := DB.updateDagRunDefinition_ok (ok_of_toOption written)
    by_cases own : id = run
    · subst own
      exact .inr ⟨rfl, row, found, by simp [rows]⟩
    · exact .inl (by simp [rows, own])
  | createTaskInstance ti => exact .inl (same (DB.createTaskInstance_ok (ok_of_toOption written)).2.2.1)
  | updateTaskInstance ti =>
    obtain ⟨_, rfl⟩ := DB.updateTaskInstance_ok (ok_of_toOption written)
    exact .inl rfl
  | publishEvent source key payload =>
    cases written
    left
    apply same
    unfold DB.publishEvent
    cases inserted : db.insertEvent source key payload with
    | none => rfl
    | some armed => exact (DB.insertEvent_some inserted).2.2.1
  | upsertDAG | softDeleteDAG | setDAGPaused | upsertPool | replaceDagDependencies =>
    exact .inl (same (Op.writes_definitions written rfl).1)
  | updateTaskInstanceGuarded | consumeEvent | setTaskOutput =>
    cases written
    exact .inl rfl
  | _ => cases written

/-- A run that is stored stays stored, under its DAG. -/
theorem Op.changesRun_persists {o : Op} {id : RunID} (changed : o.changesRun db after id) {row : DagRun}
    (found : db.run? id = some row) : ∃ row', after.run? id = some row' ∧ runKey row' = runKey row := by
  cases o with
  | createDagRunBounded | createManualDagRunBounded =>
    obtain ⟨_, free, _⟩ := changed
    cases found.symm.trans free
  | updateDagRunState run state started finished =>
    obtain ⟨_, old, stored, _, now⟩ := changed
    cases found.symm.trans stored
    exact ⟨_, now, rfl⟩
  | updateDagRunSuccess run started finished =>
    obtain ⟨_, old, stored, now⟩ := changed
    cases found.symm.trans stored
    exact ⟨_, now, rfl⟩
  | updateDagRunDefinition run yaml hash =>
    obtain ⟨_, old, stored, now⟩ := changed
    cases found.symm.trans stored
    exact ⟨_, now, rfl⟩
  | _ => exact changed.elim

/-- How a statement changes the row of a task instance. -/
def Op.changesInstance (db after : DB) (key : InstanceKey) : Op → Prop
  | .createTaskInstance ti => ti.key = key ∧ db.instance? key = none ∧ after.instance? key = some ti
  | .updateTaskInstance ti => ti.key = key ∧ (∃ row, db.instance? key = some row) ∧ after.instance? key = some ti
  | .updateTaskInstanceGuarded ti ref => ti.key = key ∧
    ∃ row, db.instance? key = some row ∧ DB.holdsAttempt ref row = true ∧ after.instance? key = some ti
  | _ => False

theorem Op.writes_instance? {o : Op} (written : o.writes db = some after) (key : InstanceKey) :
    after.instance? key = db.instance? key ∨ o.changesInstance db after key := by
  have same (rows : after.taskInstances = db.taskInstances) : after.instance? key = db.instance? key := by
    rw [DB.instance?, rows, ← DB.instance?]
  cases o with
  | createTaskInstance ti =>
    obtain ⟨free, rows, _⟩ := DB.createTaskInstance_ok (ok_of_toOption written)
    by_cases own : key = ti.key
    · subst own
      exact .inr ⟨rfl, free, by simp [rows]⟩
    · exact .inl (by simp [rows, own])
  | updateTaskInstance ti =>
    obtain ⟨⟨row, found⟩, rfl⟩ := DB.updateTaskInstance_ok (ok_of_toOption written)
    rw [DB.instance?_writeInstance]
    by_cases own : key = ti.key
    · subst own
      exact .inr ⟨rfl, ⟨row, found⟩, by simp [DB.instance?_writeInstance, found]⟩
    · exact .inl (by simp [own])
  | updateTaskInstanceGuarded ti ref =>
    cases written
    simp only [DB.updateTaskInstanceGuarded]
    rw [DB.instance?_writeInstance]
    by_cases own : key = ti.key
    · subst own
      cases found : db.instance? ti.key with
      | none => exact .inl (by simp)
      | some row =>
        by_cases holds : DB.holdsAttempt ref row = true
        · refine .inr ⟨rfl, row, found, holds, ?_⟩
          simp [DB.instance?_writeInstance, found, holds]
        · exact .inl (by simp [holds])
    · exact .inl (by simp [own])
  | _ => exact .inl (same (Op.writes_instances written rfl))

end Runs

section Rows

variable {tid : Nat} {o : Op} {a : Answer} {w v : World} {reply : o.Reply} {spawned : List Request}

theorem World.perform_run? (performed : World.perform tid o a w = some (reply, v, spawned)) (id : RunID) :
    v.db.run? id = w.db.run? id ∨ o.changesRun w.db v.db id := by
  rcases (World.perform_some performed).2.2.2 with same | written
  · exact .inl (by rw [same])
  · exact Op.writes_run? written id

theorem World.perform_dags (performed : World.perform tid o a w = some (reply, v, spawned)) (other : o.onDAGs = false) :
    v.db.dags = w.db.dags := by
  rcases (World.perform_some performed).2.2.2 with same | written
  · rw [same]
  · exact Op.writes_dags written other

theorem World.perform_instance? (performed : World.perform tid o a w = some (reply, v, spawned)) (key : InstanceKey) :
    v.db.instance? key = w.db.instance? key ∨ o.changesInstance w.db v.db key := by
  rcases (World.perform_some performed).2.2.2 with same | written
  · exact .inl (by rw [same])
  · exact Op.writes_instance? written key

theorem World.perform_persists (performed : World.perform tid o a w = some (reply, v, spawned)) {id : RunID} {row : DagRun}
    (found : w.db.run? id = some row) : ∃ row', v.db.run? id = some row' ∧ runKey row' = runKey row := by
  rcases World.perform_run? performed id with same | changed
  · exact ⟨row, same.trans found, rfl⟩
  · exact Op.changesRun_persists changed found

end Rows

end Cronova.Scheduler
