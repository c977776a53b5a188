import Cronova.Store.Tables

/-! What each statement does to the rows that can be looked up. Later modules cite these
lemmas and do not unfold the statements. -/

set_option autoImplicit false

namespace Cronova.Store.DB

open Model
open Calendar (Time)

variable {db after : DB}

/-! ### Statements on `dags`, `pools` and `dag_dependencies` -/

/-- The tables of runs, instances, events and outputs are untouched. -/
def SameRows (db after : DB) : Prop :=
  after.runs = db.runs ∧ after.taskInstances = db.taskInstances ∧ after.events = db.events ∧ after.outputs = db.outputs

theorem upsertDAG_rows (db : DB) (d : DAG) : SameRows db (db.upsertDAG d) := by
  unfold upsertDAG
  split <;> exact ⟨rfl, rfl, rfl, rfl⟩

theorem softDeleteDAG_rows {dag : DagID} (ok : db.softDeleteDAG dag = .ok after) : SameRows db after := by
  unfold softDeleteDAG at ok
  split at ok
  · cases ok
    exact ⟨rfl, rfl, rfl, rfl⟩
  · cases ok

theorem setDAGPaused_rows {dag : DagID} {paused : Bool} (ok : db.setDAGPaused dag paused = .ok after) :
    SameRows db after := by
  unfold setDAGPaused at ok
  split at ok
  · cases ok
    exact ⟨rfl, rfl, rfl, rfl⟩
  · cases ok

theorem upsertPool_rows {p : Pool} (ok : db.upsertPool p = .ok after) : SameRows db after := by
  unfold upsertPool at ok
  split at ok
  · cases ok
  · cases ok
    exact ⟨rfl, rfl, rfl, rfl⟩

/-! ### Lookup and membership -/

theorem RunKey.apart_symm (a b : RunKey) (apart : a.apart b) : b.apart a :=
  ⟨apart.1.symm, fun same => apart.2 ⟨same.1.symm, same.2.symm⟩⟩

theorem EventRow.apart_symm (a b : EventRow) (apart : a.apart b) : b.apart a :=
  ⟨apart.1.symm, fun same => apart.2 ⟨same.1.symm, same.2.symm⟩⟩

theorem run?_some {id : RunID} {r : DagRun} (found : db.run? id = some r) : r ∈ db.runs ∧ r.runID = id :=
  ⟨List.mem_of_find?_eq_some found, by simpa using List.find?_some found⟩

theorem run?_of_mem {r : DagRun} (member : r ∈ db.runs) : db.run? r.runID = some r := by
  cases found : db.run? r.runID with
  | none =>
    rw [run?, List.find?_eq_none] at found
    exact absurd (beq_self_eq_true r.runID) (found r member)
  | some s =>
    obtain ⟨listed, same⟩ := run?_some found
    have clash : ¬ RunKey.apart (runKey s) (runKey r) := fun apart => apart.1 same
    rw [Table.eq_of_clash RunKey.apart_symm listed member clash]

theorem runAt?_some {dag : DagID} {date : Time} {r : DagRun} (found : db.runAt? dag date = some r) :
    r ∈ db.runs ∧ r.dagID = dag ∧ r.logicalDate = date :=
  ⟨List.mem_of_find?_eq_some found, by simpa using List.find?_some found⟩

theorem runAt?_of_mem {r : DagRun} (member : r ∈ db.runs) : db.runAt? r.dagID r.logicalDate = some r := by
  cases found : db.runAt? r.dagID r.logicalDate with
  | none =>
    rw [runAt?, List.find?_eq_none] at found
    exact absurd (by simp) (found r member)
  | some s =>
    obtain ⟨listed, dag, date⟩ := runAt?_some found
    have clash : ¬ RunKey.apart (runKey s) (runKey r) := fun apart => apart.2 ⟨dag, date⟩
    rw [Table.eq_of_clash RunKey.apart_symm listed member clash]

theorem instance?_some {key : InstanceKey} {ti : TaskInstance} (found : db.instance? key = some ti) :
    ti ∈ db.taskInstances ∧ ti.key = key :=
  ⟨List.mem_of_find?_eq_some found, by simpa using List.find?_some found⟩

theorem instance?_of_mem {ti : TaskInstance} (member : ti ∈ db.taskInstances) : db.instance? ti.key = some ti := by
  cases found : db.instance? ti.key with
  | none =>
    rw [instance?, List.find?_eq_none] at found
    exact absurd (beq_self_eq_true ti.key) (found ti member)
  | some row =>
    obtain ⟨listed, same⟩ := instance?_some found
    have clash : ¬ InstanceKey.apart row.key ti.key := fun apart => apart same
    rw [Table.eq_of_clash (fun _ _ apart => Ne.symm apart) listed member clash]

theorem mem_listTaskInstances (run : RunID) (ti : TaskInstance) :
    ti ∈ db.listTaskInstances run ↔ db.instance? ti.key = some ti ∧ ti.runID = run := by
  simp only [listTaskInstances, List.mem_filter, beq_iff_eq]
  exact ⟨fun ⟨member, same⟩ => ⟨instance?_of_mem member, same⟩, fun ⟨found, same⟩ => ⟨(instance?_some found).1, same⟩⟩

theorem mem_listTaskInstancesByState {state : TaskState} {ti : TaskInstance} :
    ti ∈ db.listTaskInstancesByState state ↔ db.instance? ti.key = some ti ∧ ti.state = state := by
  simp only [listTaskInstancesByState, List.mem_insertionSort, List.mem_filter, beq_iff_eq]
  exact ⟨fun ⟨member, same⟩ => ⟨instance?_of_mem member, same⟩, fun ⟨found, same⟩ => ⟨(instance?_some found).1, same⟩⟩

/-- The rows of a listing are rows of different tasks. -/
theorem listTaskInstancesByState_keys (db : DB) (state : TaskState) :
    ((db.listTaskInstancesByState state).map TaskInstance.key).Nodup := by
  have sorted : (db.listTaskInstancesByState state).Perm (db.taskInstances.rows.filter (·.state == state)) :=
    List.perm_insertionSort _ _
  rw [(sorted.map _).nodup_iff]
  exact db.taskInstances.distinct.sublist ((List.filter_sublist).map _)

theorem mem_listDagRunsByState {state : RunState} {run : DagRun} :
    run ∈ db.listDagRunsByState state ↔ run ∈ db.runs ∧ run.state = state := by
  simp [listDagRunsByState, Table.mem_def]

theorem mem_listDagRunsByStateLimited {state : RunState} {limit : Int} {run : DagRun}
    (member : run ∈ db.listDagRunsByStateLimited state limit) : run ∈ db.runs ∧ run.state = state := by
  unfold listDagRunsByStateLimited at member
  apply mem_listDagRunsByState.mp
  split at member
  · exact member
  · exact List.mem_of_mem_take member

/-! ### Statements on `dag_runs` -/

theorem run?_updateRun (id : RunID) (guard : DagRun → Bool) (f : DagRun → DagRun) (same : ∀ r, runKey (f r) = runKey r)
    (x : RunID) : (db.updateRun id guard f same).run? x =
      if x = id then (db.run? id).map fun r => if guard r then f r else r else db.run? x := by
  have lookup := db.runs.find?_modify (fun r => r.runID == id && guard r) f same (·.run == x)
  change (db.updateRun id guard f same).run? x = (db.run? x).map _ at lookup
  rw [lookup]
  cases found : db.run? x with
  | none =>
    split
    · rename_i eq; subst eq; simp [found]
    · rfl
  | some r =>
    obtain rfl := (run?_some found).2
    split
    · rename_i eq; subst eq; simp [found]
    · rename_i other; simp [other]

/-- A successful run-state write found the run in a legal prior state and changed that run only. -/
theorem updateDagRunState_ok {id : RunID} {state : RunState} {started finished : Option Time}
    (ok : db.updateDagRunState id state started finished = .ok after) :
    ∃ r, db.run? id = some r ∧ r.state ∈ legalPriorRunStates state ∧
      (∀ x, after.run? x = if x = id then some (setRunState state started finished r) else db.run? x) ∧
      after.taskInstances = db.taskInstances ∧ after.events = db.events ∧ after.nextEvent = db.nextEvent ∧
      after.dags = db.dags ∧ after.dependencies = db.dependencies := by
  unfold updateDagRunState at ok
  simp only at ok
  split at ok
  · cases ok
  · split at ok
    · cases ok
    · rename_i r found
      split at ok
      · rename_i legal
        cases ok
        refine ⟨r, found, legal, fun x => ?_, rfl, rfl, rfl, rfl, rfl⟩
        rw [run?_updateRun]
        split
        · simp [found, legal]
        · rfl
      · cases ok

theorem insertRun_ok {r : DagRun} (ok : db.insertRun r = .ok after) :
    (∀ x ∈ db.runs, RunKey.apart (runKey x) (runKey r)) ∧ after.runs.rows = db.runs.rows ++ [r] ∧
      (∀ x, after.run? x = if x = r.runID then some r else db.run? x) ∧
      after.taskInstances = db.taskInstances ∧ after.events = db.events ∧ after.nextEvent = db.nextEvent ∧
      after.dags = db.dags ∧ after.dependencies = db.dependencies := by
  unfold insertRun at ok
  split at ok
  · rename_i runs inserted
    cases ok
    obtain ⟨rows, fresh⟩ := Table.insert?_some inserted
    refine ⟨fresh, rows, fun x => ?_, rfl, rfl, rfl, rfl, rfl⟩
    have lookup := Table.find?_insert? inserted (·.run == x)
    change DB.run? { db with runs } x = (db.run? x).or _ at lookup
    rw [lookup]
    by_cases same : x = r.runID
    · subst same
      have absent : db.run? r.runID = none := by
        cases found : db.run? r.runID with
        | none => rfl
        | some y => exact absurd (run?_some found).2 (fresh y (run?_some found).1).1
      simp [absent, runKey]
    · have other : ((runKey r).run == x) = false := by simpa [runKey] using Ne.symm same
      simp [other, same]
  · cases ok

theorem createDagRunBounded_ok {r : DagRun} {global : Int} (ok : db.createDagRunBounded r global = .ok after) :
    db.dagActive r.dagID = true ∧ db.queuedCount < global ∧ db.insertRun r = .ok after := by
  unfold createDagRunBounded at ok
  split at ok
  · rename_i guard
    simp only [Bool.and_eq_true, decide_eq_true_eq] at guard
    exact ⟨guard.1, guard.2, ok⟩
  · cases ok

/-- Only a clash with a stored run is refused as already existing. -/
theorem createDagRunBounded_exists {r : DagRun} {global : Int} (refused : db.createDagRunBounded r global = .error .alreadyExists) :
    ∃ x ∈ db.runs, ¬ RunKey.apart (runKey x) (runKey r) := by
  unfold createDagRunBounded at refused
  split at refused
  · unfold insertRun at refused
    split at refused
    · cases refused
    · rename_i clash
      exact Table.insert?_none clash
  · unfold refusal at refused
    split at refused
    · cases refused
    · cases refused

theorem createManualDagRunBounded_ok {r : DagRun} {perDAG global : Int}
    (ok : db.createManualDagRunBounded r perDAG global = .ok after) : db.insertRun r = .ok after := by
  unfold createManualDagRunBounded at ok
  split at ok
  · exact ok
  · cases ok

theorem createManualDagRunBounded_active {r : DagRun} {perDAG global : Int}
    (ok : db.createManualDagRunBounded r perDAG global = .ok after) : db.dagActive r.dagID = true := by
  unfold createManualDagRunBounded at ok
  split at ok
  · rename_i guard
    simp only [Bool.and_eq_true] at guard
    exact guard.1.1
  · cases ok

theorem updateDagRunDefinition_ok {id : RunID} {yaml hash : String}
    (ok : db.updateDagRunDefinition id yaml hash = .ok after) :
    ∃ r, db.run? id = some r ∧
      (∀ x, after.run? x = if x = id then some (setDefinition yaml hash r) else db.run? x) ∧
      after.taskInstances = db.taskInstances ∧ after.events = db.events ∧ after.nextEvent = db.nextEvent ∧
      after.dags = db.dags ∧ after.dependencies = db.dependencies := by
  unfold updateDagRunDefinition at ok
  split at ok
  · cases ok
  · rename_i r found
    cases ok
    refine ⟨r, found, fun x => ?_, rfl, rfl, rfl, rfl, rfl⟩
    rw [run?_updateRun]
    split
    · simp [found]
    · rfl

/-- The rows among which `LatestScheduledRun` looks. -/
def scheduledRuns (db : DB) (dag : DagID) : List DagRun :=
  db.runs.rows.filter fun r => r.dagID == dag && r.triggerType == .schedule

theorem mem_scheduledRuns {dag : DagID} {r : DagRun} :
    r ∈ db.scheduledRuns dag ↔ r ∈ db.runs ∧ r.dagID = dag ∧ r.triggerType = .schedule := by
  simp [scheduledRuns, Table.mem_def]

theorem latestScheduledRun_eq (db : DB) (dag : DagID) : db.latestScheduledRun dag =
    (((db.scheduledRuns dag).insertionSort fun a b => dateOrder b a).head?).elim (.error .notFound) .ok := rfl

theorem latestScheduledRun_ok {dag : DagID} {r : DagRun} (found : db.latestScheduledRun dag = .ok r) :
    r ∈ db.scheduledRuns dag := by
  rw [latestScheduledRun_eq] at found
  cases first : ((db.scheduledRuns dag).insertionSort fun a b => dateOrder b a).head? with
  | none =>
    rw [first] at found
    cases found
  | some x =>
    rw [first] at found
    cases found
    exact (List.mem_insertionSort _).mp (List.mem_of_mem_head? first)

/-- A scheduled run is the latest once its date sorts, as text, after every other one's. -/
theorem latestScheduledRun_append {dag : DagID} {r : DagRun} (rows : after.scheduledRuns dag = db.scheduledRuns dag ++ [r]) :
    after.latestScheduledRun dag =
      if ∀ x ∈ db.scheduledRuns dag, fmtTime x.logicalDate < fmtTime r.logicalDate then .ok r
      else db.latestScheduledRun dag := by
  rw [latestScheduledRun_eq, latestScheduledRun_eq, rows,
    head?_insertionSort_append (fun x : DagRun => fmtTime x.logicalDate) (fun a b => dateOrder b a) (fun _ _ => Iff.rfl)]
  split <;> rfl

/-! ### Statements on `events` -/

/-- A dependency event of the run waits to be delivered. -/
def Pending (db : DB) (source : EventSource) (key : EventKey) : Prop :=
  ∃ e ∈ db.events, e.source = source ∧ e.key = key ∧ e.consumed = false

theorem insertEvent_some {source : EventSource} {key : EventKey} {payload : String}
    (inserted : db.insertEvent source key payload = some after) :
    (∀ e, e ∈ after.events ↔ e ∈ db.events ∨ e = { id := db.nextEvent, source, key, payload }) ∧
      (∀ e ∈ db.events, ¬ (e.source = source ∧ e.key = key)) ∧
      after.runs = db.runs ∧ after.taskInstances = db.taskInstances ∧
      after.dags = db.dags ∧ after.dependencies = db.dependencies := by
  unfold insertEvent at inserted
  simp only at inserted
  split at inserted
  · cases inserted
  · rename_i events found
    cases inserted
    refine ⟨fun e => Table.mem_insert? found e, fun e member => ?_, rfl, rfl, rfl, rfl⟩
    exact ((Table.insert?_some found).2 e member).2

theorem insertEvent_none {source : EventSource} {key : EventKey} {payload : String}
    (refused : db.insertEvent source key payload = none) : ∃ e ∈ db.events, e.source = source ∧ e.key = key := by
  unfold insertEvent at refused
  simp only at refused
  split at refused
  · rename_i clash
    obtain ⟨e, member, clash⟩ := Table.insert?_none clash
    refine ⟨e, member, ?_⟩
    -- the id is fresh, so only the second constraint can be violated
    have fresh : e.id ≠ db.nextEvent := Nat.ne_of_lt (db.issued e member)
    by_contra differ
    exact clash ⟨fresh, differ⟩
  · cases refused

theorem mem_setConsumed (selects : Event → Bool) (consumed : Bool) (e : Event) :
    e ∈ (db.setConsumed selects consumed).events ↔
      (e ∈ db.events ∧ selects e = false) ∨ ∃ x ∈ db.events, selects x = true ∧ { x with consumed } = e :=
  Table.mem_modify_iff _ _ _ (eventRow_consumed consumed) e

theorem pending_consumeEvent (id : EventID) (source : EventSource) (key : EventKey) :
    (db.consumeEvent id).Pending source key ↔
      ∃ e ∈ db.events, e.source = source ∧ e.key = key ∧ e.consumed = false ∧ e.id ≠ id := by
  simp only [Pending, consumeEvent, mem_setConsumed]
  constructor
  · rintro ⟨e, ⟨member, other⟩ | ⟨x, _, _, rfl⟩, rfl, rfl, fresh⟩
    · exact ⟨e, member, rfl, rfl, fresh, by simpa using other⟩
    · cases fresh
  · rintro ⟨e, member, rfl, rfl, fresh, other⟩
    exact ⟨e, .inl ⟨member, by simpa using other⟩, rfl, rfl, fresh⟩

theorem pending_armEvent (source : EventSource) (key : EventKey) (source' : EventSource) (key' : EventKey) :
    (db.armEvent source key).Pending source' key' ↔ (source' = source ∧ key' = key) ∨ db.Pending source' key' := by
  unfold armEvent
  cases inserted : db.insertEvent source key "" with
  | some armed =>
    obtain ⟨events, _⟩ := insertEvent_some inserted
    simp only [Option.getD_some, Pending, events]
    constructor
    · rintro ⟨e, old | rfl, rfl, rfl, fresh⟩
      · exact .inr ⟨e, old, rfl, rfl, fresh⟩
      · exact .inl ⟨rfl, rfl⟩
    · rintro (⟨rfl, rfl⟩ | ⟨e, old, rfl, rfl, fresh⟩)
      · exact ⟨_, .inr rfl, rfl, rfl, rfl⟩
      · exact ⟨e, .inl old, rfl, rfl, fresh⟩
  | none =>
    obtain ⟨known, member, rfl, rfl⟩ := insertEvent_none inserted
    simp only [Option.getD_none, Pending, mem_setConsumed]
    constructor
    · rintro ⟨e, ⟨old, _⟩ | ⟨x, _, chosen, rfl⟩, rfl, rfl, fresh⟩
      · exact .inr ⟨e, old, rfl, rfl, fresh⟩
      · exact .inl (by simpa using chosen)
    · rintro (⟨rfl, rfl⟩ | ⟨e, old, rfl, rfl, fresh⟩)
      · exact ⟨{ known with consumed := false }, .inr ⟨known, member, by simp, rfl⟩, rfl, rfl, rfl⟩
      · by_cases same : e.source = known.source ∧ e.key = known.key
        · exact ⟨{ e with consumed := false }, .inr ⟨e, old, by simpa using same, rfl⟩, rfl, rfl, rfl⟩
        · exact ⟨e, .inl ⟨old, by simpa using same⟩, rfl, rfl, fresh⟩

theorem armEvent_frame (db : DB) (source : EventSource) (key : EventKey) :
    (db.armEvent source key).runs = db.runs ∧ (db.armEvent source key).taskInstances = db.taskInstances ∧
      (db.armEvent source key).dags = db.dags ∧ (db.armEvent source key).dependencies = db.dependencies := by
  unfold armEvent
  cases inserted : db.insertEvent source key "" with
  | some armed =>
    obtain ⟨_, _, frame⟩ := insertEvent_some inserted
    exact frame
  | none => exact ⟨rfl, rfl, rfl, rfl⟩

/-- An event is the same row for ever: ids and keys of the rows there are never change. -/
theorem armEvent_row (source : EventSource) (key : EventKey) {e : Event} (member : e ∈ db.events) :
    ∃ e' ∈ (db.armEvent source key).events, eventRow e' = eventRow e := by
  unfold armEvent
  cases inserted : db.insertEvent source key "" with
  | some armed => exact ⟨e, ((insertEvent_some inserted).1 e).mpr (.inl member), rfl⟩
  | none =>
    simp only [Option.getD_none, mem_setConsumed]
    cases chosen : e.source == source && e.key == key with
    | false => exact ⟨e, .inl ⟨member, chosen⟩, rfl⟩
    | true => exact ⟨{ e with consumed := false }, .inr ⟨e, member, chosen, rfl⟩, rfl⟩

/-- The success write finds the run in any state at all. -/
theorem updateDagRunSuccess_ok {id : RunID} {started finished : Option Time}
    (ok : db.updateDagRunSuccess id started finished = .ok after) :
    ∃ r, db.run? id = some r ∧
      (∀ x, after.run? x = if x = id then some (setRunState .success started finished r) else db.run? x) ∧
      after.taskInstances = db.taskInstances ∧
      (∀ source key, after.Pending source key ↔ (source = .dependency ∧ key = .run id) ∨ db.Pending source key) ∧
      after.dags = db.dags ∧ after.dependencies = db.dependencies := by
  unfold updateDagRunSuccess at ok
  split at ok
  · cases ok
  · rename_i r found
    cases ok
    obtain ⟨runs, instances, dags, dependencies⟩ :=
      armEvent_frame (db.updateRun id (fun _ => true) (setRunState .success started finished)
        (runKey_setRunState _ _ _)) .dependency (.run id)
    refine ⟨r, found, fun x => ?_, instances, fun source key => ?_, dags, dependencies⟩
    · rw [run?, runs, ← run?, run?_updateRun]
      split
      · simp [found]
      · rfl
    · exact pending_armEvent _ _ _ _

/-! ### Statements on `task_instances` -/

theorem rewrite_eq {ti row : TaskInstance} (same : row.key = ti.key) : rewrite ti row = ti := by
  simp only [TaskInstance.key, InstanceKey.mk.injEq] at same
  simp [rewrite, same]

theorem instance?_writeInstance (ti : TaskInstance) (guard : TaskInstance → Bool) (key : InstanceKey) :
    (db.writeInstance ti guard).instance? key =
      if key = ti.key then (db.instance? key).map fun row => if guard row then ti else row
      else db.instance? key := by
  have lookup := db.taskInstances.find?_modify (fun row => row.key == ti.key && guard row) (rewrite ti)
    (key_rewrite ti) (· == key)
  change (db.writeInstance ti guard).instance? key = (db.instance? key).map _ at lookup
  rw [lookup]
  cases found : db.instance? key with
  | none => simp
  | some row =>
    obtain rfl := (instance?_some found).2
    split
    · rename_i same
      simp [same, rewrite_eq same]
    · rename_i other
      simp [other]

theorem instance?_writeInstance_own {ti : TaskInstance} {key : InstanceKey} (own : ti.key = key) (guard : TaskInstance → Bool) :
    (db.writeInstance ti guard).instance? key = (db.instance? key).map fun row => if guard row then ti else row := by
  rw [instance?_writeInstance, if_pos own.symm]

theorem updateTaskInstance_ok {ti : TaskInstance} (ok : db.updateTaskInstance ti = .ok after) :
    (∃ row, db.instance? ti.key = some row) ∧ after = db.writeInstance ti fun _ => true := by
  unfold updateTaskInstance at ok
  split at ok
  · cases ok
  · rename_i row found
    cases ok
    exact ⟨⟨row, found⟩, rfl⟩

theorem createTaskInstance_ok {ti : TaskInstance} (ok : db.createTaskInstance ti = .ok after) :
    db.instance? ti.key = none ∧
      (∀ key, after.instance? key = if key = ti.key then some ti else db.instance? key) ∧
      after.runs = db.runs ∧ after.events = db.events ∧ after.nextEvent = db.nextEvent ∧
      after.dags = db.dags ∧ after.dependencies = db.dependencies := by
  unfold createTaskInstance at ok
  split at ok
  · cases ok
  · split at ok
    · rename_i taskInstances inserted
      cases ok
      obtain ⟨rows, fresh⟩ := Table.insert?_some inserted
      have absent : db.instance? ti.key = none := by
        cases found : db.instance? ti.key with
        | none => rfl
        | some row => exact absurd (instance?_some found).2 (fresh row (instance?_some found).1)
      refine ⟨absent, fun key => ?_, rfl, rfl, rfl, rfl, rfl⟩
      have lookup := Table.find?_insert? inserted (· == key)
      change DB.instance? { db with taskInstances } key = (db.instance? key).or _ at lookup
      rw [lookup]
      by_cases same : key = ti.key
      · subst same; simp [absent]
      · have other : (ti.key == key) = false := by simpa using Ne.symm same
        simp [other, same]
    · cases ok

theorem createTaskInstance_exists {ti : TaskInstance} (refused : db.createTaskInstance ti = .error .alreadyExists) :
    (db.instance? ti.key).isSome := by
  unfold createTaskInstance at refused
  split at refused
  · cases refused
  · split at refused
    · cases refused
    · rename_i clash
      obtain ⟨row, stored, same⟩ := Table.insert?_none clash
      have key : row.key = ti.key := not_not.mp same
      rw [← key, instance?_of_mem stored]
      rfl

end Cronova.Store.DB
