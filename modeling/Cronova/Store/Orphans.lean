import Cronova.Store.Prune

/-! Rows that hang off a run: `task_instances`, which the schema ties to `dag_runs`, and
`task_outputs`, which it does not.

Both stores issue the same statements here; only `PruneRuns` deletes runs.
-/

set_option autoImplicit false

namespace Cronova.Store

open Model
open Calendar (Time)

/-- The insert without a queue bound. -/
def DB.createDagRun (db : DB) (r : DagRun) : Except StoreError DB :=
  if db.dagActive r.dagID then db.insertRun r else .error .notFound

/-- The store operations that write definitions, runs, task instances, outputs or events. -/
inductive Operation where
  | upsertDAG (d : DAG)
  | softDeleteDAG (dag : DagID)
  | createDagRun (r : DagRun)
  | createDagRunBounded (r : DagRun) (global : Int)
  | createManualDagRunBounded (r : DagRun) (perDAG global : Int)
  | updateDagRunState (run : RunID) (state : RunState) (started finished : Option Time)
  | updateDagRunSuccess (run : RunID) (started finished : Option Time)
  | updateDagRunDefinition (run : RunID) (yaml hash : String)
  | createTaskInstance (ti : TaskInstance)
  | updateTaskInstance (ti : TaskInstance)
  | updateTaskInstanceGuarded (ti : TaskInstance) (expectRef : ExecutorRef)
  | setTaskOutput (key : InstanceKey) (output : String)
  | publishEvent (source : EventSource) (key : EventKey) (payload : String)
  | consumeEvent (id : EventID)
  | pruneRuns (cutoff : Time)

namespace Operation

/-- The store after an operation; a refused one leaves it alone. -/
def apply (db : DB) : Operation → DB
  | upsertDAG d => db.upsertDAG d
  | softDeleteDAG dag => (db.softDeleteDAG dag).toOption.getD db
  | createDagRun r => (db.createDagRun r).toOption.getD db
  | createDagRunBounded r global => (db.createDagRunBounded r global).toOption.getD db
  | createManualDagRunBounded r perDAG global => (db.createManualDagRunBounded r perDAG global).toOption.getD db
  | updateDagRunState run state started finished => (db.updateDagRunState run state started finished).toOption.getD db
  | updateDagRunSuccess run started finished => (db.updateDagRunSuccess run started finished).toOption.getD db
  | updateDagRunDefinition run yaml hash => (db.updateDagRunDefinition run yaml hash).toOption.getD db
  | createTaskInstance ti => (db.createTaskInstance ti).toOption.getD db
  | updateTaskInstance ti => (db.updateTaskInstance ti).toOption.getD db
  | updateTaskInstanceGuarded ti expectRef => (db.updateTaskInstanceGuarded ti expectRef).2
  | setTaskOutput key output => db.setTaskOutput key output
  | publishEvent source key payload => (db.publishEvent source key payload).2
  | consumeEvent id => db.consumeEvent id
  | pruneRuns cutoff => (db.pruneRuns cutoff).2

/-- Outputs are set for runs that exist. -/
def Admissible (db : DB) : Operation → Prop
  | setTaskOutput key _ => (db.run? key.run).isSome
  | _ => True

/-- A prune takes away no run with a stored output. -/
def SparesOutputs (db : DB) : Operation → Prop
  | pruneRuns cutoff => ∀ key, key.run ∈ db.prunedIDs cutoff → db.outputs key = none
  | _ => True

end Operation

/-- Every task instance and every output belongs to a stored run. -/
def DB.NoOrphans (db : DB) : Prop :=
  (∀ ti ∈ db.taskInstances, (db.run? ti.runID).isSome) ∧
  ∀ key, (db.outputs key).isSome → (db.run? key.run).isSome

/-! ### Operations that lose no run -/

/-- Runs and outputs stay, and a task instance belongs to a run that one belonged to before. -/
structure DB.Keeps (db after : DB) : Prop where
  runs : ∀ id, (db.run? id).isSome → (after.run? id).isSome
  instances : ∀ ti ∈ after.taskInstances, ∃ old ∈ db.taskInstances, old.runID = ti.runID
  outputs : after.outputs = db.outputs

namespace DB

variable {db after : DB}

theorem Keeps.noOrphans (keeps : db.Keeps after) (sound : db.NoOrphans) : after.NoOrphans := by
  constructor
  · intro ti member
    obtain ⟨old, stored, same⟩ := keeps.instances ti member
    exact keeps.runs _ (same ▸ sound.1 old stored)
  · intro key stored
    rw [keeps.outputs] at stored
    exact keeps.runs _ (sound.2 key stored)

theorem Keeps.refl (db : DB) : db.Keeps db := ⟨fun _ stored => stored, fun ti member => ⟨ti, member, rfl⟩, rfl⟩

/-- A statement that leaves the task instances alone and loses no run. -/
theorem Keeps.of_runs (runs : ∀ id, (db.run? id).isSome → (after.run? id).isSome)
    (instances : after.taskInstances = db.taskInstances) (outputs : after.outputs = db.outputs) : db.Keeps after :=
  ⟨runs, fun ti member => ⟨ti, instances ▸ member, rfl⟩, outputs⟩

theorem Keeps.of_rows (same : SameRows db after) : db.Keeps after := by
  obtain ⟨runs, instances, _, outputs⟩ := same
  refine .of_runs (fun id stored => ?_) instances outputs
  rwa [run?, runs]

/-- A refused statement changes nothing. -/
theorem Keeps.of_result {result : Except StoreError DB} (ok : ∀ after, result = .ok after → db.Keeps after) :
    db.Keeps (result.toOption.getD db) := by
  cases result with
  | ok after => exact ok after rfl
  | error e => exact .refl db

theorem Keeps.insertRun {r : DagRun} (ok : db.insertRun r = .ok after) : db.Keeps after := by
  obtain ⟨_, _, runs, instances, _⟩ := insertRun_ok ok
  refine .of_runs (fun id stored => ?_) instances ?_
  · rw [runs]
    split
    · rfl
    · exact stored
  · unfold DB.insertRun at ok
    split at ok <;> cases ok
    rfl

theorem Keeps.updateRun (id : RunID) (guard : DagRun → Bool) (f : DagRun → DagRun) (same : ∀ r, runKey (f r) = runKey r) :
    db.Keeps (db.updateRun id guard f same) := by
  refine .of_runs (fun x stored => ?_) rfl rfl
  rw [run?_updateRun]
  split
  · rename_i own
    rw [own] at stored
    simpa using stored
  · exact stored

theorem Keeps.armEvent (db : DB) (source : EventSource) (key : EventKey) : db.Keeps (db.armEvent source key) := by
  obtain ⟨runs, instances, _⟩ := armEvent_frame db source key
  refine .of_runs (fun id stored => ?_) instances ?_
  · rwa [run?, runs]
  · unfold DB.armEvent
    cases inserted : db.insertEvent source key "" with
    | none => rfl
    | some armed =>
      unfold insertEvent at inserted
      simp only at inserted
      split at inserted <;> cases inserted
      rfl

theorem Keeps.trans {mid : DB} (first : db.Keeps mid) (second : mid.Keeps after) : db.Keeps after := by
  refine ⟨fun id stored => second.runs id (first.runs id stored), fun ti member => ?_,
    second.outputs.trans first.outputs⟩
  obtain ⟨old, stored, same⟩ := second.instances ti member
  obtain ⟨older, stored', same'⟩ := first.instances old stored
  exact ⟨older, stored', same'.trans same⟩

theorem Keeps.writeInstance (db : DB) (ti : TaskInstance) (guard : TaskInstance → Bool) :
    db.Keeps (db.writeInstance ti guard) := by
  refine ⟨fun _ stored => stored, fun row member => ?_, rfl⟩
  rcases (Table.mem_modify_iff _ _ _ (key_rewrite ti) row).mp member with ⟨old, _⟩ | ⟨old, stored, _, rfl⟩
  · exact ⟨row, old, rfl⟩
  · exact ⟨old, stored, rfl⟩

theorem NoOrphans.createTaskInstance {ti : TaskInstance} (ok : db.createTaskInstance ti = .ok after)
    (sound : db.NoOrphans) : after.NoOrphans := by
  unfold DB.createTaskInstance at ok
  split at ok
  · cases ok
  · rename_i known
    split at ok
    · rename_i instances inserted
      cases ok
      refine ⟨fun row member => ?_, sound.2⟩
      rcases (Table.mem_insert? inserted row).mp member with old | rfl
      · exact sound.1 row old
      · exact Option.isSome_iff_ne_none.mpr fun none => known (Option.isNone_iff_eq_none.mpr none)
    · cases ok

theorem NoOrphans.setTaskOutput {key : InstanceKey} (output : String) (known : (db.run? key.run).isSome)
    (sound : db.NoOrphans) : (db.setTaskOutput key output).NoOrphans := by
  refine ⟨sound.1, fun other stored => ?_⟩
  by_cases own : other = key
  · rw [own]
    exact known
  · have same : (db.setTaskOutput key output).outputs other = db.outputs other := Function.update_of_ne own _ _
    rw [same] at stored
    exact sound.2 other stored

/-- The run of a key after a prune. -/
theorem run?_pruneRuns {cutoff : Time} {id : RunID} (known : (db.run? id).isSome) :
    ((db.pruneRuns cutoff).2.run? id).isSome ↔ id ∉ db.prunedIDs cutoff := by
  obtain ⟨r, found⟩ := Option.isSome_iff_exists.mp known
  obtain ⟨stored, rfl⟩ := run?_some found
  constructor
  · intro kept
    obtain ⟨x, found'⟩ := Option.isSome_iff_exists.mp kept
    obtain ⟨stays, same⟩ := run?_some found'
    rw [← same]
    exact not_mem_prunedIDs stays
  · intro apart
    have stays : r ∈ (db.pruneRuns cutoff).2.runs := by
      refine mem_pruneRuns.mpr ⟨stored, ?_⟩
      rw [← contains_prunedIDs stored]
      simpa using apart
    rw [run?_of_mem stays]
    rfl

/-- Task instances go with their runs; outputs stay behind. -/
theorem noOrphans_pruneRuns (sound : db.NoOrphans) (cutoff : Time) :
    (db.pruneRuns cutoff).2.NoOrphans ↔ ∀ key, key.run ∈ db.prunedIDs cutoff → db.outputs key = none := by
  have outputs : (db.pruneRuns cutoff).2.outputs = db.outputs := by rw [pruneRuns_eq]; rfl
  constructor
  · intro kept key gone
    by_contra stored
    have stored' : (db.outputs key).isSome := Option.isSome_iff_ne_none.mpr stored
    exact (run?_pruneRuns (sound.2 key stored')).mp (kept.2 key (outputs ▸ stored')) gone
  · intro spared
    constructor
    · intro ti member
      obtain ⟨stored, apart⟩ := mem_pruneRuns_instances.mp member
      exact (run?_pruneRuns (sound.1 ti stored)).mpr apart
    · intro key stored
      rw [outputs] at stored
      refine (run?_pruneRuns (sound.2 key stored)).mpr fun gone => ?_
      rw [spared key gone] at stored
      cases stored

end DB

namespace Operation

variable {db : DB}

/-- Every operation but the three that concern dependent rows keeps runs and outputs. -/
theorem keeps_or (db : DB) (o : Operation) : o.SparesOutputs db ∧ db.Keeps (o.apply db) ∨
    (∃ ti, o = createTaskInstance ti) ∨ (∃ key output, o = setTaskOutput key output) ∨ ∃ cutoff, o = pruneRuns cutoff := by
  cases o with
  | createTaskInstance ti => exact .inr (.inl ⟨ti, rfl⟩)
  | setTaskOutput key output => exact .inr (.inr (.inl ⟨key, output, rfl⟩))
  | pruneRuns cutoff => exact .inr (.inr (.inr ⟨cutoff, rfl⟩))
  | upsertDAG d => exact .inl ⟨trivial, .of_rows (DB.upsertDAG_rows db d)⟩
  | softDeleteDAG dag => exact .inl ⟨trivial, .of_result fun _ ok => .of_rows (DB.softDeleteDAG_rows ok)⟩
  | createDagRun r =>
    refine .inl ⟨trivial, .of_result fun after ok => ?_⟩
    unfold DB.createDagRun at ok
    split at ok
    · exact .insertRun ok
    · cases ok
  | createDagRunBounded r global => exact .inl ⟨trivial, .of_result fun _ ok => .insertRun (DB.createDagRunBounded_ok ok).2.2⟩
  | createManualDagRunBounded r perDAG global =>
    exact .inl ⟨trivial, .of_result fun _ ok => .insertRun (DB.createManualDagRunBounded_ok ok)⟩
  | updateDagRunState run state started finished =>
    refine .inl ⟨trivial, .of_result fun after ok => ?_⟩
    unfold DB.updateDagRunState at ok
    simp only at ok
    split at ok
    · cases ok
    · split at ok
      · cases ok
      · split at ok
        · cases ok
          exact .updateRun _ _ _ _
        · cases ok
  | updateDagRunSuccess run started finished =>
    refine .inl ⟨trivial, .of_result fun after ok => ?_⟩
    unfold DB.updateDagRunSuccess at ok
    split at ok
    · cases ok
    · cases ok
      exact (DB.Keeps.updateRun _ _ _ _).trans (.armEvent _ _ _)
  | updateDagRunDefinition run yaml hash =>
    refine .inl ⟨trivial, .of_result fun after ok => ?_⟩
    unfold DB.updateDagRunDefinition at ok
    split at ok
    · cases ok
    · cases ok
      exact .updateRun _ _ _ _
  | updateTaskInstance ti =>
    refine .inl ⟨trivial, .of_result fun after ok => ?_⟩
    rw [(DB.updateTaskInstance_ok ok).2]
    exact .writeInstance db ti _
  | updateTaskInstanceGuarded ti expectRef => exact .inl ⟨trivial, .writeInstance db ti _⟩
  | publishEvent source key payload =>
    refine .inl ⟨trivial, ?_⟩
    show db.Keeps (db.publishEvent source key payload).2
    unfold DB.publishEvent
    cases inserted : db.insertEvent source key payload with
    | none => exact .refl db
    | some after =>
      unfold DB.insertEvent at inserted
      simp only at inserted
      split at inserted <;> cases inserted
      exact .of_runs (fun _ stored => stored) rfl rfl
  | consumeEvent id => exact .inl ⟨trivial, .of_runs (fun _ stored => stored) rfl rfl⟩

theorem noOrphans_apply (sound : db.NoOrphans) (o : Operation) (admissible : o.Admissible db) :
    (o.apply db).NoOrphans ↔ o.SparesOutputs db := by
  rcases keeps_or db o with ⟨spares, keeps⟩ | ⟨ti, rfl⟩ | ⟨key, output, rfl⟩ | ⟨cutoff, rfl⟩
  · exact iff_of_true (keeps.noOrphans sound) spares
  · refine iff_of_true ?_ trivial
    show ((db.createTaskInstance ti).toOption.getD db).NoOrphans
    cases created : db.createTaskInstance ti with
    | ok after => exact sound.createTaskInstance created
    | error e => exact sound
  · exact iff_of_true (sound.setTaskOutput output admissible) trivial
  · exact DB.noOrphans_pruneRuns sound cutoff

/-- What is asked of each operation where it is applied. -/
def AtEach (demand : Operation → DB → Prop) : DB → List Operation → Prop
  | _, [] => True
  | db, o :: rest => demand o db ∧ AtEach demand (o.apply db) rest

def applyAll (db : DB) (ops : List Operation) : DB := ops.foldl apply db

theorem noOrphans_applyAll (sound : db.NoOrphans) (ops : List Operation)
    (admissible : AtEach (fun o db => o.Admissible db) db ops) :
    (∀ before, before <+: ops → (applyAll db before).NoOrphans) ↔ AtEach (fun o db => o.SparesOutputs db) db ops := by
  induction ops generalizing db with
  | nil =>
    refine iff_of_true (fun before empty => ?_) trivial
    rwa [List.prefix_nil.mp empty]
  | cons o rest ih =>
    obtain ⟨here, later⟩ := admissible
    have step := noOrphans_apply sound o here
    have tail (spares : o.SparesOutputs db) := ih (step.mpr spares) later
    constructor
    · intro reached
      have spares := step.mp (reached [o] (by simp))
      refine ⟨spares, (tail spares).mp fun before earlier => ?_⟩
      exact reached (o :: before) (List.prefix_cons_inj o |>.mpr earlier)
    · rintro ⟨spares, onward⟩ before earlier
      rcases List.prefix_cons_iff.mp earlier with rfl | ⟨more, rfl, prefix_⟩
      · exact sound
      · exact (tail spares).mpr onward more prefix_

theorem noOrphans_empty : DB.empty.NoOrphans :=
  ⟨fun _ member => absurd member List.not_mem_nil, fun _ stored => by cases stored⟩

/-- No operation leaves dependent rows behind, for as long as each prune spares the runs with
a stored output. -/
theorem no_dangling_rows (ops : List Operation) (admissible : AtEach (fun o db => o.Admissible db) .empty ops) :
    (∀ before, before <+: ops → (applyAll .empty before).NoOrphans) ↔
      AtEach (fun o db => o.SparesOutputs db) .empty ops :=
  noOrphans_applyAll noOrphans_empty ops admissible

end Operation

/-! A run with an output, pruned. -/

def etl : DAG := { dagID := "etl" }

def extract : DagRun := { runID := .manual "etl" 0, dagID := "etl", logicalDate := 0, triggerType := .manual }

def extracted : InstanceKey := ⟨.manual "etl" 0, "extract"⟩

/-- The run is created, its task emits an output, it succeeds and the store is pruned. -/
def prunedETL (cutoff : Time) : List Operation :=
  [.upsertDAG etl, .createDagRun extract, .createTaskInstance { runID := extracted.run, taskID := extracted.task },
    .setTaskOutput extracted "rows", .updateDagRunSuccess extract.runID (some 0) (some 0), .pruneRuns cutoff]

theorem admissible_prunedETL (cutoff : Time) : Operation.AtEach (fun o db => o.Admissible db) .empty (prunedETL cutoff) :=
  ⟨trivial, trivial, trivial, rfl, trivial, trivial, trivial⟩

/-- A prune that finds the run too young leaves the output with its run. -/
theorem young_output_has_run : (Operation.applyAll .empty (prunedETL 0)).NoOrphans := by
  have none : (Operation.applyAll .empty (prunedETL 0).dropLast).prunedIDs 0 = [] := by decide +kernel
  have spares : Operation.AtEach (fun o db => o.SparesOutputs db) .empty (prunedETL 0) := by
    refine ⟨trivial, trivial, trivial, trivial, trivial, fun key gone => ?_, trivial⟩
    exact absurd (none ▸ gone) List.not_mem_nil
  exact (Operation.no_dangling_rows (prunedETL 0) (admissible_prunedETL 0)).mpr spares _ List.prefix_rfl

/-- A day later the run goes and the output stays. -/
theorem pruned_output_dangles : ¬ ∀ ops, Operation.AtEach (fun o db => o.Admissible db) .empty ops →
    (Operation.applyAll .empty ops).NoOrphans := by
  intro sound
  have stored := (sound (prunedETL Calendar.day) (admissible_prunedETL _)).2 extracted (by rfl)
  exact absurd stored (by decide +kernel)

end Cronova.Store
