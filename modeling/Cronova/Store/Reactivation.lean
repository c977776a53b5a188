import Cronova.Store.Prune

/-! `PruneRuns` beside other connections (`internal/store/postgres/postgres.go`).

A statement of an open transaction sees the rows that are committed when it starts. The
rows it deletes stay visible to the others until the commit, but a write to one of them
waits. The statements of `RetryRun`, `RetryTask`, `MarkTask` and `MarkRun` commit in
between as they please.
-/

set_option autoImplicit false

namespace Cronova.Store.Postgres

open Model
open Calendar (Time)

inductive Deletion where
  | events | taskInstances | runs

/-- The open transaction: what it selected, where its loop stands and which rows it deleted. -/
structure PruneTx where
  ids : List RunID
  chunk : Nat := 0
  next : Deletion := .events
  events : List EventID := []
  instances : List InstanceKey := []
  /-- The rows of `dag_runs`, as they were when they were deleted. -/
  runs : List DagRun := []

/-- The committed tables, the open transaction and the runs that earlier ones deleted. -/
structure State where
  db : DB
  tx : Option PruneTx := none
  deleted : List DagRun := []

/-- The committed writes of an operator's request. -/
inductive Write where
  | updateDagRunState (run : RunID) (state : RunState) (started finished : Option Time)
  | updateDagRunSuccess (run : RunID) (started finished : Option Time)
  | updateDagRunDefinition (run : RunID) (yaml hash : String)
  | createTaskInstance (ti : TaskInstance)
  | updateTaskInstance (ti : TaskInstance)

inductive Move where
  | select (cutoff : Time)
  /-- The next `DELETE` of the loop. -/
  | delete
  | commit
  /-- A failed statement or a deadlock rolls the transaction back. -/
  | abort
  | write (w : Write)

/-- A write waits for a row that the open transaction has deleted; a new task instance waits
for the row it references. -/
def PruneTx.blocks (tx : PruneTx) (db : DB) : Write → Bool
  | .updateDagRunState run .. | .updateDagRunDefinition run .. => tx.runs.any (·.runID == run)
  | .updateDagRunSuccess run .. => tx.runs.any (·.runID == run) ||
      db.events.rows.any fun e => e.source == .dependency && e.key == .run run && tx.events.contains e.id
  | .createTaskInstance ti => tx.runs.any (·.runID == ti.runID)
  | .updateTaskInstance ti => tx.instances.contains ti.key

def Write.apply (db : DB) : Write → DB
  | updateDagRunState run state started finished => (db.updateDagRunState run state started finished).toOption.getD db
  | updateDagRunSuccess run started finished => (db.updateDagRunSuccess run started finished).toOption.getD db
  | updateDagRunDefinition run yaml hash => (db.updateDagRunDefinition run yaml hash).toOption.getD db
  | createTaskInstance ti => (db.createTaskInstance ti).toOption.getD db
  | updateTaskInstance ti => (db.updateTaskInstance ti).toOption.getD db

/-- The ids of the chunk at which the loop stands. -/
def PruneTx.current (tx : PruneTx) : List RunID := DB.chunkOf tx.ids tx.chunk

/-- A task instance that the transaction has not deleted references a run of the chunk. -/
def PruneTx.referenced (tx : PruneTx) (db : DB) : Bool :=
  db.taskInstances.rows.any fun ti => tx.current.contains ti.runID && !tx.instances.contains ti.key

/-- One statement of the loop; `none` is the violation of the foreign key. -/
def PruneTx.delete (tx : PruneTx) (db : DB) : Option PruneTx :=
  match tx.next with
  | .events => some { tx with
      next := .taskInstances
      events := tx.events ++ (db.events.rows.filter fun e =>
        e.source == .dependency && tx.current.any fun id => e.key == .run id).map (·.id) }
  | .taskInstances => some { tx with
      next := .runs
      instances := tx.instances ++ (db.taskInstances.rows.filter (tx.current.contains ·.runID)).map (·.key) }
  | .runs =>
    if tx.referenced db then none else
    some { tx with
      next := .events
      chunk := tx.chunk + 1
      runs := tx.runs ++ db.runs.rows.filter (tx.current.contains ·.runID) }

/-- The deletions become visible. -/
def PruneTx.commit (tx : PruneTx) (db : DB) : DB :=
  { db with
    runs := db.runs.delete fun r => tx.runs.any (·.runID == r.runID)
    taskInstances := db.taskInstances.delete fun ti => tx.instances.contains ti.key
    events := db.events.delete fun e => tx.events.contains e.id
    issued := fun e member => db.issued e (Table.mem_delete.mp member).1 }

/-- One step; `none` is a step that cannot be taken. -/
def step (s : State) : Move → Option State
  | .select cutoff => match s.tx with
    | none => some { s with tx := some { ids := s.db.prunedIDs cutoff } }
    | some _ => none
  | .delete => match s.tx with
    | none => none
    | some tx => if tx.chunk < DB.chunkCount tx.ids then some { s with tx := tx.delete s.db } else none
  | .commit => match s.tx with
    | none => none
    | some tx =>
      if tx.chunk < DB.chunkCount tx.ids then none
      else some { db := tx.commit s.db, tx := none, deleted := s.deleted ++ tx.runs }
  | .abort => some { s with tx := none }
  | .write w => if s.tx.any (·.blocks s.db w) then none else some { s with db := w.apply s.db }

def run (s : State) : List Move → Option State
  | [] => some s
  | move :: rest => (step s move).bind (run · rest)

/-- No run was queued or running when it was deleted. -/
def State.Safe (s : State) : Prop :=
  (∀ r ∈ s.deleted, r.state.isActive = false) ∧ ∀ tx ∈ s.tx, ∀ r ∈ tx.runs, r.state.isActive = false

/-- A write that makes no run active that the open transaction has selected. -/
def Move.Calm (s : State) : Move → Prop
  | .write (.updateDagRunState run state _ _) => ∀ tx ∈ s.tx, run ∈ tx.ids → state.isActive = false
  | _ => True

def AtEach (demand : Move → State → Prop) : State → List Move → Prop
  | _, [] => True
  | s, move :: rest => demand move s ∧ ∀ t, step s move = some t → AtEach demand t rest

/-! ### The invariant -/

/-- The selected runs have stayed as they were found: in a terminal state. -/
structure Inv (s : State) : Prop where
  safe : s.Safe
  quiet : ∀ tx ∈ s.tx, ∀ r ∈ s.db.runs, r.runID ∈ tx.ids → r.state.isActive = false

theorem mem_chunkOf {ids : List RunID} {number : Nat} {id : RunID} (member : id ∈ DB.chunkOf ids number) : id ∈ ids :=
  List.mem_of_mem_drop (List.mem_of_mem_take member)

/-- The runs that a select finds have a terminal state. -/
theorem selected_quiet {db : DB} {cutoff : Time} {r : DagRun} (stored : r ∈ db.runs)
    (selected : r.runID ∈ db.prunedIDs cutoff) : r.state.isActive = false := by
  rw [← List.contains_iff_mem, DB.contains_prunedIDs stored, DB.prunable_eq stored] at selected
  simp only [Bool.and_eq_true, DB.pruneStates] at selected
  have terminal := selected.1.2
  cases state : r.state <;> simp_all [RunState.isActive]

theorem mem_getD {db : DB} {result : Except StoreError DB} {r : DagRun} (stored : r ∈ (result.toOption.getD db).runs) :
    r ∈ db.runs ∨ ∃ after, result = .ok after ∧ r ∈ after.runs := by
  cases result with
  | error e => exact .inl stored
  | ok after => exact .inr ⟨after, rfl, stored⟩

/-- What a write makes of a run: it is the row there was, or it carries the state written. -/
theorem write_run {db : DB} {w : Write} {r : DagRun} (stored : r ∈ (w.apply db).runs) :
    (∃ old ∈ db.runs, old.runID = r.runID ∧ old.state = r.state) ∨ r.state = .success ∨
      ∃ started finished, w = .updateDagRunState r.runID r.state started finished := by
  have same (kept : r ∈ db.runs) : ∃ old ∈ db.runs, old.runID = r.runID ∧ old.state = r.state := ⟨r, kept, rfl, rfl⟩
  cases w with
  | updateDagRunState run state started finished =>
    rcases mem_getD stored with kept | ⟨after, written, stored⟩
    · exact .inl (same kept)
    · obtain ⟨old, _, _, runs, _⟩ := DB.updateDagRunState_ok written
      have found := DB.run?_of_mem stored
      rw [runs] at found
      split at found
      · rename_i own
        cases found
        exact .inr (.inr ⟨started, finished, by rw [own]; rfl⟩)
      · exact .inl (same (DB.run?_some found).1)
  | updateDagRunSuccess run started finished =>
    rcases mem_getD stored with kept | ⟨after, written, stored⟩
    · exact .inl (same kept)
    · obtain ⟨old, _, runs, _⟩ := DB.updateDagRunSuccess_ok written
      have found := DB.run?_of_mem stored
      rw [runs] at found
      split at found
      · cases found
        exact .inr (.inl rfl)
      · exact .inl (same (DB.run?_some found).1)
  | updateDagRunDefinition run yaml hash =>
    rcases mem_getD stored with kept | ⟨after, written, stored⟩
    · exact .inl (same kept)
    · obtain ⟨old, known, runs, _⟩ := DB.updateDagRunDefinition_ok written
      have found := DB.run?_of_mem stored
      rw [runs] at found
      split at found
      · cases found
        exact .inl ⟨old, (DB.run?_some known).1, rfl, rfl⟩
      · exact .inl (same (DB.run?_some found).1)
  | createTaskInstance ti =>
    rcases mem_getD stored with kept | ⟨after, written, stored⟩
    · exact .inl (same kept)
    · obtain ⟨_, _, runs, _⟩ := DB.createTaskInstance_ok written
      exact .inl (same (runs ▸ stored))
  | updateTaskInstance ti =>
    rcases mem_getD stored with kept | ⟨after, written, stored⟩
    · exact .inl (same kept)
    · rw [(DB.updateTaskInstance_ok written).2] at stored
      exact .inl (same stored)

theorem Inv.delete {s : State} {tx tx' : PruneTx} (inv : Inv s) (open_ : s.tx = some tx)
    (deleted : tx.delete s.db = some tx') : Inv { s with tx := some tx' } := by
  have same : tx'.ids = tx.ids ∧ ∀ r ∈ tx'.runs, r ∈ tx.runs ∨ r ∈ s.db.runs ∧ r.runID ∈ tx.ids := by
    unfold PruneTx.delete at deleted
    split at deleted
    · cases deleted
      exact ⟨rfl, fun r listed => .inl listed⟩
    · cases deleted
      exact ⟨rfl, fun r listed => .inl listed⟩
    · split at deleted
      · cases deleted
      · cases deleted
        refine ⟨rfl, fun r listed => ?_⟩
        rcases List.mem_append.mp listed with old | new
        · exact .inl old
        · obtain ⟨stored, chosen⟩ := List.mem_filter.mp new
          exact .inr ⟨stored, mem_chunkOf (List.contains_iff_mem.mp chosen)⟩
  constructor
  · refine ⟨inv.safe.1, ?_⟩
    rintro _ ⟨⟩ r listed
    rcases same.2 r listed with old | ⟨stored, chosen⟩
    · exact inv.safe.2 tx open_ r old
    · exact inv.quiet tx open_ r stored chosen
  · rintro _ ⟨⟩ r stored chosen
    exact inv.quiet tx open_ r stored (same.1 ▸ chosen)

/-- A transaction that is gone leaves nothing to keep. -/
theorem Inv.closed {db : DB} {deleted : List DagRun} (safe : ∀ r ∈ deleted, r.state.isActive = false) :
    Inv { db, tx := none, deleted } :=
  ⟨⟨safe, fun _ none => by cases none⟩, fun _ none => by cases none⟩

theorem Inv.step {s t : State} {move : Move} (inv : Inv s) (calm : move.Calm s) (stepped : step s move = some t) :
    Inv t := by
  cases move with
  | select cutoff =>
    simp only [Postgres.step] at stepped
    split at stepped <;> cases stepped
    refine ⟨⟨inv.safe.1, ?_⟩, ?_⟩
    · rintro _ ⟨⟩ r listed
      exact absurd listed List.not_mem_nil
    · rintro _ ⟨⟩ r stored selected
      exact selected_quiet stored selected
  | delete =>
    simp only [Postgres.step] at stepped
    split at stepped
    · cases stepped
    · rename_i tx open_
      split at stepped <;> cases stepped
      cases deleted : tx.delete s.db with
      | none => exact .closed inv.safe.1
      | some tx' => exact inv.delete open_ deleted
  | commit =>
    simp only [Postgres.step] at stepped
    split at stepped
    · cases stepped
    · rename_i tx open_
      split at stepped <;> cases stepped
      refine .closed fun r listed => ?_
      rcases List.mem_append.mp listed with old | new
      · exact inv.safe.1 r old
      · exact inv.safe.2 tx open_ r new
  | abort =>
    cases stepped
    exact .closed inv.safe.1
  | write w =>
    simp only [Postgres.step] at stepped
    split at stepped <;> cases stepped
    refine ⟨inv.safe, fun tx open_ r stored selected => ?_⟩
    rcases write_run stored with ⟨old, stored', same, state⟩ | success | ⟨started, finished, rfl⟩
    · rw [← state]
      exact inv.quiet tx open_ old stored' (same ▸ selected)
    · rw [success]
      rfl
    · exact calm tx open_ selected

theorem Inv.run {s t : State} {moves : List Move} (inv : Inv s) (calm : AtEach (fun move s => move.Calm s) s moves)
    (ran : run s moves = some t) : Inv t := by
  induction moves generalizing s with
  | nil =>
    cases ran
    exact inv
  | cons move rest ih =>
    simp only [Postgres.run, Option.bind_eq_some_iff] at ran
    obtain ⟨mid, stepped, ran⟩ := ran
    exact ih (inv.step calm.1 stepped) (calm.2 mid stepped) ran

/-- No active run is deleted, for as long as no selected run is made active before its turn.
On the single connection of the other store nothing can come between. -/
theorem calm_prune_safe (db : DB) (moves : List Move) (s : State)
    (calm : AtEach (fun move s => move.Calm s) { db } moves) (ran : run { db } moves = some s) :
    s.Safe ∧ ∀ cutoff, ∀ r ∈ db.runs, r.state.isActive = true → r ∈ (db.pruneRuns cutoff).2.runs := by
  have start : Inv { db } := .closed (by simp)
  exact ⟨(start.run calm ran).safe, fun cutoff r stored active => DB.pruneRuns_active active stored⟩

/-! An old failed run, pruned while an operator retries it. -/

def oldRun : DagRun :=
  { runID := .manual "etl" 0, dagID := "etl", logicalDate := 0, triggerType := .manual, state := .failed,
    startedAt := some 0, finishedAt := some 0 }

def oldTask : TaskInstance := { runID := .manual "etl" 0, taskID := "load", state := .failed }

def oldStore : DB where
  dags := [{ dagID := "etl" }]
  runs := ⟨[oldRun], List.pairwise_singleton _ _⟩
  taskInstances := ⟨[oldTask], List.pairwise_singleton _ _⟩
  events := .empty
  nextEvent := 1
  issued := DB.empty.issued
  dependencies := []
  pools := []
  outputs _ := none

/-- The writes of `clearAndReactivate`. -/
def reactivation : List Move :=
  [.write (.updateTaskInstance { oldTask with state := .scheduled }),
    .write (.updateDagRunState oldRun.runID .running (some Calendar.day) none)]

def deletions : List Move := [.delete, .delete, .delete, .commit]

/-- Undisturbed, the run is deleted as it was selected. -/
theorem undisturbed_prune_safe : ∃ s, run { db := oldStore } (.select Calendar.day :: deletions) = some s ∧ s.Safe ∧
    s.deleted = [oldRun] := by
  have calm : AtEach (fun move s => move.Calm s) { db := oldStore } (.select Calendar.day :: deletions) :=
    ⟨trivial, fun _ _ => ⟨trivial, fun _ _ => ⟨trivial, fun _ _ => ⟨trivial, fun _ _ => ⟨trivial, fun _ _ => trivial⟩⟩⟩⟩⟩
  have outcome : (run { db := oldStore } (.select Calendar.day :: deletions)).map (·.deleted) = some [oldRun] := by
    decide +kernel
  obtain ⟨s, ran, deleted⟩ := Option.map_eq_some_iff.mp outcome
  exact ⟨s, ran, (calm_prune_safe oldStore _ s calm ran).1, deleted⟩

/-- A run that is retried after the select is deleted while it runs. -/
theorem reactivated_run_deleted : ¬ ∀ (db : DB) (moves : List Move) (s : State), run { db } moves = some s → s.Safe := by
  intro safe
  have outcome : (run { db := oldStore } (.select Calendar.day :: reactivation ++ deletions)).map (·.deleted) =
      some [{ oldRun with state := .running, startedAt := some Calendar.day, finishedAt := none }] := by
    decide +kernel
  obtain ⟨s, ran, deleted⟩ := Option.map_eq_some_iff.mp outcome
  have quiet := (safe oldStore _ s ran).1
  rw [deleted] at quiet
  exact absurd (quiet _ List.mem_cons_self) (by decide)

end Cronova.Store.Postgres
