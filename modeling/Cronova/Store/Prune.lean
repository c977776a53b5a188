import Cronova.Store.Effects

/-! `PruneRuns`: finished runs older than a cutoff leave the store.

The statements are those of `internal/store/sqlite/sqlite.go`; the port in
`internal/store/postgres/postgres.go` issues the same ones.
-/

set_option autoImplicit false

namespace Cronova.Store.DB

open Model
open Calendar (Time)

/-- `SELECT MAX(r3.logical_date) … WHERE r3.dag_id = ? AND r3.trigger_type = 'schedule'`. -/
def maxScheduledDate (db : DB) (dag : DagID) : Option String :=
  ((db.scheduledRuns dag).map fun r => fmtTime r.logicalDate).max?

/-- The rows of the inner select: the catchup anchor of each DAG. -/
def isAnchor (db : DB) (r : DagRun) : Bool :=
  r.triggerType == .schedule && db.maxScheduledDate r.dagID == some (fmtTime r.logicalDate)

/-- `finished_at IS NOT NULL AND finished_at < ?`, which compares the stored text. -/
def finishedBefore (cutoff : Time) (r : DagRun) : Bool :=
  r.finishedAt.any fun t => decide (fmtTime t < fmtTime cutoff)

def pruneStates : List RunState := [.success, .failed, .cancelled, .timedOut]

def prunable (db : DB) (cutoff : Time) (r : DagRun) : Bool :=
  finishedBefore cutoff r && decide (r.state ∈ pruneStates) &&
    !((db.runs.rows.filter db.isAnchor).map (·.runID)).contains r.runID

def pruneCandidates (db : DB) (cutoff : Time) : List DagRun := db.runs.rows.filter (db.prunable cutoff)

/-- `DELETE FROM events WHERE source='dependency' AND event_key IN (…)`. -/
def deleteDependencyEvents (db : DB) (ids : List RunID) : DB :=
  { db with
    events := db.events.delete fun e => e.source == .dependency && ids.any fun id => e.key == .run id
    issued := fun e member => db.issued e (Table.mem_delete.mp member).1 }

/-- `DELETE FROM task_instances WHERE run_id IN (…)`. -/
def deleteTaskInstances (db : DB) (ids : List RunID) : DB :=
  { db with taskInstances := db.taskInstances.delete fun ti => ids.contains ti.runID }

/-- `DELETE FROM dag_runs WHERE run_id IN (…)`. -/
def deleteRuns (db : DB) (ids : List RunID) : DB :=
  { db with runs := db.runs.delete fun r => ids.contains r.runID }

/-- The three statements of one chunk. -/
def deleteChunk (db : DB) (ids : List RunID) : DB :=
  ((db.deleteDependencyEvents ids).deleteTaskInstances ids).deleteRuns ids

def pruneChunk : Nat := 500

/-- `pruned[i:end]` for the chunk with the given number. -/
def chunkOf (ids : List RunID) (number : Nat) : List RunID := (ids.drop (number * pruneChunk)).take pruneChunk

def chunkCount (ids : List RunID) : Nat := (ids.length + pruneChunk - 1) / pruneChunk

/-- The loop over the chunks. -/
def deleteChunks (db : DB) (ids : List RunID) : DB :=
  (List.range (chunkCount ids)).foldl (fun db number => db.deleteChunk (chunkOf ids number)) db

/-- The pairs that `PruneRuns` returns, and the store after its transaction. -/
def pruneRuns (db : DB) (cutoff : Time) : List (RunID × DagID) × DB :=
  let pruned := (db.pruneCandidates cutoff).map fun r => (r.runID, r.dagID)
  (pruned, db.deleteChunks (pruned.map (·.1)))

/-! ### The chunks make up the whole -/

variable {db : DB}

theorem deleteChunk_append (db : DB) (xs ys : List RunID) :
    (db.deleteChunk xs).deleteChunk ys = db.deleteChunk (xs ++ ys) := by
  simp only [deleteChunk, deleteDependencyEvents, deleteTaskInstances, deleteRuns, Table.delete_delete, mk.injEq,
    true_and, and_true]
  refine ⟨?_, ?_, ?_⟩
  · congr 1
    funext r
    simp
  · congr 1
    funext ti
    simp
  · congr 1
    funext e
    simp [Bool.and_or_distrib_left]

theorem deleteChunk_nil (db : DB) : db.deleteChunk [] = db := by
  have runs : (db.runs.delete fun _ => false) = db.runs := Table.delete_eq_self (by simp)
  have instances : (db.taskInstances.delete fun _ => false) = db.taskInstances := Table.delete_eq_self (by simp)
  have events : (db.events.delete fun _ => false) = db.events := Table.delete_eq_self (by simp)
  simp only [deleteChunk, deleteDependencyEvents, deleteTaskInstances, deleteRuns, List.contains_nil, List.any_nil,
    Bool.and_false, runs, instances, events]

/-- After a number of chunks, the ids so far are gone. -/
theorem deleteChunks_prefix (db : DB) (ids : List RunID) (count : Nat) :
    (List.range count).foldl (fun db number => db.deleteChunk (chunkOf ids number)) db =
      db.deleteChunk (ids.take (count * pruneChunk)) := by
  induction count with
  | zero => simp [deleteChunk_nil]
  | succ count ih =>
    rw [List.range_succ, List.foldl_append, ih, List.foldl_cons, List.foldl_nil, deleteChunk_append, chunkOf,
      Nat.succ_mul, List.take_add]

theorem deleteChunks_eq (db : DB) (ids : List RunID) : db.deleteChunks ids = db.deleteChunk ids := by
  have enough : ids.length ≤ chunkCount ids * pruneChunk := by
    unfold chunkCount pruneChunk
    omega
  rw [deleteChunks, deleteChunks_prefix, List.take_of_length_le enough]

/-! ### What a prune takes away -/

section Effect

variable {cutoff : Time}

/-- The ids that the deletions are given. -/
def prunedIDs (db : DB) (cutoff : Time) : List RunID := (db.pruneCandidates cutoff).map (·.runID)

theorem pruneRuns_eq (db : DB) (cutoff : Time) : (db.pruneRuns cutoff).2 = db.deleteChunk (db.prunedIDs cutoff) := by
  simp only [pruneRuns, deleteChunks_eq, prunedIDs, List.map_map]
  rfl

theorem eq_of_runID {r x : DagRun} (left : r ∈ db.runs) (right : x ∈ db.runs) (same : r.runID = x.runID) : r = x :=
  Table.eq_of_clash RunKey.apart_symm left right fun apart => apart.1 same

/-- For a stored run, the inner select is asked about the run itself. -/
theorem prunable_eq {r : DagRun} (member : r ∈ db.runs) : db.prunable cutoff r =
    (finishedBefore cutoff r && decide (r.state ∈ pruneStates) && !db.isAnchor r) := by
  have listed : ((db.runs.rows.filter db.isAnchor).map (·.runID)).contains r.runID = db.isAnchor r := by
    rw [Bool.eq_iff_iff, List.contains_iff_mem, List.mem_map]
    constructor
    · rintro ⟨x, anchor, same⟩
      obtain ⟨stored, is⟩ := List.mem_filter.mp anchor
      rwa [eq_of_runID stored member same] at is
    · exact fun is => ⟨r, List.mem_filter.mpr ⟨member, is⟩, rfl⟩
  rw [prunable, listed]

theorem contains_prunedIDs {r : DagRun} (member : r ∈ db.runs) :
    (db.prunedIDs cutoff).contains r.runID = db.prunable cutoff r := by
  rw [Bool.eq_iff_iff, List.contains_iff_mem, prunedIDs, List.mem_map]
  constructor
  · rintro ⟨x, candidate, same⟩
    obtain ⟨stored, is⟩ := List.mem_filter.mp candidate
    rwa [eq_of_runID stored member same] at is
  · exact fun is => ⟨r, List.mem_filter.mpr ⟨member, is⟩, rfl⟩

theorem pruneRuns_rows (db : DB) (cutoff : Time) :
    (db.pruneRuns cutoff).2.runs.rows = db.runs.rows.filter (!db.prunable cutoff ·) := by
  rw [pruneRuns_eq]
  apply List.filter_congr
  intro r member
  exact congrArg (! ·) (contains_prunedIDs (show r ∈ db.runs from member))

theorem mem_pruneRuns {r : DagRun} :
    r ∈ (db.pruneRuns cutoff).2.runs ↔ r ∈ db.runs ∧ db.prunable cutoff r = false := by
  rw [Table.mem_def, pruneRuns_rows, List.mem_filter, Bool.not_eq_true']
  rfl

theorem pruneRuns_active {r : DagRun} (active : r.state.isActive = true) (member : r ∈ db.runs) :
    r ∈ (db.pruneRuns cutoff).2.runs := by
  refine mem_pruneRuns.mpr ⟨member, ?_⟩
  have stays : r.state ∉ pruneStates := by
    rcases (RunState.isActive_iff r.state).mp active with state | state <;> simp [state, pruneStates]
  simp [prunable, stays]

theorem isAnchor_kept {r : DagRun} (member : r ∈ db.runs) (anchor : db.isAnchor r = true) :
    r ∈ (db.pruneRuns cutoff).2.runs :=
  mem_pruneRuns.mpr ⟨member, by rw [prunable_eq member, anchor]; simp⟩

/-- The newest dates are the anchors'. -/
theorem isAnchor_of_newest {dag : DagID} {r : DagRun} (member : r ∈ db.scheduledRuns dag)
    (newest : ∀ x ∈ db.scheduledRuns dag, fmtTime x.logicalDate ≤ fmtTime r.logicalDate) : db.isAnchor r = true := by
  obtain ⟨_, owner, schedule⟩ := mem_scheduledRuns.mp member
  have greatest : db.maxScheduledDate dag = some (fmtTime r.logicalDate) := by
    rw [maxScheduledDate, List.max?_eq_some_iff]
    refine ⟨List.mem_map_of_mem member, ?_⟩
    intro text listed
    obtain ⟨x, among, rfl⟩ := List.mem_map.mp listed
    exact newest x among
  simp [isAnchor, schedule, owner, greatest]

theorem pruneRuns_scheduledRuns (db : DB) (cutoff : Time) (dag : DagID) :
    (db.pruneRuns cutoff).2.scheduledRuns dag = (db.scheduledRuns dag).filter (!db.prunable cutoff ·) := by
  rw [scheduledRuns, pruneRuns_rows, List.filter_filter, scheduledRuns, List.filter_filter]
  apply List.filter_congr
  intro r _
  rw [Bool.and_comm]

theorem newest_kept {dag : DagID} {r : DagRun} (member : r ∈ db.scheduledRuns dag)
    (newest : ∀ x ∈ db.scheduledRuns dag, fmtTime x.logicalDate ≤ fmtTime r.logicalDate) :
    (!db.prunable cutoff r) = true := by
  have stored := (mem_scheduledRuns.mp member).1
  rw [prunable_eq stored, isAnchor_of_newest member newest]
  simp

/-- The run that `LatestScheduledRun` returns is one of those that stay. -/
theorem pruneRuns_latest (db : DB) (cutoff : Time) (dag : DagID) :
    (db.pruneRuns cutoff).2.latestScheduledRun dag = db.latestScheduledRun dag := by
  rw [latestScheduledRun_eq, latestScheduledRun_eq, pruneRuns_scheduledRuns,
    head?_insertionSort_filter (fun x : DagRun => fmtTime x.logicalDate) (fun a b => dateOrder b a) (fun _ _ => Iff.rfl)]
  exact fun r member newest => newest_kept member newest

theorem pruneRuns_maxDate (db : DB) (cutoff : Time) (dag : DagID) :
    (db.pruneRuns cutoff).2.maxScheduledDate dag = db.maxScheduledDate dag := by
  unfold maxScheduledDate
  rw [pruneRuns_scheduledRuns]
  cases greatest : ((db.scheduledRuns dag).map fun r => fmtTime r.logicalDate).max? with
  | none =>
    rw [List.max?_eq_none_iff, List.map_eq_nil_iff] at greatest
    rw [greatest]
    rfl
  | some text =>
    obtain ⟨listed, bound⟩ := List.max?_eq_some_iff.mp greatest
    obtain ⟨r, member, rfl⟩ := List.mem_map.mp listed
    have newest : ∀ x ∈ db.scheduledRuns dag, fmtTime x.logicalDate ≤ fmtTime r.logicalDate :=
      fun x among => bound _ (List.mem_map_of_mem among)
    rw [List.max?_eq_some_iff]
    refine ⟨List.mem_map_of_mem (List.mem_filter.mpr ⟨member, newest_kept member newest⟩), ?_⟩
    intro text listed
    obtain ⟨x, among, rfl⟩ := List.mem_map.mp listed
    exact newest x (List.mem_of_mem_filter among)

/-- A second prune with the same cutoff finds nothing. -/
theorem pruneRuns_again (db : DB) (cutoff : Time) :
    (db.pruneRuns cutoff).2.pruneRuns cutoff = ([], (db.pruneRuns cutoff).2) := by
  have none : (db.pruneRuns cutoff).2.pruneCandidates cutoff = [] := by
    rw [pruneCandidates, List.filter_eq_nil_iff]
    intro r member
    obtain ⟨stored, kept⟩ := mem_pruneRuns.mp member
    rw [prunable_eq member, isAnchor, pruneRuns_maxDate, ← isAnchor, ← prunable_eq stored, kept]
    simp
  have ids : (db.pruneRuns cutoff).2.prunedIDs cutoff = [] := by rw [prunedIDs, none, List.map_nil]
  refine Prod.ext ?_ ?_
  · change ((db.pruneRuns cutoff).2.pruneCandidates cutoff).map (fun r => (r.runID, r.dagID)) = []
    rw [none, List.map_nil]
  · rw [pruneRuns_eq, ids, deleteChunk_nil]

theorem mem_pruneRuns_instances {ti : TaskInstance} : ti ∈ (db.pruneRuns cutoff).2.taskInstances ↔
    ti ∈ db.taskInstances ∧ ti.runID ∉ db.prunedIDs cutoff := by
  rw [pruneRuns_eq]
  refine Table.mem_delete.trans (and_congr Iff.rfl ?_)
  simp

theorem mem_pruneRuns_events {e : Event} : e ∈ (db.pruneRuns cutoff).2.events ↔
    e ∈ db.events ∧ ¬ (e.source = .dependency ∧ ∃ id ∈ db.prunedIDs cutoff, e.key = .run id) := by
  rw [pruneRuns_eq]
  refine Table.mem_delete.trans (and_congr Iff.rfl ?_)
  simp

theorem not_mem_prunedIDs {r : DagRun} (kept : r ∈ (db.pruneRuns cutoff).2.runs) : r.runID ∉ db.prunedIDs cutoff := by
  obtain ⟨stored, stays⟩ := mem_pruneRuns.mp kept
  rw [← List.contains_iff_mem, contains_prunedIDs stored, stays]
  simp

end Effect

end Cronova.Store.DB
