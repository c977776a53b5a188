import Cronova.Store.Orphans

/-! `cronova migrate-store` (`cmd/cronova/migrate.go`): a SQLite store is copied, table by
table, into an empty PostgreSQL database.

Every table keeps its columns except `events`, whose rows are inserted without their id: the
target numbers them from 1, in the order in which the source lists them.
-/

set_option autoImplicit false

namespace Cronova.Store

open Model

inductive MigrateError where
  /-- `source has %d active (queued/running) runs`. -/
  | activeRuns (active : Nat)
  deriving Repr, DecidableEq

/-- `INSERT … ON CONFLICT (name) DO UPDATE SET slots=EXCLUDED.slots`. -/
def absorbPool (pools : List Pool) (p : Pool) : List Pool :=
  if pools.any (·.name == p.name) then pools.map fun q => if q.name == p.name then { q with slots := p.slots } else q
  else pools ++ [p]

/-- The pool that the target's `Migrate` seeds before the copy. -/
def seededPools : List Pool := [⟨"default", 16⟩]

namespace DB

variable {db after : DB}

theorem events_apart {i j : Nat} (left : i < db.events.rows.length) (right : j < db.events.rows.length) (below : i < j) :
    (eventRow db.events.rows[i]).apart (eventRow db.events.rows[j]) := by
  have pairs := List.pairwise_iff_getElem.mp (List.pairwise_map.mp db.events.distinct)
  exact pairs i j left right below

/-- The rows of `events` under their new ids. -/
def renumbered (db : DB) : Events where
  rows := db.events.rows.mapIdx fun index e => { e with id := index + 1 }
  distinct := by
    rw [List.pairwise_map, List.pairwise_iff_getElem]
    intro i j left right below
    simp only [List.length_mapIdx] at left right
    simp only [List.getElem_mapIdx]
    have keys := (events_apart left right below).2
    exact ⟨by simpa [eventRow] using Nat.ne_of_lt below, keys⟩

theorem mem_renumbered {e : Event} : e ∈ db.renumbered ↔
    ∃ index, ∃ bound : index < db.events.rows.length, { db.events.rows[index] with id := index + 1 } = e := by
  rw [Table.mem_def]
  simp only [renumbered, List.mem_iff_getElem, List.getElem_mapIdx, List.length_mapIdx]

/-- `migrateStoreCmd`. What it verifies and reports after the copy changes nothing. -/
def migrateStore (db : DB) : Except MigrateError DB :=
  let active := db.runs.rows.countP (·.state.isActive)
  if active > 0 then .error (.activeRuns active) else
  .ok {
    dags := db.dags
    runs := db.runs
    taskInstances := db.taskInstances
    events := db.renumbered
    nextEvent := db.events.rows.length + 1
    issued := by
      intro e member
      obtain ⟨index, bound, rfl⟩ := mem_renumbered.mp member
      exact Nat.succ_lt_succ bound
    dependencies := db.dependencies
    pools := db.pools.foldl absorbPool seededPools
    outputs := db.outputs }

theorem migrateStore_ok (copied : db.migrateStore = .ok after) :
    after.dags = db.dags ∧ after.runs = db.runs ∧ after.events = db.renumbered ∧
      after.nextEvent = db.events.rows.length + 1 := by
  unfold migrateStore at copied
  simp only at copied
  split at copied <;> cases copied
  exact ⟨rfl, rfl, rfl, rfl⟩

theorem migrateStore_quiet (quiet : ∀ r ∈ db.runs, r.state.isActive = false) : ∃ after, db.migrateStore = .ok after := by
  have none : ¬ db.runs.rows.countP (·.state.isActive) > 0 := by
    rw [gt_iff_lt, List.countP_pos_iff]
    rintro ⟨r, member, active⟩
    rw [quiet r member] at active
    cases active
  unfold migrateStore
  rw [if_neg none]
  exact ⟨_, rfl⟩

/-! ### What triggered a run -/

/-- The event behind a run's number, or the run id itself. -/
inductive Trigger where
  | event (dag : DagID) (event : Option (EventSource × EventKey))
  | other (run : RunID)
  deriving Repr, DecidableEq

def event? (db : DB) (id : EventID) : Option Event := db.events.rows.find? (·.id == id)

def trigger (db : DB) : RunID → Trigger
  | .event dag id => .event dag ((db.event? id).map fun e => (e.source, e.key))
  | run => .other run

/-- The runs, each with its trigger in the place of its id. -/
def triggered (db : DB) : List (Trigger × DagRun) :=
  db.runs.rows.map fun r => (db.trigger r.runID, { r with runID := .logical r.dagID r.logicalDate })

/-- Up to the newest event with a run, no event is missing. -/
def Unbroken (db : DB) : Prop :=
  ∀ r ∈ db.runs, ∀ dag id, r.runID = .event dag id → ∀ i, 1 ≤ i → i ≤ id → i ∈ db.events.rows.map (·.id)

theorem event?_some {id : EventID} {e : Event} (found : db.event? id = some e) : e ∈ db.events ∧ e.id = id :=
  ⟨List.mem_of_find?_eq_some found, by simpa using List.find?_some found⟩

theorem event?_of_mem {e : Event} (member : e ∈ db.events) : db.event? e.id = some e := by
  cases found : db.event? e.id with
  | none => exact absurd (List.find?_eq_none.mp found e member) (by simp)
  | some x =>
    obtain ⟨stored, same⟩ := event?_some found
    have clash : ¬ EventRow.apart (eventRow x) (eventRow e) := fun apart => apart.1 same
    rw [Table.eq_of_clash EventRow.apart_symm stored member clash]

theorem insertEvent_rows {source : EventSource} {key : EventKey} {payload : String}
    (inserted : db.insertEvent source key payload = some after) :
    after.dags = db.dags ∧ after.runs = db.runs ∧
      after.events.rows = db.events.rows ++ [{ id := db.nextEvent, source, key, payload }] ∧
      after.nextEvent = db.nextEvent + 1 := by
  unfold insertEvent at inserted
  simp only at inserted
  split at inserted
  · cases inserted
  rename_i events stored
  cases inserted
  exact ⟨rfl, rfl, (Table.insert?_some stored).1, rfl⟩

/-! ### The numbers of a SQLite store -/

def eventIDs (db : DB) : List EventID := db.events.rows.map (·.id)

/-- `AUTOINCREMENT` hands out ever larger numbers, from 1; a scan lists the rows by number. -/
structure Numbered (db : DB) : Prop where
  ascending : db.eventIDs.Pairwise (· < ·)
  positive : ∀ e ∈ db.events, 1 ≤ e.id
  next : 1 ≤ db.nextEvent

theorem numbered_empty : DB.empty.Numbered :=
  ⟨List.Pairwise.nil, fun _ member => absurd member List.not_mem_nil, Nat.le_refl 1⟩

/-- Rows may go, and a number that was handed out is not handed out again. -/
theorem Numbered.sublist (numbered : db.Numbered) (rows : after.eventIDs.Sublist db.eventIDs)
    (next : after.nextEvent = db.nextEvent) : after.Numbered := by
  refine ⟨numbered.ascending.sublist rows, fun e member => ?_, next ▸ numbered.next⟩
  obtain ⟨old, stored, same⟩ := List.mem_map.mp (rows.subset (List.mem_map_of_mem member))
  exact same ▸ numbered.positive old stored

theorem Numbered.same (numbered : db.Numbered) (events : after.events = db.events)
    (next : after.nextEvent = db.nextEvent) : after.Numbered := by
  apply numbered.sublist _ next
  rw [eventIDs, events, eventIDs]

theorem Numbered.insertEvent {source : EventSource} {key : EventKey} {payload : String} (numbered : db.Numbered)
    (inserted : db.insertEvent source key payload = some after) : after.Numbered := by
  obtain ⟨_, _, rows, next⟩ := insertEvent_rows inserted
  refine ⟨?_, fun e member => ?_, next ▸ Nat.le_succ_of_le numbered.next⟩
  · rw [eventIDs, rows, List.map_append, List.pairwise_append]
    refine ⟨numbered.ascending, List.pairwise_singleton _ _, fun i old j new => ?_⟩
    obtain ⟨e, member, rfl⟩ := List.mem_map.mp old
    cases List.mem_singleton.mp new
    exact db.issued e member
  · rcases ((insertEvent_some inserted).1 e).mp member with old | rfl
    · exact numbered.positive e old
    · exact numbered.next

theorem Numbered.setConsumed (numbered : db.Numbered) (selects : Event → Bool) (consumed : Bool) :
    (db.setConsumed selects consumed).Numbered := by
  have rows := Table.keys_modify db.events selects (fun e => { e with consumed }) (eventRow_consumed consumed)
  have ids := congrArg (List.map EventRow.id) rows
  rw [List.map_map, List.map_map] at ids
  have same : (db.setConsumed selects consumed).eventIDs = db.eventIDs := ids
  exact numbered.sublist (same ▸ List.Sublist.refl _) rfl

theorem Numbered.armEvent (numbered : db.Numbered) (source : EventSource) (key : EventKey) :
    (db.armEvent source key).Numbered := by
  unfold DB.armEvent
  cases inserted : db.insertEvent source key "" with
  | some after => exact numbered.insertEvent inserted
  | none => exact numbered.setConsumed _ _

theorem Numbered.pruneRuns (numbered : db.Numbered) (cutoff : Calendar.Time) : (db.pruneRuns cutoff).2.Numbered := by
  rw [pruneRuns_eq]
  exact numbered.sublist (List.filter_sublist.map _) rfl

/-- A refused statement changes nothing. -/
theorem Numbered.of_result {result : Except StoreError DB} (numbered : db.Numbered)
    (ok : ∀ after, result = .ok after → after.Numbered) : (result.toOption.getD db).Numbered := by
  cases result with
  | ok after => exact ok after rfl
  | error e => exact numbered

theorem Numbered.insertRun {r : DagRun} (numbered : db.Numbered) (ok : db.insertRun r = .ok after) : after.Numbered := by
  unfold DB.insertRun at ok
  split at ok <;> cases ok
  exact numbered.same rfl rfl

section Positions

variable {ids : List Nat} {start k : Nat}

theorem idxOf_of_ascending (ascending : ids.Pairwise (· < ·)) (above : ∀ i ∈ ids, start ≤ i)
    (all : ∀ i, start ≤ i → i ≤ k → i ∈ ids) (from_ : start ≤ k) : ids.idxOf k + start = k := by
  induction ids generalizing start with
  | nil => exact absurd (all start (Nat.le_refl _) from_) List.not_mem_nil
  | cons a rest ih =>
    obtain ⟨below, ascending⟩ := List.pairwise_cons.mp ascending
    -- the first number is the least one, and the least one is there
    have least : a = start := by
      rcases List.mem_cons.mp (all start (Nat.le_refl _) from_) with same | later
      · exact same.symm
      · exact absurd (above a (.head _)) (Nat.not_le_of_lt (below start later))
    subst least
    by_cases here : a = k
    · subst here
      simp
    · rw [List.idxOf_cons_ne rest here]
      have onward : a + 1 ≤ k := Nat.lt_of_le_of_ne from_ here
      have tail := ih ascending (fun i member => below i member) (fun i low high => ?_) onward
      · omega
      · rcases List.mem_cons.mp (all i (Nat.le_of_succ_le low) high) with rfl | later
        · exact absurd low (Nat.not_succ_le_self _)
        · exact later

theorem add_le_getElem (ascending : ids.Pairwise (· < ·)) (above : ∀ i ∈ ids, start ≤ i) {index : Nat}
    (bound : index < ids.length) : start + index ≤ ids[index] := by
  induction ids generalizing start index with
  | nil => cases bound
  | cons a rest ih =>
    obtain ⟨below, ascending⟩ := List.pairwise_cons.mp ascending
    have first := above a (.head _)
    cases index with
    | zero => exact first
    | succ index =>
      have later := ih ascending (fun i member => below i member) (Nat.lt_of_succ_lt_succ bound)
      rw [List.getElem_cons_succ]
      omega

/-- A number that stands in its own place has all the smaller ones before it. -/
theorem mem_of_getElem (ascending : ids.Pairwise (· < ·)) (above : ∀ i ∈ ids, start ≤ i) {index : Nat}
    (bound : index < ids.length) (own : ids[index] = start + index) {i : Nat} (low : start ≤ i)
    (high : i ≤ start + index) : i ∈ ids := by
  induction ids generalizing start index with
  | nil => cases bound
  | cons a rest ih =>
    obtain ⟨below, rising⟩ := List.pairwise_cons.mp ascending
    cases index with
    | zero =>
      rw [List.getElem_cons_zero] at own
      exact List.mem_cons.mpr (.inl (by omega))
    | succ index =>
      rw [List.getElem_cons_succ] at own
      have bound' : index < rest.length := Nat.lt_of_succ_lt_succ bound
      have later := add_le_getElem rising (fun i member => below i member) bound'
      have first := above a (.head _)
      by_cases here : i = a
      · exact List.mem_cons.mpr (.inl here)
      · apply List.mem_cons_of_mem
        have above' : ∀ j ∈ rest, start + 1 ≤ j := fun j member => Nat.lt_of_le_of_lt first (below j member)
        exact ih rising above' bound' (by omega) (by omega) (by omega)

end Positions

end DB

namespace Operation

variable {db : DB}

/-- Only publications number rows, and only prunes take rows away. -/
theorem numbered_apply (numbered : db.Numbered) (o : Operation) : (o.apply db).Numbered := by
  cases o with
  | upsertDAG d =>
    show (db.upsertDAG d).Numbered
    unfold DB.upsertDAG
    split <;> exact numbered.same rfl rfl
  | softDeleteDAG dag =>
    refine numbered.of_result fun after ok => ?_
    unfold DB.softDeleteDAG at ok
    split at ok <;> cases ok
    exact numbered.same rfl rfl
  | createDagRun r =>
    refine numbered.of_result fun after ok => ?_
    unfold DB.createDagRun at ok
    split at ok
    · exact numbered.insertRun ok
    · cases ok
  | createDagRunBounded r global =>
    refine numbered.of_result fun after ok => ?_
    unfold DB.createDagRunBounded at ok
    split at ok
    · exact numbered.insertRun ok
    · cases ok
  | createManualDagRunBounded r perDAG global =>
    refine numbered.of_result fun after ok => ?_
    unfold DB.createManualDagRunBounded at ok
    split at ok
    · exact numbered.insertRun ok
    · cases ok
  | updateDagRunState run state started finished =>
    refine numbered.of_result fun after ok => ?_
    obtain ⟨_, _, _, _, _, events, next, _⟩ := DB.updateDagRunState_ok ok
    exact numbered.same events next
  | updateDagRunSuccess run started finished =>
    refine numbered.of_result fun after ok => ?_
    unfold DB.updateDagRunSuccess at ok
    split at ok <;> cases ok
    refine DB.Numbered.armEvent ?_ _ _
    exact numbered.same rfl rfl
  | updateDagRunDefinition run yaml hash =>
    refine numbered.of_result fun after ok => ?_
    unfold DB.updateDagRunDefinition at ok
    split at ok <;> cases ok
    exact numbered.same rfl rfl
  | createTaskInstance ti =>
    refine numbered.of_result fun after ok => ?_
    unfold DB.createTaskInstance at ok
    split at ok
    · cases ok
    · split at ok <;> cases ok
      exact numbered.same rfl rfl
  | updateTaskInstance ti =>
    refine numbered.of_result fun after ok => ?_
    rw [(DB.updateTaskInstance_ok ok).2]
    exact numbered.same rfl rfl
  | updateTaskInstanceGuarded ti expectRef => exact numbered.same rfl rfl
  | setTaskOutput key output => exact numbered.same rfl rfl
  | publishEvent source key payload =>
    show (db.publishEvent source key payload).2.Numbered
    unfold DB.publishEvent
    cases inserted : db.insertEvent source key payload with
    | some after => exact numbered.insertEvent inserted
    | none => exact numbered
  | consumeEvent id => exact numbered.setConsumed _ _
  | pruneRuns cutoff => exact numbered.pruneRuns cutoff

/-- Every store that the operations reach numbers its events in order. -/
theorem numbered_applyAll (ops : List Operation) (numbered : db.Numbered) : (applyAll db ops).Numbered := by
  induction ops generalizing db with
  | nil => exact numbered
  | cons o rest ih => exact ih (numbered_apply numbered o)

end Operation

end Cronova.Store
