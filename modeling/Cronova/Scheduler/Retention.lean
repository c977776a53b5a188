import Cronova.Scheduler.Schedule
import Cronova.Store.Prune
import Cronova.Store.Timestamps

/-! Retention: what `pruneOldRuns` may take from the store without the scheduler noticing. -/

set_option autoImplicit false

namespace Cronova.Scheduler

open Model Store Process
open Calendar (Time)

/-- The world after the store was pruned. -/
def World.pruned (w : World) (cutoff : Time) : World := { w with db := (w.db.pruneRuns cutoff).2 }

/-- The periods of a schedule that have come up since the anchor. -/
def World.duePeriods (w : World) (d : DAG) (points : Set Time) (now : Time) : Set Time :=
  {p | p ∈ points ∧ w.anchor d < p ∧ p ≤ now}

theorem World.anchor_pruned (w : World) (cutoff : Time) (d : DAG) : (w.pruned cutoff).anchor d = w.anchor d := by
  unfold World.anchor World.pruned
  rw [DB.pruneRuns_latest]

/-- The dates that a cron schedule yields: whole seconds of years with four digits. -/
def OnTheSecond (t : Time) : Prop :=
  Calendar.second ∣ t ∧ 0 ≤ (Calendar.utc t).date.year ∧ (Calendar.utc t).date.year ≤ 9999

theorem OnTheSecond.sorts {s t : Int} (left : OnTheSecond s) (right : OnTheSecond t) (less : s < t) : DB.SortsAsText s t := by
  have wide (y : Int) (low : 0 ≤ y) (high : y ≤ 9999) : Calendar.yearWidth y = 4 := by
    have : Text.width y.natAbs ≤ 4 := (Text.width_le_iff (by omega)).mpr (by omega)
    unfold Calendar.yearWidth
    omega
  obtain ⟨whole, low, high⟩ := left
  obtain ⟨whole', low', high'⟩ := right
  constructor
  · intro differ
    have years := Calendar.year_mono less
    unfold Calendar.YearsSort
    rw [if_neg (by omega), wide _ low high, wide _ low' high', Nat.sub_self, Nat.pow_zero, Nat.div_one]
    omega
  · intro continues
    have same := continues.same_second less
    simp only [Calendar.second] at same whole whole'
    omega

theorem OnTheSecond.le {s t : Int} (left : OnTheSecond s) (right : OnTheSecond t) (le : s ≤ t) :
    DB.fmtTime s ≤ DB.fmtTime t := by
  rcases le.lt_or_eq with less | rfl
  · exact ((DB.fmtTime_lt_iff less).mpr (left.sorts right less)).le
  · exact le_refl _

section Rows

variable {db : DB} {cutoff : Time}

theorem latest_kept {dag : DagID} {r : DagRun} (found : db.latestScheduledRun dag = .ok r) :
    r ∈ (db.pruneRuns cutoff).2.runs := by
  rw [← DB.pruneRuns_latest db cutoff] at found
  exact (DB.mem_scheduledRuns.mp (DB.latestScheduledRun_ok found)).1

theorem newest_date_kept {dag : DagID} {r : DagRun} (member : r ∈ db.scheduledRuns dag)
    (newest : ∀ x ∈ db.scheduledRuns dag, OnTheSecond x.logicalDate ∧ x.logicalDate ≤ r.logicalDate) :
    r ∈ (db.pruneRuns cutoff).2.runs := by
  apply DB.isAnchor_kept (DB.mem_scheduledRuns.mp member).1
  apply DB.isAnchor_of_newest member
  intro x among
  exact (newest x among).1.le (newest r member).1 (newest x among).2

theorem pruned_instances {r : DagRun} (kept : r ∈ (db.pruneRuns cutoff).2.runs) :
    (db.pruneRuns cutoff).2.listTaskInstances r.runID = db.listTaskInstances r.runID := by
  have apart := DB.not_mem_prunedIDs kept
  rw [DB.pruneRuns_eq]
  simp only [DB.listTaskInstances, DB.deleteChunk, DB.deleteRuns, DB.deleteTaskInstances, DB.deleteDependencyEvents,
    Table.delete, List.filter_filter]
  apply List.filter_congr
  intro ti _
  by_cases own : ti.runID = r.runID
  · simp [own, apart]
  · simp [own]

theorem pruned_events {r : DagRun} (kept : r ∈ (db.pruneRuns cutoff).2.runs) (e : Event) (own : e.key = .run r.runID) :
    e ∈ (db.pruneRuns cutoff).2.events ↔ e ∈ db.events := by
  rw [DB.mem_pruneRuns_events]
  constructor
  · exact fun stays => stays.1
  · refine fun stored => ⟨stored, ?_⟩
    rintro ⟨_, id, gone, same⟩
    rw [own] at same
    cases same
    exact DB.not_mem_prunedIDs kept gone

theorem mem_pruned (id : RunID) (dag : DagID) : (id, dag) ∈ (db.pruneRuns cutoff).1 ↔
    ∃ r ∈ db.runs, r.runID = id ∧ r.dagID = dag ∧ r ∉ (db.pruneRuns cutoff).2.runs := by
  have listed : (id, dag) ∈ (db.pruneRuns cutoff).1 ↔ ∃ r ∈ db.pruneCandidates cutoff, (r.runID, r.dagID) = (id, dag) :=
    List.mem_map
  rw [listed]
  apply exists_congr
  intro r
  rw [DB.mem_pruneRuns, DB.pruneCandidates, List.mem_filter, Prod.mk.injEq]
  constructor
  · rintro ⟨⟨stored, gone⟩, run, owner⟩
    exact ⟨stored, run, owner, fun kept => by simp [gone] at kept⟩
  · rintro ⟨stored, run, owner, gone⟩
    exact ⟨⟨stored, by simpa [show r ∈ db.runs from stored] using gone⟩, run, owner⟩

theorem pruned_nodup : (db.pruneRuns cutoff).1.Nodup := by
  have ids : (db.runs.rows.map (·.runID)).Nodup := by
    have distinct := List.pairwise_map.mp db.runs.distinct
    exact List.pairwise_map.mpr (distinct.imp fun apart => apart.1)
  have pairs : ((db.pruneRuns cutoff).1.map (·.1)).Nodup := by
    simp only [DB.pruneRuns, List.map_map]
    exact ids.sublist (List.filter_sublist.map _)
  exact pairs.of_map _

end Rows

/-- Pruning never disturbs scheduling. -/
theorem prune_undisturbed (db : DB) (cutoff : Time) :
    (∀ r ∈ db.runs, r.state.isActive = true → r ∈ (db.pruneRuns cutoff).2.runs) ∧
    (∀ dag r, db.latestScheduledRun dag = .ok r → r ∈ (db.pruneRuns cutoff).2.runs) ∧
    (∀ dag, ∀ r ∈ db.scheduledRuns dag,
      (∀ x ∈ db.scheduledRuns dag, OnTheSecond x.logicalDate ∧ x.logicalDate ≤ r.logicalDate) →
      r ∈ (db.pruneRuns cutoff).2.runs) ∧
    (∀ w : World, w.db = db → ∀ d a, a.served = true →
      ((scheduleAnchor d).run (World.respond a) (w.pruned cutoff)).1 = ((scheduleAnchor d).run (World.respond a) w).1 ∧
      (∀ schedule, (w.pruned cutoff).nextPeriod d schedule = w.nextPeriod d schedule) ∧
      ∀ points now, (w.pruned cutoff).duePeriods d points now = w.duePeriods d points now) ∧
    (∀ r ∈ (db.pruneRuns cutoff).2.runs, r ∈ db.runs ∧
      (db.pruneRuns cutoff).2.listTaskInstances r.runID = db.listTaskInstances r.runID ∧
      ∀ e : Event, e.key = .run r.runID → (e ∈ (db.pruneRuns cutoff).2.events ↔ e ∈ db.events)) ∧
    (∀ e : Event, e.source = .external → (e ∈ (db.pruneRuns cutoff).2.events ↔ e ∈ db.events)) ∧
    ((db.pruneRuns cutoff).1.Nodup ∧ ∀ id dag, (id, dag) ∈ (db.pruneRuns cutoff).1 ↔
      ∃ r ∈ db.runs, r.runID = id ∧ r.dagID = dag ∧ r ∉ (db.pruneRuns cutoff).2.runs) ∧
    (db.pruneRuns cutoff).2.pruneRuns cutoff = ([], (db.pruneRuns cutoff).2) := by
  refine ⟨fun r stored active => DB.pruneRuns_active active stored, fun dag r found => latest_kept found,
    fun dag r member newest => newest_date_kept member newest, ?_, ?_, ?_, ⟨pruned_nodup, mem_pruned⟩,
    DB.pruneRuns_again db cutoff⟩
  · rintro w rfl d a served
    refine ⟨?_, fun schedule => ?_, fun points now => ?_⟩
    · rw [scheduleAnchor_run served, scheduleAnchor_run served, World.anchor_pruned]
    · rw [World.nextPeriod, World.nextPeriod, World.anchor_pruned]
    · rw [World.duePeriods, World.duePeriods, World.anchor_pruned]
  · intro r kept
    exact ⟨(DB.mem_pruneRuns.mp kept).1, pruned_instances kept, fun e own => pruned_events kept e own⟩
  · intro e external
    rw [DB.mem_pruneRuns_events]
    simp [external]

end Cronova.Scheduler
