import Cronova.Model.RunDecoding
import Cronova.Scheduler.Creation
import Cronova.Scheduler.Delivery
import Cronova.Scheduler.Run
import Cronova.Store.Effects

/-! The names of the runs that the scheduler creates: what a clash of two of them means. -/

set_option autoImplicit false

namespace Cronova.Scheduler

open Model Store
open Calendar (Time)

variable {env : Env} {row run : DagRun} {db : DB}

/-- The runs as the creating functions build them. -/
inductive Built (env : Env) : DagRun → Prop where
  | scheduled (d snapshot : DAG) (next : Time) : Built env (scheduledRun env d next snapshot)
  | dependency (d : DAG) (dn : DagID) (date : Time) : Built env (dependencyRun env d dn date)
  | manual (d : DAG) (dag : DagID) (now : Time) (params : Params) (priority : Int) : Built env (snapshotRun env
      { runID := .manual dag now, dagID := dag, logicalDate := now, triggerType := .manual, params, priority } d)
  | child (parent : DagRun) (t : Task) (now : Time) : Built env (childRun parent t now)
  | backfill (d : DAG) (date : Time) : Built env (backfillRun env d date)
  | event (d : DAG) (event : Event) (key : String) (date : Time) : Built env (eventRun env d event key date)

theorem Built.dag (built : Built env run) : run.runID.dag = run.dagID := by
  cases built <;> rfl

/-- The column of the primary key, as it is stored. -/
def primaryKey (r : DagRun) : String := r.runID.text

/-- One DAG, one form and one key. -/
structure SameRun (row run : DagRun) : Prop where
  dag : row.dagID = run.dagID
  form : row.runID.word = run.runID.word
  key : row.runID.number = run.runID.number
  id : row.runID = run.runID

theorem Built.same (old : Built env row) (new : Built env run) (keys : primaryKey row = primaryKey run) : SameRun row run := by
  obtain ⟨dag, form, key⟩ := RunID.text_parts keys
  refine ⟨?_, form, key, RunID.text_injective keys⟩
  rw [← old.dag, ← new.dag, dag]

/-- A refused creation has met its own primary key, or the other uniqueness constraint. -/
theorem refused_by_key {global : Int} (refused : db.createDagRunBounded run global = .error .alreadyExists) :
    ∃ row ∈ db.runs, primaryKey row = primaryKey run ∨ (row.dagID = run.dagID ∧ row.logicalDate = run.logicalDate) := by
  obtain ⟨row, stored, clash⟩ := DB.createDagRunBounded_exists refused
  refine ⟨row, stored, ?_⟩
  by_cases same : row.runID = run.runID
  · exact .inl (congrArg RunID.text same)
  · by_contra neither
    exact clash ⟨same, fun unique => neither (.inr unique)⟩

/-- Run ids are known from their texts. Two runs that the scheduler builds under one primary key are one
logical run, and a creation that is refused has met such a run or one of its own DAG and date. -/
theorem run_ids_never_collide : (∀ r s : RunID, r.text = s.text → r.dag = s.dag ∧ r.word = s.word ∧ r.number = s.number ∧ r = s) ∧
    (∀ (env : Env) (row run : DagRun), Built env row → Built env run → primaryKey row = primaryKey run → SameRun row run) ∧
    ∀ (db : DB) (run : DagRun) (global : Int), db.createDagRunBounded run global = .error .alreadyExists →
      ∃ row ∈ db.runs, row.runID = run.runID ∨ (row.dagID = run.dagID ∧ row.logicalDate = run.logicalDate) := by
  refine ⟨fun r s same => ?_, fun env row run old new keys => old.same new keys, fun db run global refused => ?_⟩
  · obtain ⟨dag, form, key⟩ := RunID.text_parts same
    exact ⟨dag, form, key, RunID.text_injective same⟩
  · obtain ⟨row, stored, clash⟩ := refused_by_key refused
    exact ⟨row, stored, clash.imp_left fun keys => RunID.text_injective keys⟩

theorem same_clock_same_run : (RunID.manual "etl" 7) = RunID.manual "etl" 7 :=
  (run_ids_never_collide.1 (.manual "etl" 7) (.manual "etl" 7) rfl).2.2.2

end Cronova.Scheduler
