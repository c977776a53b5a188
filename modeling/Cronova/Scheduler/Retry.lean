import Cronova.Scheduler.Reset
import Cronova.Scheduler.Schedule

/-! The operator's retries as a whole: exactly which task instances they reset, and which
cancelled runs can be retried at all. -/

set_option autoImplicit false

namespace Cronova.Scheduler

open Model Store Process
open Calendar (Time)

/-! ### The subtree of a retry -/

namespace OperatorRetry

variable {run : RunID} {d : DAG} {db : DB} {id : TaskID}

/-- The task is the one retried or downstream of it; `RetryRun` starts from every task of the
definition that has not succeeded. -/
def Affects (run : RunID) (d : DAG) (db : DB) : OperatorRetry → TaskID → Prop
  | .task t, id => Downstream d.tasks t id
  | .run, id => ∃ t ∈ taskIDSet d.tasks, (∃ ti, db.instance? ⟨run, t⟩ = some ti ∧ needsRetry ti.state = true) ∧
    Downstream d.tasks t id

/-- There is something to retry. -/
def Possible (run : RunID) (d : DAG) (db : DB) : OperatorRetry → Prop
  | .task t => (db.instance? ⟨run, t⟩).isSome ∧ t ∈ taskIDSet d.tasks
  | .run => ∃ t ∈ taskIDSet d.tasks, ∃ ti, db.instance? ⟨run, t⟩ = some ti ∧ needsRetry ti.state = true

theorem mem_listed {ti : TaskInstance} : ti ∈ db.listTaskInstances run ↔
    ∃ task, db.instance? ⟨run, task⟩ = some ti ∧ ti.taskID = task := by
  rw [DB.mem_listTaskInstances]
  constructor
  · rintro ⟨stored, rfl⟩
    exact ⟨ti.taskID, stored, rfl⟩
  · rintro ⟨_, stored, rfl⟩
    have key := (DB.instance?_some stored).2
    exact ⟨by rw [key]; exact stored, congrArg InstanceKey.run key⟩

theorem mem_resets_run : id ∈ retryIDs d (db.listTaskInstances run) ↔ Affects run d db .run id := by
  rw [mem_retryIDs]
  constructor
  · rintro ⟨ti, listed, valid, needs, down⟩
    obtain ⟨_, stored, rfl⟩ := mem_listed.mp listed
    exact ⟨ti.taskID, valid, ⟨ti, stored, needs⟩, down⟩
  · rintro ⟨t, valid, ⟨ti, stored, needs⟩, down⟩
    have own : ti.taskID = t := congrArg InstanceKey.task (DB.instance?_some stored).2
    subst own
    exact ⟨ti, mem_listed.mpr ⟨_, stored, rfl⟩, valid, needs, down⟩

theorem starts_iff (retry : OperatorRetry) : retry.Starts d (db.listTaskInstances run) ↔ retry.Possible run d db := by
  cases retry with
  | task t =>
    show (ByTask.get _ t).isSome ∧ _ ↔ _
    rw [get_listTaskInstances]
    exact Iff.rfl
  | run =>
    show retryIDs _ _ ≠ [] ↔ _
    constructor
    · intro some
      obtain ⟨id, rest, listed⟩ := List.exists_cons_of_ne_nil some
      have member : id ∈ retryIDs d (db.listTaskInstances run) := by simp [listed]
      obtain ⟨t, valid, needs, _⟩ := mem_resets_run.mp member
      exact ⟨t, valid, needs⟩
    · rintro ⟨t, valid, needs⟩
      have member : t ∈ retryIDs d (db.listTaskInstances run) := mem_resets_run.mpr ⟨t, valid, needs, .refl⟩
      exact List.ne_nil_of_mem member

theorem mem_resets (retry : OperatorRetry) (starts : retry.Starts d (db.listTaskInstances run)) :
    id ∈ retry.resets d (db.listTaskInstances run) ↔ retry.Affects run d db id := by
  cases retry with
  | task t => exact mem_intersect_closure starts.2
  | run => exact mem_resets_run

end OperatorRetry

/-- The errors with which a retry declines. -/
def Failure.declines : Failure → Prop
  | .nothingToRetry | .runStillActive | .store .notFound => True
  | _ => False

/-- A retry resets exactly the affected subtree. If it succeeds, the run was over, and the store
is `Reopened` for the tasks downstream of the retried ones, with a start time from the clock. If
it declines, nothing in the store has changed. If the database serves and there is something to
retry, it succeeds. -/
theorem retry_resets_subtree (env : Env) (run : RunID) (retry : OperatorRetry) (w : World) (answers : List Answer) :
    (((retry.act env run).run World.replay (w, answers)).1 = .ok () → ∃ row d, Target w run row d ∧ retry.Possible run d w.db ∧
      ∃ a ∈ ({} : Answer) :: answers, Reopened run row d.definitionYAML (env.hash d.definitionYAML) d (retry.Affects run d w.db)
        w.db ((retry.act env run).run World.replay (w, answers)).2.1.db a.now) ∧
    (∀ e, ((retry.act env run).run World.replay (w, answers)).1 = .error e → e.declines →
      ((retry.act env run).run World.replay (w, answers)).2.1.db = w.db) ∧
    ((∀ a ∈ answers, a.served = true) → ∀ row d, Target w run row d → retry.Possible run d w.db →
      ((retry.act env run).run World.replay (w, answers)).1 = .ok ()) := by
  refine ⟨fun ok => ?_, fun e failed declines => ?_, fun served row d target possible => ?_⟩
  · -- the invariant of the run: the answers that are left are answers of the list
    have ended := (retry.act_ends env run (fun s => ∀ a ∈ s.2, a ∈ answers) (w, answers)).runs_on
      replay_left (fun _ member => member)
    rw [ok] at ended
    obtain ⟨row, d, now, target, starts, ⟨s, among, rfl⟩, reopened⟩ := ended
    refine ⟨row, d, target, retry.starts_iff.mp starts, s.2.headD {}, ?_, ?_⟩
    · cases left : s.2 with
      | nil => exact .head _
      | cons a rest => exact .tail _ (among a (by simp [left]))
    · have same : (fun id => id ∈ retry.resets d (w.db.listTaskInstances run)) = retry.Affects run d w.db :=
        funext fun id => propext (retry.mem_resets starts)
      rwa [same] at reopened
  · have ended := (retry.act_ends env run (fun _ => True) (w, answers)).runs_on (fun _ _ _ => trivial) trivial
    rw [failed] at ended
    rcases ended with ⟨rfl, _⟩ | ⟨same, _⟩
    · exact declines.elim
    · exact same
  · have ended := (retry.act_ends env run Served (w, answers)).runs_on replay_left served
    revert ended
    cases ((retry.act env run).run World.replay (w, answers)).1 with
    | ok _ => exact fun _ => rfl
    | error e =>
      rintro (⟨_, unreliable⟩ | ⟨_, none⟩)
      · exact absurd Served.reliable unreliable
      · exact absurd (retry.starts_iff.mpr possible) (none row d target)

/-! ### Cancelled runs -/

/-- A cancelled run whose DAG is cached can be retried exactly if some task of the definition has
an instance that did not succeed. -/
theorem cancelled_retry_iff (env : Env) (w : World) (answers : List Answer) (served : ∀ a ∈ answers, a.served = true)
    {run : RunID} {row : DagRun} {cached : CachedDAG} (found : w.db.run? run = some row) (cancelled : row.state = .cancelled)
    (known : w.cached row.dagID = some cached) :
    (((retryRun env run).run World.replay (w, answers)).1 = .ok () ∧
      (((retryRun env run).run World.replay (w, answers)).2.1.db.run? run).map (·.state) = some .running) ↔
    ∃ t ∈ taskIDSet cached.dag.tasks, ∃ ti, w.db.instance? ⟨run, t⟩ = some ti ∧ needsRetry ti.state = true := by
  have target : Target w run row cached.dag := ⟨found, by rw [cancelled]; rfl, cached, known, rfl⟩
  have ended := (OperatorRetry.act_ends env run Served .run (w, answers)).runs_on replay_left served
  change OperatorRetry.Ends env .run run Served w ((retryRun env run).run World.replay (w, answers)).1
    ((retryRun env run).run World.replay (w, answers)).2.1 at ended
  revert ended
  cases ((retryRun env run).run World.replay (w, answers)).1 with
  | ok _ =>
    rintro ⟨row', d, now, target', starts, _, reopened⟩
    obtain ⟨rfl, rfl⟩ := target.unique target'
    refine ⟨fun _ => (OperatorRetry.starts_iff .run).mp starts, fun _ => ⟨rfl, ?_⟩⟩
    rw [reopened.running]
    rfl
  | error e =>
    rintro (⟨_, unreliable⟩ | ⟨_, none⟩)
    · exact absurd Served.reliable unreliable
    · refine ⟨fun both => absurd both.1 (by simp), fun possible => ?_⟩
      exact absurd ((OperatorRetry.starts_iff .run).mpr possible) (none row cached.dag target)

/-- A run of the hour, in this state. -/
def hourRun (state : RunState) : DagRun :=
  { runID := .logical "report" hour, dagID := "report", logicalDate := hour, state, triggerType := .schedule }

/-- A cancelled run whose only task was cancelled with it. -/
def cancelledWorld : World :=
  { hourlyWorld ⟨[hourRun .cancelled], List.pairwise_singleton _ _⟩ with
    db := { DB.empty with
      runs := ⟨[hourRun .cancelled], List.pairwise_singleton _ _⟩
      taskInstances := ⟨[{ runID := .logical "report" hour, taskID := "load", state := .cancelled }], List.pairwise_singleton _ _⟩ } }

theorem cancelled_task_retried : ((retryRun hourlyEnv (.logical "report" hour)).run World.replay (cancelledWorld, [])).1 = .ok () ∧
    (((retryRun hourlyEnv (.logical "report" hour)).run World.replay (cancelledWorld, [])).2.1.db.run?
      (.logical "report" hour)).map (·.state) = some .running :=
  (@cancelled_retry_iff hourlyEnv cancelledWorld [] (by simp) _ (hourRun .cancelled) ⟨report, some hourly⟩
    rfl rfl rfl).mpr ⟨"load", by decide, _, rfl, rfl⟩

/-- A run that is cancelled while it waits has no task instances, and is never retried. -/
theorem waiting_run_lost : ¬ ∀ (env : Env) (w : World) (run : RunID) (row : DagRun) (cached : CachedDAG),
    ((cancelRun run).run World.replay (w, [])).1 = .ok () →
    ((cancelRun run).run World.replay (w, [])).2.1.db.run? run = some row → row.state = .cancelled →
    ((cancelRun run).run World.replay (w, [])).2.1.cached row.dagID = some cached → cached.dag.tasks ≠ [] →
    ((retryRun env run).run World.replay (((cancelRun run).run World.replay (w, [])).2.1, [])).1 = .ok () := by
  intro claim
  have retried := claim hourlyEnv (hourlyWorld ⟨[hourRun .queued], List.pairwise_singleton _ _⟩) (.logical "report" hour)
    { hourRun .cancelled with finishedAt := some 0 } ⟨report, some hourly⟩ rfl rfl rfl rfl (by decide)
  have declined : ((retryRun hourlyEnv (.logical "report" hour)).run World.replay (((cancelRun (.logical "report" hour)).run
      World.replay (hourlyWorld ⟨[hourRun .queued], List.pairwise_singleton _ _⟩, [])).2.1, [])).1 =
      .error .nothingToRetry := rfl
  rw [declined] at retried
  cases retried

end Cronova.Scheduler
