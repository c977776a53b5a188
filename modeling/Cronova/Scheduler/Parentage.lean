import Cronova.Scheduler.Deadline

/-! Which requests create runs with a parent: of all of them only the tick does. -/

set_option autoImplicit false

namespace Cronova.Scheduler

open Model Store Process
open Prog (Issues Yields)
open Calendar (Time)

theorem Op.parentless_of_none {o : Op} (none : o.creation = none) : o.Parentless := by
  intro run creates
  rw [none] at creates
  cases creates

theorem Op.delivers_parentless {o : Op} (delivers : o.delivers = true) : o.Parentless := by
  cases o with
  | createDagRunBounded run | createManualDagRunBounded run =>
    intro other creates
    cases creates
    exact Option.isNone_iff_eq_none.mp delivers
  | _ => exact parentless_of_none rfl

theorem Op.ofAttempt_parentless {o : Op} (own : o.ofAttempt) : o.Parentless := by
  cases o with
  | createDagRunBounded | createManualDagRunBounded => exact own.elim
  | _ => exact parentless_of_none rfl

section Programs

variable {A : Type} {p : Act A}

theorem Conveying.parentless (conveys : Conveying p) : Parentless p := Yields.permits conveys fun _ => Op.delivers_parentless

theorem Attempting.parentless (attempts : Attempting p) : Parentless p := Yields.permits attempts fun _ => Op.ofAttempt_parentless

/-- A section whose body creates no child runs. -/
theorem locked_parentless {what : Section} {body : Act A} (parentless : Parentless body) : Parentless (locked what body) :=
  locked_issues (Op.parentless_of_none rfl) (Op.parentless_of_none rfl) parentless

variable (env : Env)

/-! ### The start of the process -/

/-- The guarded write that marks the row as running, and what follows it. -/
theorem marked_parentless (ti : TaskInstance) (started : Time) : Parentless (do
    let ti := { ti with state := .running, startedAt := some started }
    match ← (updateTaskInstanceGuarded ti ti.executorRef).attempt with
    | .error _ => pure ()
    | .ok false => perform (.cancel ti.executorRef)
    | .ok true => reattach ti : Act Unit) := by
  refine Issues.bind (plain_attempt rfl).parentless fun marked => ?_
  cases marked with
  | error _ => exact Issues.pure _
  | ok applied =>
    cases applied with
    | false => exact (plain_perform rfl).parentless
    | true => exact (plain_perform rfl).parentless

theorem recoverQueued_parentless (ti : TaskInstance) : Parentless (recoverQueued env ti) := by
  refine Issues.bind (plain_perform rfl).parentless fun status => ?_
  cases status with
  | none => exact Issues.pure _
  | some status =>
    cases status with
    | exited code => exact (finalizeTask_attempting env ti code).parentless
    | unknown => exact Issues.bind (plain_attempt rfl).parentless fun _ => Issues.pure _
    | running =>
      dsimp only
      cases ti.startedAt with
      | some started => exact Issues.bind (Issues.pure started) (marked_parentless ti)
      | none => exact Issues.bind (plain_perform rfl).parentless (marked_parentless ti)

theorem recoverRunning_parentless (ti : TaskInstance) : Parentless (recoverRunning env ti) := by
  refine Issues.bind (plain_perform rfl).parentless fun status => ?_
  match status with
  | none => exact Issues.pure _
  | some (.exited code) => exact (finalizeTask_attempting env ti code).parentless
  | some .running => exact (plain_perform rfl).parentless
  | some .unknown => exact Issues.bind (recordFailure_attempting ti).parentless fun _ => Issues.pure _

theorem recover_parentless : Parentless (recover env) := by
  refine Issues.bind (plain_ask rfl).parentless fun queued => ?_
  refine Issues.bind (Issues.forEach (recoverQueued_parentless env)) fun _ => ?_
  exact Issues.bind (plain_ask rfl).parentless fun running => Issues.forEach (recoverRunning_parentless env)

/-! ### The operators' overrides -/

theorem retryTask_parentless (run : RunID) (task : TaskID) : Parentless (retryTask env run task) := by
  refine locked_parentless (Issues.bind (retryContext_mild run).plain.parentless fun context => ?_)
  dsimp only
  split
  · exact Yields.fail _
  · refine Issues.bind (prepareRetryDefinition_mild env _ _ _ _).plain.parentless fun byTask => ?_
    exact (clearAndReactivate_mild _ _ _).plain.parentless

theorem releaseDownstream_parentless (byTask : ByTask) (task : TaskID) (ids : List TaskID) :
    Parentless (releaseDownstream byTask task ids) := by
  refine Issues.forEach fun id => ?_
  split
  · exact Issues.pure _
  · split
    · exact Issues.pure _
    · exact (plain_ask rfl).parentless

theorem markTaskLocked_parentless (run : RunID) (task : TaskID) (target : TaskState) : Parentless (markTaskLocked env run task target) := by
  refine Issues.bind (plain_ask rfl).parentless fun found => ?_
  refine Yields.after (Plain.parentless ((dagForRun_plain env found).mono fun _ _ => trivial)) fun defined => ?_
  refine Issues.bind (plain_ask rfl).parentless fun byTask => ?_
  split
  · exact Yields.fail _
  · dsimp only
    split
    · exact Yields.fail _
    · rename_i ti _ _
      refine Issues.bind (plain_perform rfl).parentless fun now => ?_
      have ends : Parentless (do
          updateTaskInstance { ti with state := target, finishedAt := some now }
          if found.state.isTerminal then updateDagRunState run .running (some now) none : Act Unit) := by
        refine Issues.bind (plain_ask rfl).parentless fun _ => ?_
        split
        · exact (plain_ask rfl).parentless
        · exact Issues.pure _
      have goesOn : Parentless (if target = .success ∨ target = .skipped then do
            let ids ← perform (.order (intersect (downstreamClosure defined.1.tasks task) (taskIDSet defined.1.tasks)))
            releaseDownstream byTask task ids
            updateTaskInstance { ti with state := target, finishedAt := some now }
            if found.state.isTerminal then updateDagRunState run .running (some now) none
          else do
            updateTaskInstance { ti with state := target, finishedAt := some now }
            if found.state.isTerminal then updateDagRunState run .running (some now) none : Act Unit) := by
        split
        · refine Issues.bind (plain_perform rfl).parentless fun ids => ?_
          exact Issues.bind (releaseDownstream_parentless byTask task ids) fun _ => ends
        · exact ends
      split
      · have cancels : Parentless (cancelAttempt cascade ti.executorRef) :=
          (cancelAttempt_cancels cascade_cancels ti.executorRef).mild.plain.parentless
        exact Issues.bind cancels fun _ => goesOn
      · exact goesOn

theorem markTask_parentless (run : RunID) (task : TaskID) (target : TaskState) : Parentless (markTask env run task target) := by
  unfold markTask
  split
  · exact Yields.fail _
  · exact locked_parentless (markTaskLocked_parentless env run task target)

theorem markRunLocked_parentless (run : RunID) (target : RunState) : Parentless (markRunLocked env run target) := by
  refine Issues.bind (plain_ask rfl).parentless fun found => ?_
  split
  · exact Yields.fail _
  · split
    · exact Issues.pure _
    · have ends (fin : Time) : Parentless (if target = .success then do
            updateDagRunSuccess run found.startedAt (some fin)
            processPendingDependencyEvents env
          else updateDagRunState run target found.startedAt (some fin) : Act Unit) := by
        split
        · exact Issues.bind (plain_ask rfl).parentless fun _ => (processPendingDependencyEvents_delivers env).parentless
        · exact (plain_ask rfl).parentless
      dsimp only
      cases found.finishedAt with
      | some fin => exact Issues.bind (Issues.pure fin) ends
      | none => exact Issues.bind (plain_perform rfl).parentless ends

theorem markRun_parentless (run : RunID) (target : RunState) : Parentless (markRun env run target) := by
  unfold markRun
  split
  · exact Yields.fail _
  · exact locked_parentless (markRunLocked_parentless env run target)

/-! ### The operators' runs -/

theorem triggerManual_parentless (dag : DagID) (params : Params) (priority : Int) :
    Parentless (triggerManual env dag params priority) := by
  refine Issues.bind (plain_perform rfl).parentless fun cached => ?_
  cases cached with
  | none => exact Yields.fail _
  | some cached =>
    dsimp only
    split
    · exact Yields.fail _
    · refine Issues.bind (plain_perform rfl).parentless fun now => issues_ask ?_
      exact Op.delivers_parentless rfl

theorem backfill_parentless (dag : DagID) (from_ until_ : Time) : Parentless (backfill env dag from_ until_) := by
  refine Issues.bind (plain_perform rfl).parentless fun cached => ?_
  cases cached with
  | none => exact Yields.fail _
  | some cached =>
    dsimp only
    split
    · exact Yields.fail _
    · split
      · exact Yields.fail _
      · split
        · exact Yields.fail _
        · refine Issues.bind (plain_perform rfl).parentless fun now => ?_
          split
          · split
            · exact Yields.fail _
            · refine Issues.forEach fun t => ?_
              refine Issues.bind (Issues.attempt (issues_ask (Op.delivers_parentless rfl))) fun created => ?_
              split
              · exact Issues.pure _
              · exact Issues.pure _
              · exact Yields.fail _
          · exact Yields.fail _

/-! ### Edits of definitions -/

theorem ensurePools_plain (d : DAG) : Plain (ensurePools d) := by
  refine Issues.bind (Issues.fold fun seen t => ?_) fun _ => Issues.pure _
  split
  · exact Issues.pure _
  · refine Issues.bind (plain_attempt rfl) fun pool => ?_
    split
    · exact Issues.pure _
    · exact Issues.bind (plain_ask rfl) fun _ => Issues.pure _
    · exact Yields.fail _

theorem registerDAG_plain (d : DAG) : Plain (registerDAG env d) := by
  refine Issues.bind (plain_ask rfl) fun _ => Issues.bind (ensurePools_plain d) fun _ => Issues.bind (plain_ask rfl) fun _ => ?_
  refine Issues.bind ?_ fun schedule => plain_perform rfl
  unfold scheduleOf
  split
  · exact Issues.pure _
  · split
    · exact Issues.pure _
    · exact Yields.fail _

theorem loadDAG_plain (raw : String) : Plain (loadDAG env raw) := by
  unfold loadDAG
  split
  · exact Issues.pure _
  · refine Issues.bind (plain_attempt rfl) fun stored => ?_
    split
    · exact issues_logged (registerDAG_plain env _)
    · split
      · exact Issues.pure _
      · exact issues_logged (registerDAG_plain env _)

theorem reloadDAG_plain (raw : String) : Plain (reloadDAG env raw) := by
  unfold reloadDAG
  split
  · exact Issues.pure _
  · refine Issues.bind (plain_attempt rfl) fun stored => ?_
    split
    · exact issues_logged (registerDAG_plain env _)
    · split
      · exact Issues.pure _
      · split
        · exact issues_logged (registerDAG_plain env _)
        · refine Issues.bind (plain_perform rfl) fun cached => ?_
          split
          · exact Issues.pure _
          · exact issues_logged (registerDAG_plain env _)

theorem deleteDAG_plain (dag : DagID) : Plain (deleteDAG dag) := by
  refine Issues.bind (plain_ask rfl) fun active => ?_
  split
  · exact Yields.fail _
  · exact Issues.bind (plain_ask rfl) fun _ => plain_perform rfl

end Programs

/-- Every request but the tick. -/
theorem serve_parentless (env : Env) {request : Request} (other : request ≠ .tick) : Parentless (serve env request) := by
  cases request with
  | recover => exact recover_parentless env
  | tick => exact absurd rfl other
  | cancelRun run => exact locked_parentless (cascade_cancels run).mild.plain.parentless
  | retryTask run task => exact retryTask_parentless env run task
  | retryRun run => exact locked_parentless (retryRunLocked_mild env run).plain.parentless
  | markTask run task target => exact markTask_parentless env run task target
  | markRun run target => exact markRun_parentless env run target
  | triggerManual dag params priority => exact triggerManual_parentless env dag params priority
  | backfill dag from_ until_ => exact backfill_parentless env dag from_ until_
  | publishEvent key payload => exact Issues.bind (plain_ask rfl).parentless fun _ => Issues.pure _
  | createDAG yaml => exact Plain.parentless (Issues.bind (parseDefinition_plain env yaml) fun d => registerDAG_plain env d)
  | loadDAGs files => exact Plain.parentless (Issues.forEach (loadDAG_plain env))
  | reloadDAGs files => exact Plain.parentless (Issues.forEach (reloadDAG_plain env))
  | deleteDAG dag => exact (deleteDAG_plain dag).parentless
  | setPaused dag paused => exact Issues.bind (plain_ask rfl).parentless fun _ => (plain_perform rfl).parentless
  | goroutine task epoch => exact (goroutine_attempting env task epoch).parentless

end Cronova.Scheduler
