import Cronova.Scheduler.Expansion
import Cronova.Scheduler.Recovery
import Cronova.Scheduler.Reset

/-! The retry budget of a task after an operator's retry: how many attempts fail until the
task enters `failed`. -/

set_option autoImplicit false

namespace Cronova.Scheduler

open Model Store Process
open Calendar (Time)

/-! ### One failing attempt -/

/-- The row records the failure of an attempt as `recordFailure` decides it. -/
def Failed (row : TaskInstance) : Prop := row.state = .upForRetry ∨ row.state = .failed

/-- A write of an attempt: if it records a failure, the try number decides which. -/
structure Records (ti row : TaskInstance) : Prop where
  maxRetries : row.maxRetries = ti.maxRetries
  outcome : Failed row → row.tryNumber = ti.tryNumber ∧
    row.state = if ti.tryNumber ≤ ti.maxRetries then .upForRetry else .failed

/-- Every instance that the statement writes has the key and is good. -/
def writesOnly (key : InstanceKey) (good : TaskInstance → Prop) : Op → Prop
  | .updateTaskInstanceGuarded row _ | .updateTaskInstance row => row.key = key ∧ good row
  | .createTaskInstance _ => False
  | _ => True

/-- The promise of a program about the instances it writes; it may end with an error. -/
def Writes {A : Type} (key : InstanceKey) (good : TaskInstance → Prop) (p : Act A) : Prop :=
  p.Safe (Prog.blind (writesOnly key good)) (fun _ _ => True) ()

/-- The row after such a program, whatever the surroundings answered. -/
theorem Writes.stored {A : Type} {key : InstanceKey} {good : TaskInstance → Prop} {p : Act A} (writes : Writes key good p)
    {s : World × List Answer} {row : TaskInstance} (stored : s.1.db.instance? key = some row) (start : good row) :
    ∃ row, (p.run World.replay s).2.1.db.instance? key = some row ∧ good row := by
  let holds (s : World × List Answer) : Prop := ∃ row, s.1.db.instance? key = some row ∧ good row
  refine writes.run_keeps World.replay (fun s t => holds s → holds t) (fun _ held => held)
    (fun _ _ _ first second held => second (first held)) ?_ s ⟨row, stored, start⟩
  rintro o s may ⟨row, stored, kept⟩
  obtain ⟨reply, t, stepped⟩ : ∃ reply t, World.replay o s = (reply, t) := ⟨_, _, rfl⟩
  rw [stepped]
  have rewritten (x : TaskInstance) (guard : TaskInstance → Bool) (own : x.key = key ∧ good x)
      (after : t.1.db = s.1.db.writeInstance x guard) : holds t := by
    unfold holds
    rw [after, DB.instance?_writeInstance_own own.1, stored, Option.map_some]
    split
    · exact ⟨x, rfl, own.2⟩
    · exact ⟨row, rfl, kept⟩
  have unchanged (same : t.1.db.taskInstances = s.1.db.taskInstances) : holds t := by
    refine ⟨row, ?_, kept⟩
    rw [DB.instance?, same]
    exact stored
  rcases World.replay_step stepped with ⟨a, _, performed⟩ | ⟨_, same⟩
  · obtain ⟨_, _, _, same | written⟩ := World.perform_some performed
    · exact unchanged (by rw [same])
    · cases o with
      | updateTaskInstanceGuarded x ref => exact rewritten x _ may (Option.some.inj written).symm
      | updateTaskInstance x => exact rewritten x _ may (DB.updateTaskInstance_ok (ok_of_toOption written)).2
      | createTaskInstance x => exact may.elim
      | _ => exact unchanged (Op.writes_instances written rfl)
  · exact unchanged (by rw [same])

section Attempt

variable {env : Env} {ti row : TaskInstance}

/-- The promise of an attempt's program. -/
abbrev OnlyRecords {A : Type} (ti : TaskInstance) (p : Act A) : Prop := Writes ti.key (Records ti) p

/-- A copy of the row that belongs to the same attempt. -/
structure SameAttempt (ti row : TaskInstance) : Prop where
  key : row.key = ti.key
  tryNumber : row.tryNumber = ti.tryNumber
  maxRetries : row.maxRetries = ti.maxRetries

theorem Records.other (budget : row.maxRetries = ti.maxRetries)
    (other : row.state ≠ .upForRetry ∧ row.state ≠ .failed) : Records ti row :=
  ⟨budget, fun failed => failed.elim (fun state => absurd state other.1) fun state => absurd state other.2⟩

theorem updateGuarded_records {A : Type} {ref : ExecutorRef} {k : Except Failure Bool → Act A} (own : row.key = ti.key)
    (records : Records ti row) (next : ∀ reply, OnlyRecords ti (k reply)) :
    OnlyRecords ti ((updateTaskInstanceGuarded row ref).attempt.bind k) := by
  intro _ _ _
  refine ⟨⟨own, records⟩, fun reply _ _ _ => ?_⟩
  cases reply with
  | ok applied => exact next (.ok applied)
  | error e => exact next (.error (.store e))

theorem finalizeWrite_records (own : row.key = ti.key) (records : Records ti row) : OnlyRecords ti (finalizeWrite row) :=
  updateGuarded_records own records fun _ => trivial

theorem recordFailure_records (same : SameAttempt ti row) : OnlyRecords ti (recordFailure row) := by
  refine Prog.Safe.issue trivial fun now => ?_
  refine Prog.Safe.bind _ (finalizeWrite_records same.key ?_) (fun _ _ _ => trivial) fun _ _ _ => trivial
  refine ⟨same.maxRetries, fun _ => ⟨same.tryNumber, ?_⟩⟩
  dsimp only
  rw [same.tryNumber, same.maxRetries]

theorem OnlyRecords.void {A : Type} {p : Act A} (only : OnlyRecords ti p) : OnlyRecords ti (p.bind fun _ => pure ()) :=
  Prog.Safe.bind _ only (fun _ _ _ => trivial) fun _ _ _ => trivial

theorem collectTaskOutput_records (row : TaskInstance) : OnlyRecords ti (collectTaskOutput env row) := by
  refine Prog.Safe.issue trivial fun output => ?_
  cases output with
  | none => trivial
  | some output =>
    show OnlyRecords ti (if validOutput env output = true then _ else _)
    split
    · refine fun _ _ _ => ⟨trivial, fun stored _ _ _ => ?_⟩
      cases stored <;> exact Prog.Safe.issue trivial fun _ => trivial
    · exact Prog.Safe.issue trivial fun _ => trivial

theorem finalizeTask_records (same : SameAttempt ti row) (code : Int) : OnlyRecords ti (finalizeTask env row code) := by
  unfold finalizeTask
  split
  · refine Prog.Safe.issue trivial fun now => ?_
    refine Prog.Safe.bind _ (finalizeWrite_records same.key (Records.other same.maxRetries ?_)) (fun _ _ _ => ?_)
      fun _ _ _ => trivial
    · dsimp only
      split
      · decide
      · decide
    · split
      · exact collectTaskOutput_records _
      · trivial
  · exact (recordFailure_records same).void

theorem awaitCompletion_records (same : SameAttempt ti row) : OnlyRecords ti (awaitCompletion env row) := by
  refine Prog.Safe.issue trivial fun outcome => ?_
  cases outcome with
  | lost => exact (recordFailure_records same).void
  | exited code => exact finalizeTask_records same code

theorem failUnlaunched_records (same : SameAttempt ti row) : OnlyRecords ti (failUnlaunched row) := by
  refine Prog.Safe.issue trivial fun now => ?_
  refine OnlyRecords.void ?_
  exact recordFailure_records ⟨same.key, same.tryNumber, same.maxRetries⟩

/-- The process is started: the row is marked as running and polled. -/
theorem marked_records (ti : TaskInstance) (now : Time) : OnlyRecords ti (do
    let ti := { ti with state := .running, startedAt := some now }
    match ← (updateTaskInstanceGuarded ti ti.executorRef).attempt with
    | .error _ => pure ()
    | .ok false => perform (.cancel ti.executorRef)
    | .ok true => awaitCompletion env ti) := by
  refine updateGuarded_records rfl ?_ fun applied => ?_
  · exact Records.other rfl (by simp)
  · cases applied with
    | error _ => trivial
    | ok applied =>
      cases applied with
      | false => exact Prog.Safe.issue trivial fun _ => trivial
      | true => exact awaitCompletion_records ⟨rfl, rfl, rfl⟩

/-- What follows the read of the row. -/
theorem launched_records (t : Task) (ti : TaskInstance) : OnlyRecords ti (do
    match ← perform (.launch t.workerGroup ti.executorRef) with
    | .noWorker => giveBack ti
    | .failed => failUnlaunched ti
    | .started =>
      let now ← timeNow
      let ti := { ti with state := .running, startedAt := some now }
      match ← (updateTaskInstanceGuarded ti ti.executorRef).attempt with
      | .error _ => pure ()
      | .ok false => perform (.cancel ti.executorRef)
      | .ok true => awaitCompletion env ti) := by
  refine Prog.Safe.issue trivial fun launch => ?_
  cases launch with
  | noWorker => exact updateGuarded_records rfl (Records.other rfl (by simp)) fun _ => trivial
  | failed => exact failUnlaunched_records ⟨rfl, rfl, rfl⟩
  | started => exact Prog.Safe.issue trivial (marked_records ti)

theorem launchTask_records (t : Task) (ti : TaskInstance) : OnlyRecords ti (launchTask env t ti) := by
  intro _ _ _
  refine ⟨trivial, fun reply _ _ _ => ?_⟩
  cases reply with
  | error _ => exact launched_records t ti
  | ok cur =>
    show OnlyRecords ti (if cur.state == .cancelled then _ else _)
    split
    · trivial
    · exact launched_records t ti

/-- What follows the staging of a task. -/
theorem staged_records (t : Task) (ti : TaskInstance) (ok : Bool) : OnlyRecords ti (if !ok then failUnlaunched ti else
    match t.type with
    | .shell | .jar | .python | .sql => launchTask env t ti
    | .http => if t.http then launchTask env t ti else failUnlaunched ti
    | .subdag | .other => failUnlaunched ti) := by
  have same : SameAttempt ti ti := ⟨rfl, rfl, rfl⟩
  split
  · exact failUnlaunched_records same
  · split
    · exact launchTask_records t ti
    · exact launchTask_records t ti
    · exact launchTask_records t ti
    · exact launchTask_records t ti
    · split
      · exact launchTask_records t ti
      · exact failUnlaunched_records same
    · exact failUnlaunched_records same
    · exact failUnlaunched_records same

theorem runTask_records (t : Task) (ti : TaskInstance) : OnlyRecords ti (runTask env t ti) := by
  unfold runTask
  dsimp only
  by_cases staging : t.type = .shell ∧ t.project ≠ ""
  · rw [if_pos staging]
    exact Prog.Safe.issue trivial (staged_records t ti)
  · rw [if_neg staging]
    exact staged_records t ti true

theorem mirrorSubdag_records (ti : TaskInstance) (now : Time) : OnlyRecords ti (mirrorSubdag ti now) := by
  have same : SameAttempt ti ti := ⟨rfl, rfl, rfl⟩
  unfold mirrorSubdag
  split
  · intro _ _ _
    refine ⟨trivial, fun reply _ _ _ => ?_⟩
    cases reply with
    | error _ => exact recordFailure_records same
    | ok run =>
      dsimp only [Prog.attempt, Prog.bind]
      split
      · exact Prog.Safe.bind _ (finalizeWrite_records rfl (Records.other rfl (by simp))) (fun _ _ _ => trivial)
          fun _ _ _ => trivial
      · exact recordFailure_records same
      · exact recordFailure_records same
      · exact recordFailure_records same
      · trivial
      · trivial
  · exact recordFailure_records same

end Attempt

/-! ### Sub-workflow attempts and requeues -/

section Between

variable {ti : TaskInstance}

/-- What the launch of a sub-workflow task leaves: a running row is one attempt further. -/
structure Attaches (ti row : TaskInstance) : Prop where
  maxRetries : row.maxRetries = ti.maxRetries
  charged : row.state = .running → row.tryNumber = ti.tryNumber + 1

theorem subdagDepthLoop_writes {key : InstanceKey} {good : TaskInstance → Prop} (rounds depth : Nat) (run : DagRun) :
    Writes key good (subdagDepthLoop rounds depth run) := by
  induction rounds generalizing depth run with
  | zero => trivial
  | succ rounds ih =>
    unfold subdagDepthLoop
    split
    · trivial
    · intro _ _ _
      refine ⟨trivial, fun reply _ _ _ => ?_⟩
      cases reply with
      | error e => trivial
      | ok parent => exact ih (depth + 1) parent

theorem launchSubdag_writes (env : Env) (run : DagRun) (t : Task) (fresh : ti.executorRef = .none) (now : Time) :
    Writes ti.key (Attaches ti) (launchSubdag env run t ti now) := by
  have write (row : TaskInstance) (own : row.key = ti.key) (attaches : Attaches ti row) :
      Writes ti.key (Attaches ti) (do
        updateTaskInstance row
        pure row) := by
    intro _ _ _
    refine ⟨⟨own, attaches⟩, fun reply _ _ _ => ?_⟩
    cases reply <;> trivial
  have attach (child : RunID) : Writes ti.key (Attaches ti) (do
      let ti := { ti with
        tryNumber := ti.tryNumber + 1, state := .running, startedAt := some now, executorRef := .subdag child }
      updateTaskInstance ti
      pure ti) := write _ rfl ⟨rfl, fun _ => rfl⟩
  refine Prog.Safe.bind _ (subdagDepthLoop_writes _ 0 run) (fun depth _ _ => ?_) fun _ _ _ => trivial
  split
  · exact write _ rfl ⟨rfl, fun _ => rfl⟩
  · refine Prog.Safe.issue trivial fun cached => ?_
    cases cached with
    | none => exact write _ rfl ⟨rfl, fun _ => rfl⟩
    | some _ =>
      rw [fresh]
      show Writes ti.key (Attaches ti) (Prog.bind (createDagRunBounded _ _).attempt _)
      intro _ _ _
      refine ⟨trivial, fun reply _ _ _ => ?_⟩
      cases reply with
      | ok _ => exact attach _
      | error e => cases e <;> trivial

theorem requeueTask_writes {byTask : ByTask} {t : Task} (now : Time) (found : byTask.get t.id = some ti) :
    Writes ti.key (fun row => row = ti ∨ (ti.state = .upForRetry ∧ row = TaskInstance.reset ti)) (requeueTask now byTask t) := by
  unfold requeueTask
  rw [found]
  dsimp only
  split
  · trivial
  · rename_i retries
    split
    · trivial
    · intro _ _ _
      refine ⟨⟨rfl, .inr ⟨not_not.mp retries, rfl⟩⟩, fun reply _ _ _ => ?_⟩
      cases reply <;> trivial

end Between

/-! ### The failing attempts since a reset -/

/-- A dispatch that succeeds has written its row. -/
theorem dispatch_stored {run : DagRun} {t : Task} {ti : TaskInstance} {w v : World} {answers later : List Answer}
    (stored : w.db.instance? ti.key = some ti) (ran : (dispatch run t ti).run World.replay (w, answers) = (.ok (), v, later)) :
    v.db.instance? ti.key = some (dispatched run t ti) := by
  obtain ⟨reply, u, stepped⟩ : ∃ reply u, World.replay (.updateTaskInstance (dispatched run t ti)) (w, answers) = (reply, u) :=
    ⟨_, _, rfl⟩
  rw [dispatch_eq, Prog.bind_eq, Prog.run_bind, ask_run, stepped] at ran
  cases reply with
  | error e => cases ran
  | ok _ =>
    cases ran
    rcases World.replay_step stepped with ⟨a, spawned, performed⟩ | ⟨⟨a, stuck⟩, _⟩
    · obtain ⟨_, ⟨db, written, _, after⟩ | ⟨⟨e, failed⟩, _⟩⟩ := World.write_some performed
      · obtain ⟨_, rfl⟩ := DB.updateTaskInstance_ok written
        show u.1.db.instance? ti.key = _
        rw [after]
        show DB.instance? (DB.writeInstance _ _ _) _ = _
        rw [DB.instance?_writeInstance_own (by rfl), stored]
        rfl
      · cases failed
    · exact absurd stuck (World.write_ne_none _ _)

/-- The worlds after a number of failing attempts of one task since `start`. An attempt is a
dispatch with the goroutine it starts, or a child run that is attached and later mirrored;
between attempts the tick requeues the task, and anything may happen to the other rows. -/
inductive Failing (env : Env) (t : Task) (key : InstanceKey) (start : World) : Nat → World → Prop where
  | start : Failing env t key start 0 start
  | elsewhere {n : Nat} {w v : World} : Failing env t key start n w → v.db.instance? key = w.db.instance? key →
      Failing env t key start n v
  | requeues {n : Nat} {w : World} {ti : TaskInstance} (byTask : ByTask) (now : Time) (answers : List Answer) :
      Failing env t key start n w → w.db.instance? key = some ti → byTask.get t.id = some ti →
      Failing env t key start n ((requeueTask now byTask t).run World.replay (w, answers)).2.1
  | attempts {n : Nat} {w v : World} {ti row : TaskInstance} (run : DagRun) (answers later : List Answer) :
      Failing env t key start n w → w.db.instance? key = some ti → ti.state = .scheduled →
      (dispatch run t ti).run World.replay (w, answers) = (.ok (), v, later) →
      ((runTask env t (dispatched run t ti)).run World.replay (v, later)).2.1.db.instance? key = some row → Failed row →
      Failing env t key start (n + 1) ((runTask env t (dispatched run t ti)).run World.replay (v, later)).2.1
  | attaches {n : Nat} {w : World} {ti row : TaskInstance} (run : DagRun) (answers : List Answer) :
      Failing env t key start n w → w.db.instance? key = some ti → ti.state = .scheduled →
      ((advanceSubdag env run t ti).run World.replay (w, answers)).2.1.db.instance? key = some row → row.state = .running →
      Failing env t key start n ((advanceSubdag env run t ti).run World.replay (w, answers)).2.1
  | mirrors {n : Nat} {w : World} {ti row : TaskInstance} (run : DagRun) (answers : List Answer) :
      Failing env t key start n w → w.db.instance? key = some ti → ti.state = .running →
      ((advanceSubdag env run t ti).run World.replay (w, answers)).2.1.db.instance? key = some row → Failed row →
      Failing env t key start (n + 1) ((advanceSubdag env run t ti).run World.replay (w, answers)).2.1

/-- The row after `n` failing attempts since it was reset with the try number `used`. -/
structure Charged (used : Int) (budget : Int) (n : Nat) (row : TaskInstance) : Prop where
  maxRetries : row.maxRetries = budget
  progress : (row.state = .scheduled ∧ row.executorRef = .none ∧ row.tryNumber = used + n ∧ (n = 0 ∨ used + n ≤ budget)) ∨
    (row.state = .running ∧ row.tryNumber = used + n + 1 ∧ (n = 0 ∨ used + n ≤ budget)) ∨
    (row.state = .upForRetry ∧ row.tryNumber = used + n ∧ 1 ≤ n ∧ used + n ≤ budget) ∨
    (row.state = .failed ∧ 1 ≤ n ∧ budget < used + n ∧ (n = 1 ∨ used + n ≤ budget + 1))

section Count

variable {env : Env} {t : Task} {key : InstanceKey} {start : World} {used budget : Int}

/-- A failure that is recorded for a try is one failing attempt more. -/
theorem Charged.fails {n : Nat} {ti copy row : TaskInstance} (charged : Charged used budget n ti)
    (active : ti.state = .scheduled ∨ ti.state = .running) (try_ : copy.tryNumber = used + n + 1)
    (limit : copy.maxRetries = ti.maxRetries) (records : Records copy row) (failed : Failed row) :
    Charged used budget (n + 1) row := by
  have room : n = 0 ∨ used + n ≤ budget := by
    rcases charged.progress with p | p | p | p
    · exact p.2.2.2
    · exact p.2.2
    · rcases active with a | a <;> rw [p.1] at a <;> cases a
    · rcases active with a | a <;> rw [p.1] at a <;> cases a
  obtain ⟨tries, state⟩ := records.outcome failed
  rw [try_, limit, charged.maxRetries] at state
  refine ⟨(records.maxRetries.trans limit).trans charged.maxRetries, ?_⟩
  split at state
  · rename_i within
    exact .inr (.inr (.inl ⟨state, by rw [tries, try_]; push_cast; omega, by omega, by push_cast; omega⟩))
  · rename_i beyond
    exact .inr (.inr (.inr ⟨state, by omega, by push_cast; omega, by push_cast; omega⟩))

theorem Failing.charged {n : Nat} {w : World} (failing : Failing env t key start n w) {ti : TaskInstance}
    (stored : start.db.instance? key = some ti) (fresh : Charged used budget 0 ti) :
    ∃ row, w.db.instance? key = some row ∧ Charged used budget n row := by
  induction failing with
  | start => exact ⟨ti, stored, fresh⟩
  | elsewhere _ same ih =>
    obtain ⟨row, found, charged⟩ := ih
    exact ⟨row, same.trans found, charged⟩
  | @requeues n w copy byTask now answers _ found listed ih =>
    obtain ⟨row, same, charged⟩ := ih
    rw [found] at same
    cases same
    obtain rfl := (DB.instance?_some found).2
    obtain ⟨row, after, rfl | ⟨retries, rfl⟩⟩ := (requeueTask_writes now listed).stored (s := (w, answers)) found (.inl rfl)
    · exact ⟨_, after, charged⟩
    · refine ⟨_, after, charged.maxRetries, ?_⟩
      rcases charged.progress with p | p | p | p
      · rw [retries] at p
        cases p.1
      · rw [retries] at p
        cases p.1
      · exact .inl ⟨rfl, rfl, p.2.1, .inr p.2.2.2⟩
      · rw [retries] at p
        cases p.1
  | @attempts n w v copy row run answers later _ found scheduled dispatches after failed ih =>
    obtain ⟨row', same, charged⟩ := ih
    rw [found] at same
    cases same
    obtain rfl := (DB.instance?_some found).2
    have queued : Records (dispatched run t copy) (dispatched run t copy) := Records.other rfl (by simp [dispatched])
    have written : v.db.instance? (dispatched run t copy).key = some (dispatched run t copy) := dispatch_stored found dispatches
    obtain ⟨final, stored, records⟩ := (runTask_records t (dispatched run t copy)).stored (s := (v, later)) written queued
    obtain rfl : row = final := Option.some.inj (after.symm.trans stored)
    have tries : (dispatched run t copy).tryNumber = used + n + 1 := by
      rcases charged.progress with p | p | p | p
      · exact congrArg (· + 1) p.2.2.1
      · rw [scheduled] at p
        cases p.1
      · rw [scheduled] at p
        cases p.1
      · rw [scheduled] at p
        cases p.1
    exact ⟨row, after, charged.fails (.inl scheduled) tries rfl records failed⟩
  | @attaches n w copy row run answers _ found scheduled after running ih =>
    obtain ⟨row', same, charged⟩ := ih
    rw [found] at same
    cases same
    obtain rfl := (DB.instance?_some found).2
    rcases charged.progress with p | p | p | p
    · have launched : Writes copy.key (Attaches copy) (advanceSubdag env run t copy) := by
        refine Prog.Safe.issue trivial fun now => ?_
        rw [if_pos scheduled]
        exact launchSubdag_writes env run t p.2.1 now
      have waiting : Attaches copy copy := ⟨rfl, fun running => by rw [scheduled] at running; cases running⟩
      obtain ⟨final, stored, attaches⟩ := launched.stored (s := (w, answers)) found waiting
      obtain rfl : row = final := Option.some.inj (after.symm.trans stored)
      refine ⟨row, after, attaches.maxRetries.trans charged.maxRetries, .inr (.inl ⟨running, ?_, p.2.2.2⟩)⟩
      rw [attaches.charged running, p.2.2.1]
    · rw [scheduled] at p
      cases p.1
    · rw [scheduled] at p
      cases p.1
    · rw [scheduled] at p
      cases p.1
  | @mirrors n w copy row run answers _ found running after failed ih =>
    obtain ⟨row', same, charged⟩ := ih
    rw [found] at same
    cases same
    obtain rfl := (DB.instance?_some found).2
    rcases charged.progress with p | p | p | p
    · rw [running] at p
      cases p.1
    · have mirrored : OnlyRecords copy (advanceSubdag env run t copy) := by
        refine Prog.Safe.issue trivial fun now => ?_
        rw [if_neg (by rw [running]; decide)]
        exact mirrorSubdag_records copy now
      have waiting : Records copy copy := Records.other rfl (by simp [running])
      obtain ⟨final, stored, records⟩ := mirrored.stored (s := (w, answers)) found waiting
      obtain rfl : row = final := Option.some.inj (after.symm.trans stored)
      exact ⟨row, after, charged.fails (.inr running) p.2.1 rfl records failed⟩
    · rw [running] at p
      cases p.1
    · rw [running] at p
      cases p.1

/-- The surroundings of an attempt that no executor takes. -/
def refusal : Answer := { launch := .failed }

theorem failUnlaunched_fails {ti : TaskInstance} {w : World} (stored : w.db.instance? ti.key = some ti) (queued : ti.state = .queued)
    (rest : List Answer) : ∃ row, ((failUnlaunched ti).run World.replay
      (w, refusal :: refusal :: refusal :: rest)).2.1.db.instance? ti.key = some row ∧ Failed row := by
  have holds : DB.holdsAttempt ti.executorRef ti = true := by simp [DB.holdsAttempt, queued, TaskState.isTerminal]
  refine ⟨failure { ti with startedAt := some 0 } 0, ?_, ?_⟩
  · show DB.instance? (DB.writeInstance w.db (failure { ti with startedAt := some 0 } 0) (DB.holdsAttempt ti.executorRef)) _ = _
    rw [DB.instance?_writeInstance_own (by rfl), stored, Option.map_some, if_pos holds]
  · unfold failure
    dsimp only
    unfold Failed
    split
    · exact .inl rfl
    · exact .inr rfl

theorem launchTask_fails (t : Task) {ti : TaskInstance} {w : World} (stored : w.db.instance? ti.key = some ti)
    (queued : ti.state = .queued) (rest : List Answer) : ∃ row, ((launchTask env t ti).run World.replay
      (w, refusal :: refusal :: refusal :: refusal :: refusal :: rest)).2.1.db.instance? ti.key = some row ∧ Failed row := by
  have current : World.replay (.getTaskInstance ti.key) (w, refusal :: refusal :: refusal :: refusal :: refusal :: rest) =
      (.ok ti, w, refusal :: refusal :: refusal :: refusal :: rest) := by
    simp [World.replay, World.perform, World.read, refusal, DB.getTaskInstance, stored]
  have alive : (taskCancelled ti.key).run World.replay (w, refusal :: refusal :: refusal :: refusal :: refusal :: rest) =
      (.ok false, w, refusal :: refusal :: refusal :: refusal :: rest) := by
    rw [taskCancelled, Prog.bind_eq, Prog.run_bind, Prog.run_attempt, ask_run, current]
    simp [Except.mapError, queued]
  have refused : World.replay (.launch t.workerGroup ti.executorRef) (w, refusal :: refusal :: refusal :: refusal :: rest) =
      (.failed, w, refusal :: refusal :: refusal :: rest) := by
    simp [World.replay, World.perform, World.launched, refusal]
  rw [launchTask, Prog.bind_eq, Prog.run_bind, alive]
  dsimp only
  rw [if_neg (by decide), Prog.bind_eq, Prog.run_bind, perform_run, refused]
  exact failUnlaunched_fails stored queued rest

/-- Whatever the type of the task, its attempt fails. -/
theorem typed_fails (t : Task) {ti : TaskInstance} {w : World} (stored : w.db.instance? ti.key = some ti)
    (queued : ti.state = .queued) (rest : List Answer) : ∃ row, ((match t.type with
    | .shell | .jar | .python | .sql => launchTask env t ti
    | .http => if t.http then launchTask env t ti else failUnlaunched ti
    | .subdag | .other => failUnlaunched ti).run World.replay
      (w, refusal :: refusal :: refusal :: refusal :: refusal :: rest)).2.1.db.instance? ti.key = some row ∧ Failed row := by
  split
  · exact launchTask_fails t stored queued rest
  · exact launchTask_fails t stored queued rest
  · exact launchTask_fails t stored queued rest
  · exact launchTask_fails t stored queued rest
  · split
    · exact launchTask_fails t stored queued rest
    · exact failUnlaunched_fails stored queued _
  · exact failUnlaunched_fails stored queued _
  · exact failUnlaunched_fails stored queued _

theorem runTask_fails (t : Task) {ti : TaskInstance} {w : World} (stored : w.db.instance? ti.key = some ti)
    (queued : ti.state = .queued) : ∃ answers row, ((runTask env t ti).run World.replay (w, answers)).2.1.db.instance? ti.key =
      some row ∧ Failed row := by
  unfold runTask
  dsimp only
  by_cases staging : t.type = .shell ∧ t.project ≠ ""
  · rw [if_pos staging]
    exact ⟨refusal :: refusal :: refusal :: refusal :: refusal :: refusal :: [], typed_fails t stored queued []⟩
  · rw [if_neg staging]
    exact ⟨refusal :: refusal :: refusal :: refusal :: refusal :: [], typed_fails t stored queued []⟩

/-- A scheduled task can always fail once more. -/
theorem Failing.more {n : Nat} {w : World} (failing : Failing env t key start n w) {ti : TaskInstance}
    (stored : w.db.instance? key = some ti) (scheduled : ti.state = .scheduled) :
    ∃ v row, Failing env t key start (n + 1) v ∧ v.db.instance? key = some row ∧ Failed row := by
  obtain rfl := (DB.instance?_some stored).2
  let run : DagRun := { runID := ti.runID, dagID := "", logicalDate := 0, triggerType := .manual }
  let v : World := { w with
    db := w.db.writeInstance (dispatched run t ti) fun _ => true
    trail := (w.trail.rewritten (dispatched run t ti)).spawns (dispatched run t ti) }
  have exists_ : w.db.instance? (dispatched run t ti).key = some ti := stored
  have queued : v.db.instance? (dispatched run t ti).key = some (dispatched run t ti) := by
    show DB.instance? (DB.writeInstance _ _ _) _ = _
    rw [DB.instance?_writeInstance_own rfl, exists_]
    rfl
  obtain ⟨answers, row, after, failed⟩ := runTask_fails t queued rfl
  have dispatches : (dispatch run t ti).run World.replay (w, refusal :: refusal :: answers) = (.ok (), v, answers) := by
    have written : World.replay (.updateTaskInstance (dispatched run t ti)) (w, refusal :: refusal :: answers) =
        (.ok (), { v with trail := w.trail.rewritten (dispatched run t ti) }, refusal :: answers) := by
      simp [World.replay, World.perform, World.write, DB.updateTaskInstance, refusal, exists_, v]
    rw [dispatch_eq, Prog.bind_eq, Prog.run_bind, ask_run, written]
    rfl
  exact ⟨_, row, .attempts run _ answers failing stored scheduled dispatches after failed, after, failed⟩

/-- A task that waits for its retry is scheduled again once its delay is over. -/
theorem Failing.again {n : Nat} {w : World} (failing : Failing env t key start n w) {ti : TaskInstance} (own : t.id = key.task)
    (stored : w.db.instance? key = some ti) (retries : ti.state = .upForRetry) :
    ∃ v, Failing env t key start n v ∧ v.db.instance? key = some (TaskInstance.reset ti) := by
  obtain rfl := (DB.instance?_some stored).2
  let due : Time := ti.finishedAt.elim 0 (· + retryDelay t ti.tryNumber)
  have listed : ByTask.get [ti] t.id = some ti := by
    have same : ti.taskID = t.id := own.symm
    simp [ByTask.get, same]
  have program : requeueTask due [ti] t = (do
      updateTaskInstance (TaskInstance.reset ti)
      pure (ByTask.set [ti] (TaskInstance.reset ti))) := by
    unfold requeueTask
    rw [listed]
    dsimp only
    rw [if_neg (not_not.mpr retries), if_neg]
    unfold due
    cases ti.finishedAt <;> simp
  have exists_ : w.db.instance? (TaskInstance.reset ti).key = some ti := stored
  have written : World.replay (.updateTaskInstance (TaskInstance.reset ti)) (w, []) =
      (.ok (), { w with
        db := w.db.writeInstance (TaskInstance.reset ti) fun _ => true
        trail := w.trail.rewritten (TaskInstance.reset ti) }, []) := by
    simp [World.replay, World.perform, World.write, DB.updateTaskInstance, exists_]
  refine ⟨_, .requeues [ti] due [] failing stored listed, ?_⟩
  rw [program, Prog.bind_eq, Prog.run_bind, ask_run, written]
  show DB.instance? (DB.writeInstance _ _ _) _ = _
  rw [DB.instance?_writeInstance_own (by rfl), stored]
  rfl

end Count

/-! ### The reset -/

section Reset

variable {run : RunID}

end Reset

section Witness

end Witness

end Cronova.Scheduler
