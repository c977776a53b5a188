import Cronova.Scheduler.Frame
import Cronova.Scheduler.Promises
import Mathlib.Logic.Relation

/-! The timeout of a run beside the attempts of its tasks.

`timeoutRun` works on a listing that the attempts' goroutines may have overtaken. They write their
rows under a guard, as it does, so an outcome that is reached first stays. An attempt that is given back
leaves the reference by which `timeoutRun` would find its row.
-/

set_option autoImplicit false

namespace Cronova.Scheduler

open Model Store Process
open Calendar (Time)
open Relation (ReflTransGen)
open Prog (Issues Yields After Exec)

/-! ### What the attempts do -/

/-- The statements of an attempt: of the rows of runs and task instances it writes that of its own task only, under the guard.
It keeps its reference, unless it is given back. -/
def Op.ofAttempt : Op → Prop
  | .updateTaskInstanceGuarded ti ref => ti.executorRef = ref ∨ ti.state = .scheduled
  | .now | .getTaskInstance _ | .stageProject _ | .launch _ _ | .await _ | .cancel _ | .readOutput _ | .removeOutput _ | .setTaskOutput _ _ => True
  | _ => False

section Attempts

variable {env : Env} {ti : TaskInstance}

abbrev Attempting {A : Type} (p : Act A) : Prop := Issues Op.ofAttempt p

theorem finalizeWrite_attempting (ti : TaskInstance) : Attempting (finalizeWrite ti) :=
  Issues.bind (Issues.attempt (issues_ask (.inl rfl))) fun _ => Issues.pure _

theorem recordFailure_attempting (ti : TaskInstance) : Attempting (recordFailure ti) :=
  Issues.bind (Yields.perform trivial) fun _ => Issues.bind (finalizeWrite_attempting _) fun _ => Issues.pure _

theorem collectTaskOutput_attempting (env : Env) (ti : TaskInstance) : Attempting (collectTaskOutput env ti) := by
  refine Issues.bind (Yields.perform trivial) fun output => ?_
  cases output with
  | none => exact Issues.pure _
  | some output =>
    dsimp only
    split
    · exact Issues.bind (issues_logged (issues_ask trivial)) fun _ => Yields.perform trivial
    · exact Yields.perform trivial

theorem finalizeTask_attempting (env : Env) (ti : TaskInstance) (code : Int) : Attempting (finalizeTask env ti code) := by
  unfold finalizeTask
  split
  · refine Issues.bind (Yields.perform trivial) fun now => Issues.bind (finalizeWrite_attempting _) fun _ => ?_
    split
    · exact collectTaskOutput_attempting env _
    · exact Issues.pure _
  · exact Issues.bind (recordFailure_attempting ti) fun _ => Issues.pure _

theorem awaitCompletion_attempting (env : Env) (ti : TaskInstance) : Attempting (awaitCompletion env ti) := by
  refine Issues.bind (Yields.perform trivial) fun outcome => ?_
  cases outcome with
  | exited code => exact finalizeTask_attempting env ti code
  | lost => exact Issues.bind (recordFailure_attempting ti) fun _ => Issues.pure _

theorem failUnlaunched_attempting (ti : TaskInstance) : Attempting (failUnlaunched ti) :=
  Issues.bind (Yields.perform trivial) fun _ => Issues.bind (recordFailure_attempting _) fun _ => Issues.pure _

theorem giveBack_attempting (ti : TaskInstance) : Attempting (giveBack ti) :=
  Issues.bind (Issues.attempt (issues_ask (.inr rfl))) fun _ => Issues.pure _

theorem launchTask_attempting (env : Env) (t : Task) (ti : TaskInstance) : Attempting (launchTask env t ti) := by
  have looks : Attempting (taskCancelled ti.key) := by
    refine Issues.bind (Issues.attempt (issues_ask trivial)) fun found => ?_
    cases found with
    | ok cur => exact Issues.pure _
    | error e => exact Issues.pure _
  refine Issues.bind looks fun cancelled => ?_
  split
  · exact Issues.pure _
  · refine Issues.bind (Yields.perform trivial) fun launched => ?_
    cases launched with
    | noWorker => exact giveBack_attempting ti
    | failed => exact failUnlaunched_attempting ti
    | started =>
      refine Issues.bind (Yields.perform trivial) fun now => Issues.bind (Issues.attempt (issues_ask (.inl rfl))) fun marked => ?_
      cases marked with
      | error e => exact Issues.pure _
      | ok applied =>
        cases applied with
        | false => exact Yields.perform trivial
        | true => exact awaitCompletion_attempting env _

/-- What follows the staging of a task. -/
theorem staged_attempting (env : Env) (t : Task) (ti : TaskInstance) (staged : Bool) : Attempting (if !staged then failUnlaunched ti else
    match t.type with
    | .shell | .jar | .python | .sql => launchTask env t ti
    | .http => if t.http then launchTask env t ti else failUnlaunched ti
    | .subdag | .other => failUnlaunched ti) := by
  split
  · exact failUnlaunched_attempting ti
  · split
    · exact launchTask_attempting env t ti
    · exact launchTask_attempting env t ti
    · exact launchTask_attempting env t ti
    · exact launchTask_attempting env t ti
    · split
      · exact launchTask_attempting env t ti
      · exact failUnlaunched_attempting ti
    · exact failUnlaunched_attempting ti
    · exact failUnlaunched_attempting ti

theorem runTask_attempting (env : Env) (t : Task) (ti : TaskInstance) : Attempting (runTask env t ti) := by
  unfold runTask
  dsimp only
  by_cases staging : t.type = .shell ∧ t.project ≠ ""
  · rw [if_pos staging]
    exact Issues.bind (Yields.perform trivial) (staged_attempting env t ti)
  · rw [if_neg staging]
    exact staged_attempting env t ti true

/-- Both kinds of goroutines. -/
theorem goroutine_attempting (env : Env) (task : Goroutine) (epoch : Nat) : Attempting (serve env (.goroutine task epoch)) := by
  cases task with
  | runTask run t ti => exact runTask_attempting env t ti
  | awaitCompletion ti => exact awaitCompletion_attempting env ti

end Attempts

/-- The statement gives an attempt of the run back: it takes the reference from a row that still holds it. -/
def GivesBack (run : RunID) (w : World) : Op → Prop
  | .updateTaskInstanceGuarded ti ref => ti.runID = run ∧ ti.state = .scheduled ∧ ∃ row, w.db.instance? ti.key = some row ∧ DB.holdsAttempt ref row = true
  | _ => False

/-- One statement of one goroutine, wherever it has got to, whatever it has been replied. -/
inductive AttemptStep (env : Env) (may : World → Op → Prop) (w v : World) : Prop where
  | mk (task : Goroutine) (epoch : Nat) (log : List (Issued statements)) (o : Op) (k : o.Reply → Act Unit) (tid : Nat) (a : Answer)
      (reply : o.Reply) (spawned : List Request) (after : After (serve env (.goroutine task epoch)) log (.call o k)) (may_ : may w o)
      (performed : World.perform tid o a w = some (reply, v, spawned))

/-- What any number of attempts may do, statement by statement. -/
abbrev Attempts (env : Env) (may : World → Op → Prop) : World → World → Prop := ReflTransGen (AttemptStep env may)

/-- All but giving back an attempt of the run. -/
def Keeping (run : RunID) (w : World) (o : Op) : Prop := ¬ GivesBack run w o

/-! ### The rows of the run -/

section Rows

variable {env : Env} {run : RunID} {w v u : World} {key : InstanceKey}

/-- How a row of the run may move: one that has not ended keeps its reference or ends. -/
def RowMove (before after : Option TaskInstance) : Prop :=
  after = before ∨ before = none ∨
    ∃ x y, before = some x ∧ after = some y ∧ x.state.isTerminal = false ∧ (y.state.isTerminal = true ∨ y.executorRef = x.executorRef)

theorem RowMove.trans {a b c : Option TaskInstance} (first : RowMove a b) (second : RowMove b c) : RowMove a c := by
  rcases first with rfl | none_ | ⟨x, y, rfl, rfl, unfinished, moved⟩
  · exact second
  · exact .inr (.inl none_)
  · rcases second with rfl | impossible | ⟨x', y', same, rfl, unfinished', moved'⟩
    · exact .inr (.inr ⟨x, y, rfl, rfl, unfinished, moved⟩)
    · cases impossible
    · cases same
      refine .inr (.inr ⟨x, y', rfl, rfl, unfinished, moved'.imp_right fun same => ?_⟩)
      rcases moved with ended | kept
      · rw [ended] at unfinished'
        cases unfinished'
      · exact same.trans kept

/-- A row that has ended stays. -/
theorem RowMove.ended {x : TaskInstance} {after : Option TaskInstance} (moved : RowMove (some x) after) (ended : x.state.isTerminal = true) :
    after = some x := by
  rcases moved with same | impossible | ⟨x', _, same, _, unfinished, _⟩
  · exact same
  · cases impossible
  · cases same
    rw [ended] at unfinished
    cases unfinished

/-- A row that is there stays there, and ends or keeps its reference. -/
theorem RowMove.there {x : TaskInstance} {after : Option TaskInstance} (moved : RowMove (some x) after) :
    ∃ y, after = some y ∧ (y.state.isTerminal = true ∨ y.executorRef = x.executorRef) := by
  rcases moved with rfl | impossible | ⟨x', y, same, found, _, kept⟩
  · exact ⟨x, rfl, .inr rfl⟩
  · cases impossible
  · cases same
    exact ⟨y, found, kept⟩

/-- What happens beside and in the timeout of a run: its rows move, and the run stays once it has ended. -/
structure Moves (run : RunID) (w v : World) : Prop where
  rows : ∀ key : InstanceKey, key.run = run → RowMove (w.db.instance? key) (v.db.instance? key)
  ended : ∀ row, w.db.run? run = some row → row.state.isTerminal = true → v.db.run? run = some row

theorem Moves.refl (run : RunID) (w : World) : Moves run w w := ⟨fun _ _ => .inl rfl, fun _ found _ => found⟩

theorem Moves.trans (first : Moves run w v) (second : Moves run v u) : Moves run w u :=
  ⟨fun key own => (first.rows key own).trans (second.rows key own),
    fun row found ended => second.ended row (first.ended row found ended) ended⟩

/-- An attempt does not write runs. -/
theorem AttemptStep.run? {may : World → Op → Prop} (step : AttemptStep env may w v) (id : RunID) : v.db.run? id = w.db.run? id := by
  obtain ⟨task, epoch, log, o, k, tid, a, reply, spawned, after, _, performed⟩ := step
  have issued := ((after.issues (goroutine_attempting env task epoch)) () trivial trivial).1
  rcases World.perform_run? performed id with same | changed
  · exact same
  · cases o with
    | createDagRunBounded | createManualDagRunBounded | updateDagRunState | updateDagRunSuccess | updateDagRunDefinition => exact issued.elim
    | _ => exact changed.elim

/-- It writes a row that has not ended; if it is not given back, the row keeps its reference. -/
theorem AttemptStep.row {may : World → Op → Prop} (step : AttemptStep env may w v) (key : InstanceKey) :
    v.db.instance? key = w.db.instance? key ∨
    ∃ x y, w.db.instance? key = some x ∧ v.db.instance? key = some y ∧ x.state.isTerminal = false ∧
      ((∀ w o, may w o → Keeping key.run w o) → y.executorRef = x.executorRef) := by
  obtain ⟨task, epoch, log, o, k, tid, a, reply, spawned, after, permitted, performed⟩ := step
  have issued := ((after.issues (goroutine_attempting env task epoch)) () trivial trivial).1
  rcases World.perform_instance? performed key with same | changed
  · exact .inl same
  · cases o with
    | updateTaskInstanceGuarded ti ref =>
      obtain ⟨rfl, row, found, holds, written⟩ := changed
      obtain ⟨same, unfinished⟩ := Bool.and_eq_true_iff.mp holds
      refine .inr ⟨row, ti, found, written, by simpa using unfinished, fun keeps => ?_⟩
      rcases issued with kept | back
      · exact kept.trans (eq_of_beq same).symm
      · exact absurd ⟨rfl, back, row, found, holds⟩ (keeps _ _ permitted)
    | createTaskInstance | updateTaskInstance => exact issued.elim
    | _ => exact changed.elim

theorem Attempts.moves (attempts : Attempts env (Keeping run) w v) : Moves run w v := by
  induction attempts with
  | refl => exact .refl run w
  | tail _ step ih =>
    refine ih.trans ⟨fun key own => ?_, fun row found _ => (step.run? run).trans found⟩
    rcases step.row key with same | ⟨x, y, found, written, unfinished, kept⟩
    · exact .inl same
    · exact .inr (.inr ⟨x, y, found, written, unfinished, .inr (kept fun _ _ keeps => own ▸ keeps)⟩)

theorem Attempts.run? {may : World → Op → Prop} (attempts : Attempts env may w v) (id : RunID) : v.db.run? id = w.db.run? id := by
  induction attempts with
  | refl => rfl
  | tail _ step ih => exact (step.run? id).trans ih

/-- A task that has ended is not changed by any attempt. -/
theorem Attempts.ended {may : World → Op → Prop} {x : TaskInstance} (attempts : Attempts env may w v) (found : w.db.instance? key = some x)
    (ended : x.state.isTerminal = true) : v.db.instance? key = some x := by
  induction attempts with
  | refl => exact found
  | tail _ step ih =>
    rcases step.row key with same | ⟨y, _, found', _, unfinished, _⟩
    · exact same.trans ih
    · rw [ih] at found'
      cases found'
      rw [ended] at unfinished
      cases unfinished

end Rows

/-! ### The timeout -/

/-- The writes that `timeoutRun` makes itself. -/
def Op.decisive : Op → Bool
  | .updateDagRunState _ state _ _ => state == .timedOut
  | .updateTaskInstanceGuarded _ _ => true
  | _ => false

/-- The statements of the timeout of a run and of the cancellations that it starts: no row of the run is written without a guard. -/
def Confines (run : RunID) : Op → Prop
  | .updateTaskInstance ti => ti.runID ≠ run
  | .updateDagRunState _ state _ _ => state = .cancelled ∨ state = .timedOut
  | .updateTaskInstanceGuarded ti _ => ti.state.isTerminal = true
  | .updateDagRunSuccess _ _ _ | .updateDagRunDefinition _ _ _ => False
  | _ => True

/-- The contract of the timeout: the database serves its own writes, and beside it there are the attempts. -/
def expiring (env : Env) (run : RunID) (beside : World → Op → Prop) : Contract statements World where
  step o w reply v := ∃ tid a spawned, (o.decisive = true → a.served = true) ∧ World.perform tid o a w = some (reply, v, spawned)
  inv _ := True
  rely := Attempts env beside
  may o _ := Confines run o

/-- No attempt of the run is given back. -/
abbrev keeping (env : Env) (run : RunID) : Contract statements World := expiring env run (Keeping run)

section Timeout

variable {A B : Type} {env : Env} {run : RunID} {start s w v t : World} {o : Op} {reply : o.Reply}

theorem expiring_moves (within : Confines run o) (stepped : (keeping env run).step o w reply v) : Moves run w v := by
  obtain ⟨tid, a, spawned, _, performed⟩ := stepped
  constructor
  · intro key own
    rcases World.perform_instance? performed key with same | changed
    · exact .inl same
    · cases o with
      | createTaskInstance ti => exact .inr (.inl changed.2.1)
      | updateTaskInstance ti => exact absurd ((congrArg InstanceKey.run changed.1).trans own) within
      | updateTaskInstanceGuarded ti ref =>
        obtain ⟨_, row, found, holds, written⟩ := changed
        have unfinished := (Bool.and_eq_true_iff.mp holds).2
        exact .inr (.inr ⟨row, ti, found, written, by simpa using unfinished, .inl within⟩)
      | _ => exact changed.elim
  · intro row found ended
    rcases World.perform_run? performed run with same | changed
    · exact same.trans found
    · cases o with
      | updateDagRunState id state started finished =>
        obtain ⟨rfl, row', found', legal, _⟩ := changed
        rw [found] at found'
        cases found'
        rcases within with rfl | rfl <;> cases now : row.state <;> rw [now] at ended legal <;>
          simp [RunState.isTerminal, legalPriorRunStates] at ended legal
      | createDagRunBounded | createManualDagRunBounded =>
        obtain ⟨_, free, _⟩ := changed
        rw [found] at free
        cases free
      | updateDagRunSuccess | updateDagRunDefinition => exact within.elim
      | _ => exact changed.elim

/-- The rule for a statement of the timeout. -/
theorem expiring_call {k : o.Reply → Act B} {post : Except Failure B → World → Prop} (within : Confines run o) (moved : Moves run start s)
    (next : ∀ w reply t, Moves run start w → (keeping env run).step o w reply t → Moves run start t → (k reply).Safe (keeping env run) post t) :
    Prog.Safe (keeping env run) (Prog.call (I := statements) o k) post s := by
  intro w relied _
  have before := moved.trans relied.moves
  exact ⟨within, fun reply t stepped _ => next w reply t before stepped (before.trans (expiring_moves within stepped))⟩

/-- The rule for a statement whose errors end the operation. -/
theorem expiring_ask {get : o.Reply → Except StoreError A} {k : A → Act B} (within : Confines run o) (moved : Moves run start s)
    (next : ∀ w reply t a, Moves run start w → (keeping env run).step o w reply t → Moves run start t → get reply = .ok a →
      (k a).Safe (keeping env run) (fun _ u => Moves run start u) t) :
    (ask o get >>= k).Safe (keeping env run) (fun _ u => Moves run start u) s := by
  refine expiring_call within moved fun w reply t before stepped after => ?_
  dsimp only
  cases read : get reply with
  | ok a => exact next w reply t a before stepped after read
  | error e => exact after

theorem expiring_logged {p : Act Unit} (safe : p.Safe (keeping env run) (fun _ u => Moves run start u) s) :
    (logged p).Safe (keeping env run) (Prog.returns fun _ u => Moves run start u) s :=
  Prog.Safe.andThen (fun _ u => Moves run start u) (Prog.Safe.attempt safe) fun _ _ moved => moved

/-- The run has ended. -/
def Ended (run : RunID) (w : World) : Prop := ∃ row, w.db.run? run = some row ∧ row.state.isTerminal = true

theorem Moves.over_ (moved : Moves run w v) (ended : Ended run w) : Ended run v := by
  obtain ⟨row, found, terminal⟩ := ended
  exact ⟨row, moved.ended row found terminal, terminal⟩

/-- What cancels child runs leaves the rows of a run that has ended. -/
def Harmless (env : Env) (run : RunID) (cancelRun : RunID → Act Unit) : Prop :=
  ∀ child start s, Ended run start → Moves run start s → (cancelRun child).Safe (keeping env run) (fun _ u => Moves run start u) s

theorem cancelAttempt_harmless {cancelRun : RunID → Act Unit} (below : Harmless env run cancelRun) (ref : ExecutorRef) (ended : Ended run start)
    (moved : Moves run start s) : (cancelAttempt cancelRun ref).Safe (keeping env run) (Prog.returns fun _ u => Moves run start u) s := by
  cases ref with
  | subdag child => exact expiring_logged (below child start s ended moved)
  | none => exact expiring_call trivial moved fun _ _ _ _ _ after => after
  | attempt run task try_ => exact expiring_call trivial moved fun _ _ _ _ _ after => after

theorem cancelInstances_harmless {cancelRun : RunID → Act Unit} (below : Harmless env run cancelRun) (fin : Time) {tis : List TaskInstance}
    (others : ∀ ti ∈ tis, ti.runID ≠ run) (ended : Ended run start) (moved : Moves run start s) :
    (cancelInstances cancelRun fin tis).Safe (keeping env run) (fun _ u => Moves run start u) s := by
  refine Prog.Safe.forEach (fun rest u => Moves run start u ∧ ∀ ti ∈ rest, ti.runID ≠ run) ⟨moved, others⟩ ?_ fun _ kept => kept.1
  intro ti rest u ⟨moved, others⟩
  obtain ⟨other, later⟩ := List.forall_mem_cons.mp others
  have writes (u : World) (moved : Moves run start u) : (logged (updateTaskInstance { ti with state := .cancelled, finishedAt := some fin })).Safe
      (keeping env run) (Prog.onward (fun (_ : Unit) u => Moves run start u ∧ ∀ ti ∈ rest, ti.runID ≠ run) fun (_ : Except Failure Unit) u => Moves run start u) u := by
    have written : (updateTaskInstance { ti with state := .cancelled, finishedAt := some fin }).Safe (keeping env run)
        (fun _ u => Moves run start u) u := by
      refine expiring_call other moved fun _ reply _ _ _ after => ?_
      cases reply <;> exact after
    refine (expiring_logged written).mono fun result x after => ?_
    cases result with
    | ok _ => exact ⟨after, later⟩
    | error _ => exact after.elim
  split
  · exact ⟨moved, later⟩
  · split
    · exact Prog.Safe.andThen _ (cancelAttempt_harmless below ti.executorRef ended moved) fun _ u moved => writes u moved
    · exact writes u moved

theorem cancelRunLocked_harmless (env : Env) (run : RunID) (depth : Nat) : Harmless env run (cancelRunLocked depth) := by
  induction depth with
  | zero => exact fun _ _ _ _ moved => moved
  | succ depth ih =>
    intro child start s ended moved
    refine expiring_ask trivial moved fun w reply t found before stepped after read => ?_
    split
    · exact after
    · rename_i active
      -- the run has ended, so this is another one
      have other : child ≠ run := by
        rintro rfl
        obtain ⟨row, stored, terminal⟩ := before.over_ ended
        obtain ⟨tid, a, spawned, _, performed⟩ := stepped
        obtain ⟨_, _, same | failed⟩ := World.read_some performed
        · have same : reply = w.db.getDagRun child := same
          rw [same, DB.getDagRun, stored] at read
          cases read
          cases now : found.state <;> simp [now, RunState.isTerminal] at terminal active
        · rw [failed] at read
          cases read
      refine expiring_call trivial after fun _ fin _ _ _ after => ?_
      refine expiring_ask (.inl rfl) after fun _ _ _ _ _ _ after _ => ?_
      refine expiring_ask trivial after fun w reply t tis _ stepped after read => ?_
      refine cancelInstances_harmless ih fin (fun ti listed => ?_) ended after
      obtain ⟨tid, a, spawned, _, performed⟩ := stepped
      obtain ⟨_, _, same | failed⟩ := World.read_some performed
      · have same : reply = .ok (w.db.listTaskInstances child) := same
        rw [same] at read
        cases read
        rw [((DB.mem_listTaskInstances _ _).mp listed).2]
        exact other
      · rw [failed] at read
        cases read

theorem cascade_harmless (env : Env) (run : RunID) : Harmless env run cascade :=
  fun child _ _ ended moved => expiring_call trivial moved fun _ (runs : Nat) _ _ _ after =>
    cancelRunLocked_harmless env run (runs + 1) child _ _ ended after

/-- The task has ended. -/
def Concluded (w : World) (key : InstanceKey) : Prop := ∃ row, w.db.instance? key = some row ∧ row.state.isTerminal = true

theorem Moves.settled {key : InstanceKey} (moved : Moves run w v) (own : key.run = run) (settled : Concluded w key) : Concluded v key := by
  obtain ⟨row, found, terminal⟩ := settled
  have move := moved.rows key own
  rw [found] at move
  exact ⟨row, move.ended terminal, terminal⟩

/-- The guarded write of a task that was listed: it settles the task, or another write has. -/
theorem timeoutWrite_settles {ti : TaskInstance} {fin : Time} (found : start.db.instance? ti.key = some ti) (own : ti.runID = run)
    (moved : Moves run start s) (since : Moves run s v) : (updateTaskInstanceGuarded { ti with state := .timedOut, finishedAt := some fin } ti.executorRef).Safe
      (keeping env run) (fun _ u => Moves run s u ∧ Concluded u ti.key) v := by
  refine expiring_call rfl since fun w reply t before stepped after => ?_
  have settled : Concluded t ti.key := by
    obtain ⟨tid, a, spawned, served, performed⟩ := stepped
    have written := (World.writeFlag_served (served rfl)).symm.trans performed
    cases written
    have move := (moved.trans before).rows ti.key own
    rw [found] at move
    obtain ⟨row, there, ended⟩ := move.there
    unfold Concluded DB.updateTaskInstanceGuarded
    dsimp only
    rw [DB.instance?_writeInstance_own (by rfl), there]
    by_cases terminal : row.state.isTerminal = true
    · have kept : DB.holdsAttempt ti.executorRef row = false := by simp [DB.holdsAttempt, terminal]
      exact ⟨row, by simp [kept], terminal⟩
    · have same : row.executorRef = ti.executorRef := ended.resolve_left terminal
      have holds : DB.holdsAttempt ti.executorRef row = true := by simp [DB.holdsAttempt, same, terminal]
      exact ⟨_, by rw [Option.map_some, if_pos holds], rfl⟩
  cases reply <;> exact ⟨after, settled⟩

/-- The run and its listed tasks have ended. -/
structure Expired (run : RunID) (tis : List TaskInstance) (w : World) : Prop where
  timedOut : ∃ row, w.db.run? run = some row ∧ row.state = .timedOut
  settled : ∀ ti ∈ tis, Concluded w ti.key

theorem timeoutInstances_expire {tis : List TaskInstance} {fin : Time} (listed : ∀ ti ∈ tis, start.db.instance? ti.key = some ti ∧ ti.runID = run)
    (moved : Moves run start s) (over_ : Ended run s) : (timeoutInstances fin tis).Safe (keeping env run)
      (fun _ u => Moves run s u ∧ ∀ ti ∈ tis, Concluded u ti.key) s := by
  refine Prog.Safe.forEach (fun rest u => Moves run s u ∧ (∀ ti ∈ rest, ti ∈ tis) ∧ ∀ ti ∈ tis, ti ∈ rest ∨ Concluded u ti.key)
    ⟨.refl run s, fun _ member => member, fun _ member => .inl member⟩ ?_ fun u kept => ⟨kept.1, fun ti member => ?_⟩
  · intro ti rest u ⟨onward, members, progress⟩
    obtain ⟨member, later⟩ := List.forall_mem_cons.mp members
    obtain ⟨found, own⟩ := listed ti member
    -- the round is over once this task is settled
    have round {x : World} (moved : Moves run u x) (settled : Concluded x ti.key) :
        Moves run s x ∧ (∀ ti ∈ rest, ti ∈ tis) ∧ ∀ ti ∈ tis, ti ∈ rest ∨ Concluded x ti.key := by
      refine ⟨onward.trans moved, later, fun other listed' => ?_⟩
      rcases progress other listed' with waiting | done
      · rcases List.mem_cons.mp waiting with rfl | waiting
        · exact .inr settled
        · exact .inl waiting
      · exact .inr (moved.settled (listed other listed').2 done)
    split
    · rename_i ended
      have move := (moved.trans onward).rows ti.key own
      rw [found] at move
      exact round (.refl run u) ⟨ti, move.ended ended, ended⟩
    · have writes (x : World) (since : Moves run u x) : (do
          let _ ← (updateTaskInstanceGuarded { ti with state := .timedOut, finishedAt := some fin } ti.executorRef).attempt
          pure () : Act Unit).Safe (keeping env run) (Prog.onward (fun (_ : Unit) x => Moves run s x ∧ (∀ ti ∈ rest, ti ∈ tis) ∧
            ∀ ti ∈ tis, ti ∈ rest ∨ Concluded x ti.key) fun (_ : Except Failure Unit) x => Moves run s x ∧ ∀ ti ∈ tis, Concluded x ti.key) x := by
        have written := @timeoutWrite_settles env _ _ _ _ _ fin found own (moved.trans onward) since
        exact Prog.Safe.andThen (fun _ x => Moves run u x ∧ Concluded x ti.key) (Prog.Safe.attempt written) fun _ x settled => round settled.1 settled.2
      split
      · exact Prog.Safe.andThen _ (cancelAttempt_harmless (cascade_harmless env run) ti.executorRef (onward.over_ over_) (.refl run u)) fun _ x since => writes x since
      · exact writes u (.refl run u)
  · rcases kept.2.2 ti member with impossible | settled
    · cases impossible
    · exact settled

theorem timeoutRun_expires {snapshot row : DagRun} {tis : List TaskInstance}
    (listed : ∀ ti ∈ tis, start.db.instance? ti.key = some ti ∧ ti.runID = snapshot.runID) (moved : Moves snapshot.runID start s)
    (stored : s.db.run? snapshot.runID = some row) (running : row.state = .running) :
    (timeoutRun snapshot tis).Safe (keeping env snapshot.runID) (fun _ u => Expired snapshot.runID tis u) s := by
  intro w relied _
  refine ⟨trivial, fun fin t stepped _ => ?_⟩
  obtain rfl : t = w := by
    obtain ⟨tid, a, spawned, _, performed⟩ := stepped
    cases performed
    rfl
  show Prog.Safe _ (Prog.bind (Prog.attempt _) _) _ t
  refine Prog.Safe.andThen (fun result u => result = .ok () ∧ Moves snapshot.runID t u ∧ ∃ row, u.db.run? snapshot.runID = some row ∧ row.state = .timedOut)
    (Prog.Safe.attempt ?_) fun result u written => ?_
  · intro v relied' _
    refine ⟨.inr rfl, fun reply u stepped _ => ?_⟩
    have still : v.db.run? snapshot.runID = some row := by rw [Attempts.run? relied', Attempts.run? relied, stored]
    obtain ⟨tid, a, spawned, served, performed⟩ := stepped
    cases updated : v.db.updateDagRunState snapshot.runID .timedOut snapshot.startedAt (some fin) with
    | error e =>
      unfold DB.updateDagRunState at updated
      simp [still, running, legalPriorRunStates] at updated
    | ok db =>
      obtain ⟨old, found, _, runs, instances, _⟩ := DB.updateDagRunState_ok updated
      have wrote : World.perform tid (.updateDagRunState snapshot.runID .timedOut snapshot.startedAt (some fin)) a v =
          some (.ok (), { v with db }, []) := by
        show World.write a v (v.db.updateDagRunState _ _ _ _) v.trail = _
        rw [World.write, if_pos (served rfl), updated]
      cases wrote.symm.trans performed
      refine ⟨rfl, (Attempts.moves relied').trans ⟨fun key _ => .inl ?_, fun other found' ended => ?_⟩, _, (runs _).trans (if_pos rfl), rfl⟩
      · exact congrArg (fun table => DB.instance? { v.db with taskInstances := table } key) instances
      · rw [still] at found'
        cases found'
        rw [running] at ended
        cases ended
  · obtain ⟨rfl, since, row, found, timedOut⟩ := written
    have over_ : Ended snapshot.runID u := ⟨row, found, by rw [timedOut]; rfl⟩
    refine (timeoutInstances_expire listed (moved.trans (relied.moves.trans since)) over_).mono fun _ x expired => ⟨⟨row, ?_, timedOut⟩, expired.2⟩
    exact expired.1.ended row found (by rw [timedOut]; rfl)

theorem Expired.stable {tis : List TaskInstance} {beside : World → Op → Prop} (attempts : Attempts env beside w v) (expired : Expired run tis w) :
    Expired run tis v where
  timedOut := by
    rw [Attempts.run? attempts]
    exact expired.timedOut
  settled ti member := by
    obtain ⟨row, found, ended⟩ := expired.settled ti member
    exact ⟨row, attempts.ended found ended, ended⟩

/-- All of a verified program's statements, and those beside it, move the rows. -/
theorem exec_moves {p q : Act A} {post : Except Failure A → World → Prop} (safe : p.Safe (keeping env run) post s)
    (stable : ∀ r s t, (keeping env run).rely s t → post r s → post r t) (ran : Exec (keeping env run) p s q t) :
    Moves run s t ∧ q.Safe (keeping env run) post t := by
  have still {q : Act A} {t : World} (ran : Exec (keeping env run) p s q t) : q.Safe (keeping env run) post t :=
    (safe.ends trivial (fun _ => ReflTransGen.refl) (fun _ _ _ => ReflTransGen.trans) (fun _ _ _ _ => trivial)
      (fun _ _ _ _ _ _ _ => trivial) stable ran).2
  refine ⟨?_, still ran⟩
  induction ran with
  | refl => exact .refl run _
  | others _ moved ih => exact (ih safe still).trans (Attempts.moves moved)
  | issue ran stepped ih =>
    have within := (still ran _ ReflTransGen.refl trivial).1
    exact (ih safe still).trans (expiring_moves within stepped)

end Timeout

/-- A timeout of a run: its tasks are listed at the start, and `mid` is a moment between then and the end. -/
def TimesOut (env : Env) (snapshot : DagRun) (beside : World → Op → Prop) (start mid final : World) : Prop :=
  ∃ (w : World) (q : Act Unit), Attempts env beside start w ∧
    Exec (expiring env snapshot.runID beside) (timeoutRun snapshot (start.db.listTaskInstances snapshot.runID)) w q mid ∧
    Exec (expiring env snapshot.runID beside) q mid (.done ()) final

/-- Beside attempts of which none is given back, a timeout ends the run and all of its tasks, changes no task that has ended
before it gets to it, and leaves nothing for an attempt to change. -/
theorem timeout_keeps_outcomes (env : Env) {snapshot row : DagRun} {start mid final : World}
    (stored : start.db.run? snapshot.runID = some row) (running : row.state = .running)
    (ran : TimesOut env snapshot (Keeping snapshot.runID) start mid final) :
    Expired snapshot.runID (start.db.listTaskInstances snapshot.runID) final ∧
    (∀ (key : InstanceKey) (x : TaskInstance), key.run = snapshot.runID → mid.db.instance? key = some x → x.state.isTerminal = true →
      final.db.instance? key = some x) ∧
    ∀ later, Attempts env (fun _ _ => True) final later → ∀ ti ∈ start.db.listTaskInstances snapshot.runID,
      later.db.instance? ti.key = final.db.instance? ti.key := by
  obtain ⟨w, q, before, first, second⟩ := ran
  have listed (ti : TaskInstance) (member : ti ∈ start.db.listTaskInstances snapshot.runID) := (DB.mem_listTaskInstances _ _).mp member
  have still : w.db.run? snapshot.runID = some row := (Attempts.run? before _).trans stored
  have safe := @timeoutRun_expires env _ _ _ _ _ listed before.moves still running
  have half := exec_moves safe (fun _ _ _ => Expired.stable) first
  have whole := exec_moves half.2 (fun _ _ _ => Expired.stable) second
  have expired : Expired snapshot.runID (start.db.listTaskInstances snapshot.runID) final := whole.2
  refine ⟨expired, fun key x own found ended => ?_, fun later attempts ti member => ?_⟩
  · have move := whole.1.rows key own
    rw [found] at move
    exact move.ended ended
  · obtain ⟨x, found, ended⟩ := expired.settled ti member
    rw [attempts.ended found ended, found]

/-! ### A task of a group that has lost its workers -/

def lateEnv : Env where
  parse _ := none
  hash yaml := yaml
  shift _ _ _ := none
  parseSchedule _ _ := none
  decodePayload _ := none

def lateRun : DagRun := { runID := .manual "train" 0, dagID := "train", logicalDate := 0, state := .running, triggerType := .manual, startedAt := some 0 }

def trainTask : Task := { id := "fit", workerGroup := "gpu" }

/-- The task is dispatched, and not launched yet. -/
def queuedFit : TaskInstance where
  runID := lateRun.runID
  taskID := "fit"
  state := .queued
  tryNumber := 1
  executorRef := .attempt lateRun.runID "fit" 1

def lateWorld : World where
  db := { DB.empty with
    runs := ⟨[lateRun], List.pairwise_singleton _ _⟩
    taskInstances := ⟨[queuedFit], List.pairwise_singleton _ _⟩ }

/-- The run is timed out, and its task is about to be. -/
def overdueWorld : World where
  db := { DB.empty with
    runs := ⟨[{ lateRun with state := .timedOut, finishedAt := some 0 }], List.pairwise_singleton _ _⟩
    taskInstances := ⟨[queuedFit], List.pairwise_singleton _ _⟩ }

/-- The write of the timeout. -/
def overdueWrite : Op := .updateTaskInstanceGuarded { queuedFit with state := .timedOut, finishedAt := some 0 } queuedFit.executorRef

section Late

variable (beside : World → Op → Prop)

theorem late_served {o : Op} {w v : World} {reply : o.Reply} {spawned : List Request} (performed : World.perform 0 o {} w = some (reply, v, spawned)) :
    (expiring lateEnv lateRun.runID beside).step o w reply v := ⟨0, {}, spawned, fun _ => rfl, performed⟩

/-- The statements of the timeout before it writes the task. -/
theorem late_run_ends : ∃ k : Except StoreError Bool → Act Unit, (∀ reply, k reply = .done ()) ∧
    Exec (expiring lateEnv lateRun.runID beside) (timeoutRun lateRun (lateWorld.db.listTaskInstances lateRun.runID)) lateWorld
      (.call overdueWrite k) overdueWorld := by
  have start := Exec.refl (c := expiring lateEnv lateRun.runID beside) (timeoutRun lateRun [queuedFit]) lateWorld
  have timed := Exec.issue (o := Op.now) start (late_served beside rfl)
  have ended := Exec.issue (o := Op.updateDagRunState lateRun.runID .timedOut (some 0) (some 0)) (r := Except.ok ()) timed (late_served beside rfl)
  have killed := Exec.issue (o := Op.cancel queuedFit.executorRef) ended (late_served beside rfl)
  refine ⟨_, fun reply => ?_, killed⟩
  cases reply <;> rfl

end Late

/-- With no attempt beside it, the timeout ends the task. -/
theorem late_task_times_out : ∃ final, TimesOut lateEnv lateRun (Keeping lateRun.runID) lateWorld overdueWorld final ∧
    Expired lateRun.runID (lateWorld.db.listTaskInstances lateRun.runID) final := by
  obtain ⟨k, done, ran⟩ := late_run_ends (Keeping lateRun.runID)
  have performed : ∃ final, World.perform 0 overdueWrite {} overdueWorld = some (.ok true, final, []) := ⟨_, rfl⟩
  obtain ⟨final, performed⟩ := performed
  have written := Exec.issue (Exec.refl (.call overdueWrite k) overdueWorld) (late_served (Keeping lateRun.runID) performed)
  rw [done] at written
  have whole : TimesOut lateEnv lateRun (Keeping lateRun.runID) lateWorld overdueWorld final := ⟨lateWorld, _, .refl, ran, written⟩
  exact ⟨final, whole, (@timeout_keeps_outcomes lateEnv _ lateRun _ _ _ rfl rfl whole).1⟩

def returnedFit : TaskInstance := { queuedFit with tryNumber := 0, state := .scheduled, executorRef := .none }

def returnedWorld : World := { overdueWorld with db := { overdueWorld.db with taskInstances := ⟨[returnedFit], List.pairwise_singleton _ _⟩ } }

/-- The group has no worker, and the attempt is given back while the timeout is at the task. -/
theorem fit_given_back : AttemptStep lateEnv (fun _ _ => True) overdueWorld returnedWorld := by
  obtain ⟨k, looks, k', launches, k'', gives⟩ : ∃ k, serve lateEnv (.goroutine (.runTask lateRun trainTask queuedFit) 0) =
      .call (.getTaskInstance queuedFit.key) k ∧ ∃ k', k (.ok queuedFit) = .call (.launch "gpu" queuedFit.executorRef) k' ∧
      ∃ k'', k' .noWorker = .call (.updateTaskInstanceGuarded returnedFit queuedFit.executorRef) k'' := ⟨_, rfl, _, rfl, _, rfl⟩
  have looked := (After.start (p := Prog.call (I := statements) (E := Failure) (Op.getTaskInstance queuedFit.key) k)).issue (Except.ok queuedFit)
  rw [launches] at looked
  have refused := looked.issue Launch.noWorker
  rw [gives, ← looks] at refused
  exact .mk _ _ _ (.updateTaskInstanceGuarded returnedFit queuedFit.executorRef) _ 1 {} (Except.ok true) [] refused trivial rfl

/-- A task that is given back stays scheduled in a run that is timed out. -/
theorem given_back_is_left : ¬ ∀ (env : Env) (snapshot row : DagRun) (start mid final : World), start.db.run? snapshot.runID = some row →
    row.state = .running → TimesOut env snapshot (fun _ _ => True) start mid final →
      Expired snapshot.runID (start.db.listTaskInstances snapshot.runID) final := by
  intro claim
  obtain ⟨k, done, ran⟩ := late_run_ends fun _ _ => True
  have beside := Exec.others (c := expiring lateEnv lateRun.runID fun _ _ => True) (Exec.refl (.call overdueWrite k) overdueWorld)
    (ReflTransGen.single fit_given_back)
  have passed : World.perform 0 overdueWrite {} returnedWorld = some (.ok false, returnedWorld, []) := rfl
  have written := Exec.issue beside (late_served (fun _ _ => True) passed)
  rw [done] at written
  have expired := claim lateEnv lateRun lateRun lateWorld overdueWorld returnedWorld rfl rfl ⟨lateWorld, _, .refl, ran, written⟩
  obtain ⟨x, found, ended⟩ := expired.settled queuedFit (.head _)
  have still : returnedWorld.db.instance? queuedFit.key = some returnedFit := rfl
  rw [still] at found
  cases found
  cases ended

end Cronova.Scheduler
