import Cronova.Scheduler.Frame
import Cronova.Scheduler.System

/-! `Recover` after a restart: what becomes of the sub-workflow tasks and of the attempts that
were never launched. -/

set_option autoImplicit false

namespace Cronova.Scheduler

open Model Store Process

/-- What the end of an attempt issues: guarded writes of its own row, and no write of another. -/
def attemptMay (key : InstanceKey) : Op → Prop
  | .updateTaskInstanceGuarded ti _ => ti.key = key
  | .now | .probe _ | .await _ | .cancel _ | .readOutput _ | .removeOutput _ | .setTaskOutput _ _ => True
  | .go (.awaitCompletion ti) => ti.key = key
  | _ => False

section Programs

variable {env : Env} {key : InstanceKey} {ti : TaskInstance}

/-- A program that issues only what an attempt may issue, and does not fail. -/
def OnlyOwn {A : Type} (key : InstanceKey) (p : Act A) : Prop :=
  p.Safe (Prog.blind (attemptMay key)) (Prog.returns fun _ _ => True) ()

/-- An action whose result is dropped. -/
theorem OnlyOwn.void {A : Type} {p : Act A} (own : OnlyOwn key p) : OnlyOwn key (p.bind fun _ => pure ()) :=
  Prog.Safe.andThen _ own fun _ _ _ => trivial

theorem updateGuarded_own {ref : ExecutorRef} (own : ti.key = key) :
    OnlyOwn key (updateTaskInstanceGuarded ti ref).attempt := by
  intro _ _ _
  refine ⟨own, fun reply _ _ _ => ?_⟩
  cases reply <;> trivial

theorem finalizeWrite_own (own : ti.key = key) : OnlyOwn key (finalizeWrite ti) := (updateGuarded_own own).void

theorem recordFailure_own (own : ti.key = key) : OnlyOwn key (recordFailure ti) := by
  intro _ _ _
  refine ⟨trivial, fun now _ _ _ => ?_⟩
  show Prog.Safe _ (Prog.bind (finalizeWrite _) _) _ _
  exact Prog.Safe.andThen _ (finalizeWrite_own own) fun _ _ _ => trivial

theorem collectTaskOutput_own (ti : TaskInstance) : OnlyOwn key (collectTaskOutput env ti) := by
  intro _ _ _
  refine ⟨trivial, fun output _ _ _ => ?_⟩
  have removes : OnlyOwn key (perform (.removeOutput ti)) := fun _ _ _ => ⟨trivial, fun _ _ _ _ => trivial⟩
  cases output with
  | none => trivial
  | some output =>
    show OnlyOwn key (if validOutput env output = true then _ else _)
    split
    · refine fun _ _ _ => ⟨trivial, fun stored _ _ _ => ?_⟩
      cases stored <;> exact removes
    · exact removes

theorem finalizeTask_own (own : ti.key = key) (code : Int) : OnlyOwn key (finalizeTask env ti code) := by
  unfold finalizeTask
  split
  · intro _ _ _
    refine ⟨trivial, fun now _ _ _ => ?_⟩
    show Prog.Safe _ (Prog.bind (finalizeWrite _) _) _ _
    refine Prog.Safe.andThen _ (finalizeWrite_own own) fun _ _ _ => ?_
    split
    · exact collectTaskOutput_own _
    · trivial
  · exact (recordFailure_own own).void

theorem finalizeTaskLost_own (own : ti.key = key) : OnlyOwn key (finalizeTaskLost ti) := (recordFailure_own own).void

theorem awaitCompletion_own (own : ti.key = key) : OnlyOwn key (awaitCompletion env ti) := by
  intro _ _ _
  refine ⟨trivial, fun outcome _ _ _ => ?_⟩
  cases outcome with
  | lost => exact finalizeTaskLost_own own
  | exited code => exact finalizeTask_own own code

theorem reattach_own (own : ti.key = key) : OnlyOwn key (reattach ti) :=
  fun _ _ _ => ⟨own, fun _ _ _ _ => trivial⟩

/-- The guarded write that marks the row as running, and what follows it. -/
theorem resumed_own (own : ti.key = key) (started : Calendar.Time) : OnlyOwn key (do
    let ti := { ti with state := .running, startedAt := some started }
    match ← (updateTaskInstanceGuarded ti ti.executorRef).attempt with
    | .error _ => pure ()
    | .ok false => perform (.cancel ti.executorRef)
    | .ok true => reattach ti) := by
  refine Prog.Safe.andThen _ (updateGuarded_own own) fun applied _ _ => ?_
  cases applied with
  | error _ => trivial
  | ok applied =>
    cases applied with
    | false => exact fun _ _ _ => ⟨trivial, fun _ _ _ _ => trivial⟩
    | true => exact reattach_own own

theorem recoverQueued_own (own : ti.key = key) : OnlyOwn key (recoverQueued env ti) := by
  intro _ _ _
  refine ⟨trivial, fun status _ _ _ => ?_⟩
  cases status with
  | none => trivial
  | some status =>
    cases status with
    | exited code => exact finalizeTask_own own code
    | unknown =>
      refine OnlyOwn.void ?_
      exact updateGuarded_own own
    | running =>
      dsimp only [Prog.done_bind]
      split
      · rename_i started _
        exact resumed_own own started
      · exact fun _ _ _ => ⟨trivial, fun now _ _ _ => resumed_own own now⟩

theorem recoverRunning_own (own : ti.key = key) : OnlyOwn key (recoverRunning env ti) := by
  intro _ _ _
  refine ⟨trivial, fun status _ _ _ => ?_⟩
  cases status with
  | none => trivial
  | some status =>
    cases status with
    | exited code => exact finalizeTask_own own code
    | running => exact reattach_own own
    | unknown => exact finalizeTaskLost_own own

end Programs

section Frame

variable {key : InstanceKey} {o : Op} {w v : World}

/-- An attempt does not touch the row of another task. -/
theorem attemptMay_frame {own : InstanceKey} {tid : Nat} {a : Answer} {reply : o.Reply} {spawned : List Request}
    (may : attemptMay own o) (other : key ≠ own) (performed : World.perform tid o a w = some (reply, v, spawned)) :
    v.db.instance? key = w.db.instance? key := by
  obtain ⟨_, _, _, same | written⟩ := World.perform_some performed
  · rw [same]
  · cases o with
    | updateTaskInstanceGuarded ti ref =>
      obtain rfl : ti.key = own := may
      have after : v.db = w.db.writeInstance ti (DB.holdsAttempt ref) := (Option.some.inj written).symm
      rw [after, DB.instance?_writeInstance, if_neg other]
    | setTaskOutput ti output =>
      rw [DB.instance?, Op.writes_instances written rfl, ← DB.instance?]
    | _ => first | exact may.elim | cases written

end Frame

section Subdag

variable {env : Env} {surroundings : Op → Answer} {w : World} {ti : TaskInstance}

/-- A running sub-workflow task whose child run is still queued or running. -/
def LiveSubdag (db : DB) (ti : TaskInstance) : Prop :=
  ti ∈ db.taskInstances ∧ ti.state = .running ∧
    ∃ child run, ti.executorRef = .subdag child ∧ db.run? child = some run ∧ run.state.isActive = true

/-- The row holds the failure that `recordFailure` writes for a lost attempt. -/
def Lost (db : DB) (ti : TaskInstance) : Prop :=
  ∃ row, db.instance? ti.key = some row ∧ (row.state = .upForRetry ∨ row.state = .failed)

/-- The row that `recordFailure` writes. -/
def failure (ti : TaskInstance) (now : Calendar.Time) : TaskInstance :=
  { ti with finishedAt := some now, state := if ti.tryNumber ≤ ti.maxRetries then .upForRetry else .failed }

theorem lost_writeInstance {db : DB} (stored : db.instance? ti.key = some ti) (running : ti.state = .running)
    (now : Calendar.Time) : Lost (db.writeInstance (failure ti now) (DB.holdsAttempt ti.executorRef)) ti := by
  have holds : DB.holdsAttempt ti.executorRef ti = true := by simp [DB.holdsAttempt, running, TaskState.isTerminal]
  refine ⟨failure ti now, ?_, ?_⟩
  · rw [DB.instance?_writeInstance_own (by rfl), stored, Option.map_some, if_pos holds]
  · unfold failure
    split
    · exact .inl rfl
    · exact .inr rfl

theorem consult_step (o : Op) (w : World) : ((World.consult surroundings o w).2 = w) ∨
    ∃ reply v spawned, World.perform 0 o (surroundings o) w = some (reply, v, spawned) ∧ (World.consult surroundings o w).2 = v := by
  unfold World.consult
  cases performed : World.perform 0 o (surroundings o) w with
  | none => exact .inl rfl
  | some result => exact .inr ⟨_, _, _, rfl, rfl⟩

theorem consult_guarded (served : ∀ o, (surroundings o).served = true) (ti : TaskInstance) (ref : ExecutorRef) (w : World) :
    World.consult surroundings (.updateTaskInstanceGuarded ti ref) w =
      (.ok (w.db.updateTaskInstanceGuarded ti ref).1, { w with db := w.db.writeInstance ti (DB.holdsAttempt ref) }) := by
  simp only [World.consult, World.perform, World.writeFlag, served, if_true]
  rfl

theorem consult_listTaskInstancesByState (served : ∀ o, (surroundings o).served = true) (state : TaskState) (w : World) :
    World.consult surroundings (.listTaskInstancesByState state) w = (.ok (w.db.listTaskInstancesByState state), w) := by
  simp only [World.consult, World.perform, World.read, served, if_true]

theorem safe_listing {A : Type} {k : List TaskInstance → Act A} {post : Except Failure A → World → Prop}
    (served : ∀ o, (surroundings o).served = true) (state : TaskState)
    (next : (k (w.db.listTaskInstancesByState state)).Safe (Prog.sequential (World.consult surroundings) fun _ => True) post w) :
    (listTaskInstancesByState state >>= k).Safe (Prog.sequential (World.consult surroundings) fun _ => True) post w := by
  rintro _ rfl _
  refine ⟨trivial, fun reply t stepped _ => ?_⟩
  cases (consult_listTaskInstancesByState served state w).symm.trans stepped
  exact next

/-- The program of another attempt, run alone, keeps the row. -/
theorem OnlyOwn.keeps {key own : InstanceKey} {A : Type} {p : Act A} (only : OnlyOwn own p) (other : key ≠ own) (w : World) :
    p.Safe (Prog.sequential (World.consult surroundings) fun _ => True)
      (fun r t => Prog.returns (fun _ _ => True) r () ∧ t.db.instance? key = w.db.instance? key) w := by
  refine Prog.Safe.framed only (fun s t : World => t.db.instance? key = s.db.instance? key) (fun _ => rfl)
    (fun _ _ _ first second => second.trans first) ?_ ?_ w fun _ _ _ _ _ => trivial
  · intro s t same
    cases same
    rfl
  · intro o s r t may _ stepped
    have moved : (World.consult surroundings o s).2 = t := congrArg Prod.snd stepped
    rcases consult_step o s with same | ⟨_, v, _, performed, after⟩
    · rw [← moved, same]
    · rw [← moved, after]
      exact attemptMay_frame may other performed

/-- A running row that the executor does not know is recorded as a failed attempt. -/
theorem recoverRunning_lost (served : ∀ o, (surroundings o).served = true)
    (unknown : (surroundings (.probe ti.executorRef)).status = some .unknown) (stored : w.db.instance? ti.key = some ti)
    (running : ti.state = .running) :
    (recoverRunning env ti).Safe (Prog.sequential (World.consult surroundings) fun _ => True)
      (fun r t => r = .ok () ∧ Lost t.db ti) w := by
  rintro _ rfl _
  refine ⟨trivial, fun status t stepped _ => ?_⟩
  have answered : ((surroundings (.probe ti.executorRef)).status, w) = (status, t) := stepped
  rw [unknown] at answered
  cases answered
  rintro _ rfl _
  refine ⟨trivial, fun now t stepped _ => ?_⟩
  cases stepped
  rintro _ rfl _
  refine ⟨trivial, fun applied t stepped _ => ?_⟩
  replace stepped := (consult_guarded served _ _ _).symm.trans stepped
  cases stepped
  exact ⟨rfl, lost_writeInstance stored running _⟩

/-- `Recover` records every running sub-workflow task as a failed attempt. -/
theorem recover_loses (served : ∀ o, (surroundings o).served = true)
    (unknown : (surroundings (.probe ti.executorRef)).status = some .unknown) (stored : w.db.instance? ti.key = some ti)
    (running : ti.state = .running) :
    Lost ((recover env).run (World.consult surroundings) w).2.db ti := by
  have safe : (recover env).Safe (Prog.sequential (World.consult surroundings) fun _ => True) (fun _ t => Lost t.db ti) w := by
    refine safe_listing served .queued ?_
    apply Prog.Safe.andThen fun _ (t : World) => t.db.instance? ti.key = some ti
    · -- the queued rows are rows of other tasks
      apply Prog.Safe.forEach fun (rest : List TaskInstance) (t : World) =>
        (∀ other ∈ rest, ti.key ≠ other.key) ∧ t.db.instance? ti.key = some ti
      · refine ⟨fun other listed same => ?_, stored⟩
        obtain ⟨found, queued⟩ := DB.mem_listTaskInstancesByState.mp listed
        rw [← same, stored] at found
        cases found
        rw [running] at queued
        cases queued
      · intro other rest t kept
        refine ((recoverQueued_own rfl).keeps (kept.1 other (.head _)) t).mono fun r u ended => ?_
        cases r with
        | error e => exact ended.1.elim
        | ok _ => exact ⟨fun x member => kept.1 x (.tail _ member), ended.2.trans kept.2⟩
      · exact fun t kept => kept.2
    · intro _ t found
      refine safe_listing served .running ?_
      -- the row is still to come, or it has been written and no later row is its own
      apply Prog.Safe.forEach fun (rest : List TaskInstance) (t : World) =>
        (rest.map TaskInstance.key).Nodup ∧ ((ti ∈ rest ∧ t.db.instance? ti.key = some ti) ∨
          ((∀ other ∈ rest, ti.key ≠ other.key) ∧ Lost t.db ti))
      · exact ⟨DB.listTaskInstancesByState_keys _ _, .inl ⟨DB.mem_listTaskInstancesByState.mpr ⟨found, running⟩, found⟩⟩
      · intro row rest t kept
        obtain ⟨distinct, progress⟩ := kept
        obtain ⟨apart, restDistinct⟩ := List.nodup_cons.mp distinct
        by_cases own : ti.key = row.key
        · have later : ∀ other ∈ rest, ti.key ≠ other.key := fun other member same =>
            apart (List.mem_map.mpr ⟨other, member, same.symm.trans own⟩)
          rcases progress with ⟨member, still⟩ | ⟨never, _⟩
          · obtain rfl : ti = row := by
              rcases List.mem_cons.mp member with same | tail
              · exact same
              · exact absurd rfl (later ti tail)
            refine (recoverRunning_lost served unknown still running).mono fun r u ended => ?_
            obtain ⟨rfl, lost⟩ := ended
            exact ⟨restDistinct, .inr ⟨later, lost⟩⟩
          · exact absurd own (never row (.head _))
        · refine ((recoverRunning_own rfl).keeps own t).mono fun r u ended => ?_
          cases r with
          | error e => exact ended.1.elim
          | ok _ =>
            refine ⟨restDistinct, ?_⟩
            rcases progress with ⟨member, still⟩ | ⟨never, lost⟩
            · have tail : ti ∈ rest := by
                rcases List.mem_cons.mp member with same | tail
                · exact absurd (congrArg TaskInstance.key same) own
                · exact tail
              exact .inl ⟨tail, ended.2.trans still⟩
            · obtain ⟨stored, found, state⟩ := lost
              exact .inr ⟨fun x member => never x (.tail _ member), stored, ended.2.trans found, state⟩
      · rintro t ⟨_, ⟨none, _⟩ | ⟨_, lost⟩⟩
        · cases none
        · exact lost
  exact (safe.runs (fun _ _ _ => trivial) trivial).2

/-- `Recover` leaves the live sub-workflow tasks alone only where there are none: the executor
does not know a child run, so each of them is recorded as lost. -/
theorem recover_keeps_live_subdags_iff (env : Env) (w : World) (surroundings : Op → Answer) (served : ∀ o, (surroundings o).served = true)
    (executor : ∀ child, (surroundings (.probe (.subdag child))).status = some .unknown) :
    (∀ ti, LiveSubdag w.db ti → ((recover env).run (World.consult surroundings) w).2.db.instance? ti.key = some ti) ↔
      ¬ ∃ ti, LiveSubdag w.db ti := by
  constructor
  · rintro keeps ⟨ti, live⟩
    obtain ⟨stored, running, child, run, ref, _, _⟩ := id live
    have unknown : (surroundings (.probe ti.executorRef)).status = some .unknown := by
      rw [ref]
      exact executor child
    obtain ⟨row, found, state⟩ := recover_loses served unknown (DB.instance?_of_mem stored) running
    rw [keeps ti live] at found
    cases found
    rw [running] at state
    rcases state with state | state
    · cases state
    · cases state
  · exact fun none ti live => absurd ⟨ti, live⟩ none

/-- An environment in which nothing parses. -/
def anyEnv : Env where
  parse _ := none
  hash yaml := yaml
  shift _ _ _ := none
  parseSchedule _ _ := none
  decodePayload _ := none

/-- A parent that waits for its running child. -/
def parentTask : TaskInstance where
  runID := .manual "parent" 0
  taskID := "child"
  state := .running
  tryNumber := 1
  executorRef := .subdag (.sub "child" 5)
  startedAt := some 5

def parentWorld : World where
  db := { DB.empty with
    runs := ⟨[{ runID := .manual "parent" 0, dagID := "parent", logicalDate := 0, state := .running, triggerType := .manual },
      { runID := .sub "child" 5, dagID := "child", logicalDate := 5, state := .running, triggerType := .subdag,
        parentRunID := some (.manual "parent" 0) }], by decide⟩
    taskInstances := ⟨[parentTask], by decide⟩ }

/-- An executor that knows no attempt at all. -/
def restarted : Op → Answer := fun _ => { now := 10, status := some .unknown }

theorem parentTask_live : LiveSubdag parentWorld.db parentTask :=
  ⟨List.mem_singleton.mpr rfl, rfl, .sub "child" 5, _, rfl, rfl, rfl⟩

/-- After the restart the parent has failed while its child still runs. -/
theorem restart_fails_live_subdag :
    ¬ ∀ (env : Env) (w : World) (surroundings : Op → Answer), (∀ o, (surroundings o).served = true) →
      (∀ child, (surroundings (.probe (.subdag child))).status = some .unknown) →
      ∀ ti, LiveSubdag w.db ti → ((recover env).run (World.consult surroundings) w).2.db.instance? ti.key = some ti := by
  intro claim
  have kept := claim anyEnv parentWorld restarted (fun _ => rfl) (fun _ => rfl) parentTask parentTask_live
  have failed : (((recover anyEnv).run (World.consult restarted) parentWorld).2.db.instance? parentTask.key).map (·.state) =
      some .failed := by rfl
  rw [kept] at failed
  cases failed

theorem parent_lost_at_restart : (∃ ti, LiveSubdag parentWorld.db ti) ∧
    ¬ ∀ ti, LiveSubdag parentWorld.db ti →
      ((recover anyEnv).run (World.consult restarted) parentWorld).2.db.instance? ti.key = some ti := by
  have live : ∃ ti, LiveSubdag parentWorld.db ti := ⟨parentTask, parentTask_live⟩
  refine ⟨live, fun keeps => ?_⟩
  exact (recover_keeps_live_subdags_iff anyEnv parentWorld restarted (fun _ => rfl) (fun _ => rfl)).mp keeps live

end Subdag

section NeverLaunched

/-- The worker hub at one moment. -/
structure Hub where
  owns : ExecutorRef → Bool
  status : ExecutorRef → Option Status
  inBootGrace : Bool

/-- The executors at one moment, behind `routedExec` if a hub is attached. -/
structure Routing where
  hub : Option Hub
  onHost : ExecutorRef → Option Status

namespace Routing

variable (r : Routing) (ref : ExecutorRef)

/-- `routedExec.Probe`, or the probe of the local executor where no hub is attached. -/
def probe : Option Status :=
  match r.hub with
  | none => r.onHost ref
  | some hub =>
    if hub.owns ref then hub.status ref else
    match r.onHost ref with
    -- the worker of a remote attempt may not have reconnected yet
    | some .unknown => if hub.inBootGrace then some .running else some .unknown
    | status => status

def inBootGrace : Bool := r.hub.any (·.inBootGrace)

/-- No executor has a record of the attempt. -/
def NeverLaunched : Prop := r.onHost ref = some .unknown ∧ r.hub.all (fun hub => !hub.owns ref) = true

variable {r ref}

theorem probe_neverLaunched (never : r.NeverLaunched ref) (grace : r.inBootGrace = false) : r.probe ref = some .unknown := by
  obtain ⟨unknown, unowned⟩ := never
  unfold probe
  cases attached : r.hub with
  | none => exact unknown
  | some hub =>
    simp_all [inBootGrace]

end Routing

variable (env : Env) (ti : TaskInstance)

/-- The row before the dispatch of the attempt. -/
def givenBack : TaskInstance := { ti with state := .scheduled, executorRef := .none, tryNumber := ti.tryNumber - 1 }

/-- The executors never launched the attempt and answer for it as their `routing` of the moment
says; the store serves the listing of the queued rows and the guarded writes. -/
def Unlaunched (routing : Routing → Prop) (a : Answer) : Op → Prop
  | .probe ref | .await ref =>
    ref = ti.executorRef → ∃ r : Routing, r.NeverLaunched ref ∧ routing r ∧ a.status = r.probe ref
  | .listTaskInstancesByState .queued | .updateTaskInstanceGuarded _ _ => a.served = true
  | _ => True

def OutsideGrace : Answer → Op → Prop := Unlaunched ti fun r => r.inBootGrace = false

/-- What a thread may issue while the attempt is given back. The row itself is written by
`Recover` alone, which is the first thread of the process. -/
inductive RecoveryMay (tid : Nat) : Op → Prop where
  | other {o : Op} (own : InstanceKey) (apart : ti.key ≠ own) (may : attemptMay own o) : RecoveryMay tid o
  | lists (first : tid = 0) (state : TaskState) : RecoveryMay tid (.listTaskInstancesByState state)
  | probes (first : tid = 0) (ref : ExecutorRef) : RecoveryMay tid (.probe ref)
  | resets (first : tid = 0) : RecoveryMay tid (.updateTaskInstanceGuarded (givenBack ti) ti.executorRef)

def recovery : Protocol (scheduler env) where
  allowed _ o a _ := OutsideGrace ti a o
  requests _ := False
  restarts _ _ := True
  inv w := w.db.instance? ti.key = some ti ∨ w.db.instance? ti.key = some (givenBack ti)
  rely tid w v := tid = 0 → v.db.instance? ti.key = w.db.instance? ti.key
  may tid o _ := RecoveryMay ti tid o
  post tid _ _ w := tid = 0 → w.db.instance? ti.key = some (givenBack ti)

variable {env ti}

/-- The row stays as it is, or `Recover` gives it back. -/
theorem recoveryMay_row {tid : Nat} {o : Op} {a : Answer} {w v : World} {reply : o.Reply} {spawned : List Request}
    (may : RecoveryMay ti tid o) (performed : World.perform tid o a w = some (reply, v, spawned)) :
    v.db.instance? ti.key = w.db.instance? ti.key ∨ (tid = 0 ∧ v.db.instance? ti.key =
      (w.db.instance? ti.key).map fun row => if DB.holdsAttempt ti.executorRef row then givenBack ti else row) := by
  cases may with
  | other own apart may => exact .inl (attemptMay_frame may apart performed)
  | lists first state =>
    obtain ⟨rfl, _⟩ := World.read_some performed
    exact .inl rfl
  | probes first ref =>
    cases performed
    exact .inl rfl
  | resets first =>
    obtain ⟨_, ⟨_, rfl⟩ | ⟨_, rfl⟩⟩ := World.writeFlag_some performed
    · exact .inr ⟨first, DB.instance?_writeInstance_own rfl _⟩
    · exact .inl rfl

theorem recoveryMay_inv {tid : Nat} {o : Op} {a : Answer} {w v : World} {reply : o.Reply} {spawned : List Request}
    (may : RecoveryMay ti tid o) (performed : World.perform tid o a w = some (reply, v, spawned))
    (inv : (recovery env ti).inv w) : (recovery env ti).inv v := by
  rcases recoveryMay_row may performed with same | ⟨_, written⟩
  · exact inv.imp same.trans same.trans
  · rcases inv with stored | stored
    · rw [stored, Option.map_some] at written
      split at written
      · exact .inr written
      · exact .inl written
    · right
      rw [written, stored, Option.map_some, ite_self]

/-- The program of another attempt, as a part of `Recover`. -/
theorem OnlyOwn.apart {own : InstanceKey} {A : Type} {p : Act A} (only : OnlyOwn own p) (apart : ti.key ≠ own) (tid : Nat)
    (w : World) : p.Safe ((recovery env ti).contract tid) (fun r v => Prog.returns (fun _ _ => True) r () ∧
      (tid = 0 → v.db.instance? ti.key = w.db.instance? ti.key)) w := by
  refine Prog.Safe.framed only (fun s t : World => tid = 0 → t.db.instance? ti.key = s.db.instance? ti.key) (fun _ _ => rfl)
    (fun _ _ _ first second zero => (second zero).trans (first zero)) (fun _ _ relied => relied) ?_ w
    fun o _ _ _ may => .other own apart may
  rintro o s r t may _ ⟨_, _, _, performed⟩ _
  exact attemptMay_frame may apart performed

/-- The row of the attempt that was never launched is given back. -/
theorem recoverQueued_givesBack (queued : ti.state = .queued) (charged : 0 < ti.tryNumber) (w : World)
    (stored : w.db.instance? ti.key = some ti) : (recoverQueued env ti).Safe ((recovery env ti).contract 0)
      (fun r v => r = .ok () ∧ v.db.instance? ti.key = some (givenBack ti)) w := by
  intro w' relied _
  refine ⟨.probes rfl _, fun status v stepped _ => ?_⟩
  obtain ⟨a, _, allowed, performed⟩ := stepped
  obtain ⟨r, never, grace, answered⟩ := allowed rfl
  have unknown : some (a.status, w', []) = some (status, v, _) := performed
  rw [answered, Routing.probe_neverLaunched never grace] at unknown
  cases unknown
  -- the reset, with the increment of this attempt undone
  have back : ({ ti with
      state := .scheduled, executorRef := .none,
      tryNumber := if ti.tryNumber > 0 then ti.tryNumber - 1 else ti.tryNumber } : TaskInstance) = givenBack ti := by
    rw [if_pos charged]
    rfl
  intro u later _
  dsimp only
  rw [back]
  refine ⟨.resets rfl, fun applied x stepped _ => ?_⟩
  obtain ⟨b, spawned, served, performed⟩ := stepped
  replace served : b.served = true := served
  have found : u.db.instance? ti.key = some ti := ((later rfl).trans (relied rfl)).trans stored
  have holds : DB.holdsAttempt ti.executorRef ti = true := by simp [DB.holdsAttempt, queued, TaskState.isTerminal]
  cases (World.writeFlag_served served).symm.trans performed
  refine ⟨rfl, ?_⟩
  have written : (u.db.writeInstance (givenBack ti) (DB.holdsAttempt ti.executorRef)).instance? ti.key = _ :=
    DB.instance?_writeInstance_own (show (givenBack ti).key = ti.key from rfl) _
  rw [found, Option.map_some, if_pos holds] at written
  exact written

theorem recover_safe (queued : ti.state = .queued) (charged : 0 < ti.tryNumber) (w : World) :
    (recover env).Safe ((recovery env ti).contract 0) (fun _ v => v.db.instance? ti.key = some (givenBack ti)) w := by
  -- once the row is given back no listing shows it
  have hidden {db : DB} (back : db.instance? ti.key = some (givenBack ti)) {state : TaskState} (other : state ≠ .scheduled) :
      ∀ row ∈ db.listTaskInstancesByState state, ti.key ≠ row.key := by
    intro row member same
    obtain ⟨found, shown⟩ := DB.mem_listTaskInstancesByState.mp member
    rw [← same, back] at found
    cases found
    exact other shown.symm
  refine safe_ask (fun v _ _ => .lists rfl _) ?_ ?_
  · rintro v reply u listed _ inv ⟨a, _, served, performed⟩ _ read
    cases (World.read_served served).symm.trans performed
    cases read
    apply Prog.Safe.andThen fun _ (v : World) => v.db.instance? ti.key = some (givenBack ti)
    · -- the row is still to come, or it is given back and no later row is its own
      apply Prog.Safe.forEach fun (rest : List TaskInstance) (t : World) =>
        (rest.map TaskInstance.key).Nodup ∧ ((ti ∈ rest ∧ t.db.instance? ti.key = some ti) ∨
          ((∀ row ∈ rest, ti.key ≠ row.key) ∧ t.db.instance? ti.key = some (givenBack ti)))
      · refine ⟨DB.listTaskInstancesByState_keys _ _, ?_⟩
        rcases inv with stored | back
        · exact .inl ⟨DB.mem_listTaskInstancesByState.mpr ⟨stored, queued⟩, stored⟩
        · exact .inr ⟨hidden back (by decide), back⟩
      · intro row rest t kept
        obtain ⟨distinct, progress⟩ := kept
        obtain ⟨apart, restDistinct⟩ := List.nodup_cons.mp distinct
        by_cases own : ti.key = row.key
        · have later : ∀ other ∈ rest, ti.key ≠ other.key := fun other member same =>
            apart (List.mem_map.mpr ⟨other, member, same.symm.trans own⟩)
          rcases progress with ⟨member, stored⟩ | ⟨never, _⟩
          · obtain rfl : ti = row := by
              rcases List.mem_cons.mp member with same | tail
              · exact same
              · exact absurd rfl (later ti tail)
            refine (recoverQueued_givesBack queued charged t stored).mono fun r u ended => ?_
            obtain ⟨rfl, back⟩ := ended
            exact ⟨restDistinct, .inr ⟨later, back⟩⟩
          · exact absurd own (never row (.head _))
        · refine ((recoverQueued_own rfl).apart own 0 t).mono fun r u ended => ?_
          cases r with
          | error e => exact ended.1.elim
          | ok _ =>
            refine ⟨restDistinct, ?_⟩
            rcases progress with ⟨member, stored⟩ | ⟨never, back⟩
            · have tail : ti ∈ rest := by
                rcases List.mem_cons.mp member with same | tail
                · exact absurd (congrArg TaskInstance.key same) own
                · exact tail
              exact .inl ⟨tail, (ended.2 rfl).trans stored⟩
            · exact .inr ⟨fun x member => never x (.tail _ member), (ended.2 rfl).trans back⟩
      · rintro t ⟨_, ⟨none, _⟩ | ⟨_, back⟩⟩
        · cases none
        · exact back
    · intro _ t back
      refine safe_ask (fun v _ _ => .lists rfl _) ?_ ?_
      · rintro v reply u listed relied _ ⟨a, _, _, performed⟩ _ read
        obtain ⟨rfl, _, answered⟩ := World.read_some performed
        have found : u.db.instance? ti.key = some (givenBack ti) := (relied rfl).trans back
        have listing : listed = u.db.listTaskInstancesByState .running := by
          rcases answered with rfl | rfl
          · cases read
            rfl
          · cases read
        apply Prog.Safe.forEach fun (rest : List TaskInstance) (t : World) =>
          (∀ row ∈ rest, ti.key ≠ row.key) ∧ t.db.instance? ti.key = some (givenBack ti)
        · exact ⟨listing ▸ hidden found (by decide), found⟩
        · intro row rest t kept
          refine ((recoverRunning_own rfl).apart (kept.1 row (.head _)) 0 t).mono fun r u ended => ?_
          cases r with
          | error e => exact ended.1.elim
          | ok _ => exact ⟨fun x member => kept.1 x (.tail _ member), (ended.2 rfl).trans kept.2⟩
        · exact fun t kept => kept.2
      · rintro v reply u e relied _ ⟨a, _, _, performed⟩ _ _
        obtain ⟨rfl, _⟩ := World.read_some performed
        exact (relied rfl).trans back
  · rintro v reply u e _ _ ⟨a, _, served, performed⟩ _ failed
    cases (World.read_served served).symm.trans performed
    cases failed

theorem recovery_sound (queued : ti.state = .queued) (charged : 0 < ti.tryNumber) : (recovery env ti).Sound where
  refl _ _ _ := rfl
  trans _ _ _ _ first second zero := (second zero).trans (first zero)
  stable _ _ _ _ _ held moved zero := (moved zero).trans (held zero)
  keeps _ _ _ _ _ _ _ inv may _ performed := recoveryMay_inv may performed inv
  relies tid o label s r t spawned _ may _ performed other apart zero := by
    rcases recoveryMay_row may performed with same | ⟨first, _⟩
    · exact same
    · exact absurd (zero.trans first.symm) apart
  spawns tid o label s r t spawned _ may _ performed request member other positive := by
    obtain ⟨task, epoch, rfl, rfl⟩ := World.perform_spawned performed member
    cases may with
    | other own apart may =>
      cases task with
      | runTask => exact may.elim
      | awaitCompletion ti' =>
        exact ((awaitCompletion_own may).apart apart other t).mono fun _ _ _ zero => absurd zero (Nat.ne_of_gt positive)
  starts _ _ _ _ impossible := impossible.elim
  crashes label s inv _ := by
    exact ⟨inv, (recover_safe queued charged _).mono fun _ _ back _ => back⟩

/-- The moves of a process that recovers, restarts included, until its first tick. -/
def Recovering (answers : Answer → Op → Prop) (p : State) : Step → Prop
  | .step tid a => ∀ o, p.next tid = some o → answers a o
  | .start _ => False
  | .restart _ => True

/-- The process right after its start; its first thread is `Recover`. -/
def booted (env : Env) (w : World) : State := ⟨w, [(scheduler env).thread .recover], []⟩

/-- An attempt that was never launched is given back, with the try number it had before its
dispatch, as soon as `Recover` has ended, and no failure is ever recorded for it: in every run
in which no hub in its boot grace is asked for it. -/
theorem never_launched_given_back (env : Env) (ti : TaskInstance) (w : World) (stored : w.db.instance? ti.key = some ti)
    (queued : ti.state = .queued) (charged : 0 < ti.tryNumber) (q : State)
    (ran : (scheduler env).Reaches (Recovering (OutsideGrace ti)) (booted env w) q) :
    (q.state.db.instance? ti.key = some ti ∨ q.state.db.instance? ti.key = some (givenBack ti)) ∧
      ∀ first, q.threads[0]? = some first → finished first = true → q.state.db.instance? ti.key = some (givenBack ti) := by
  have started : (recovery env ti).Good (booted env w) := by
    refine ⟨.inl stored, fun tid thread found => ?_⟩
    cases tid with
    | succ tid => simp [booted] at found
    | zero =>
      obtain rfl : (scheduler env).thread .recover = thread := by simpa [booted] using found
      exact (recover_safe queued charged w).mono fun _ _ back _ => back
  have admitted : (scheduler env).Reaches (recovery env ti).Admits (booted env w) q := by
    refine ran.mono fun p move allowed => ?_
    cases move with
    | step tid a => exact allowed
    | start request => exact allowed.elim
    | restart a => trivial
  have good := (recovery_sound queued charged).reaches admitted started
  refine ⟨good.inv, fun first found ended => ?_⟩
  have waits := good.threads 0 first found
  obtain ⟨origin, log, rest⟩ := first
  cases rest with
  | done _ => exact waits rfl
  | fail _ => exact waits rfl
  | call o k => cases ended

/-- A task that was dispatched and never launched. -/
def unlaunched : TaskInstance where
  runID := .manual "etl" 0
  taskID := "load"
  state := .queued
  tryNumber := 1
  executorRef := .attempt (.manual "etl" 0) "load" 1

def unlaunchedWorld : World := { db := { DB.empty with taskInstances := ⟨[unlaunched], by decide⟩ } }

/-- An executor without a record of the attempt, behind a hub that is in its boot grace or not. -/
def executors (grace : Bool) : Routing where
  hub := some ⟨fun _ => false, fun _ => none, grace⟩
  onHost _ := some .unknown

theorem executors_never (grace : Bool) : (executors grace).NeverLaunched unlaunched.executorRef := ⟨rfl, rfl⟩

def probed (grace : Bool) : Answer := { status := (executors grace).probe unlaunched.executorRef }

/-- The four statements of a recovery that gives the attempt back. -/
def promptRecovery : List Step := List.replicate 4 (.step 0 (probed false))

theorem prompt_recovery_gives_back : ((scheduler anyEnv).run (booted anyEnv unlaunchedWorld) promptRecovery).state.db.instance?
    unlaunched.key = some (givenBack unlaunched) := by
  have follows : (scheduler anyEnv).Follows (Recovering (OutsideGrace unlaunched)) (booted anyEnv unlaunchedWorld)
      promptRecovery := by
    refine ⟨?_, ?_, ?_, ?_, trivial⟩
    · rintro o ⟨⟩
      rfl
    · rintro o ⟨⟩ _
      exact ⟨executors false, executors_never false, rfl, rfl⟩
    · rintro o ⟨⟩
      rfl
    · rintro o ⟨⟩
      trivial
  have ran := follows.reaches (.refl _)
  exact (never_launched_given_back anyEnv unlaunched unlaunchedWorld rfl rfl (by decide) _ ran).2 _ rfl rfl

/-- The recovery inside the boot grace: the row is marked as running and polled by two
goroutines, and when the grace is over the poll finds the attempt lost. -/
def gracedRecovery : List Step :=
  List.replicate 8 (.step 0 (probed true)) ++ List.replicate 3 (.step 1 (probed false)) ++
    List.replicate 3 (.step 2 (probed false))

theorem boot_grace_charges_unlaunched_attempt :
    ¬ ∀ (env : Env) (ti : TaskInstance) (w : World), w.db.instance? ti.key = some ti → ti.state = .queued →
      0 < ti.tryNumber → ∀ q, (scheduler env).Reaches (Recovering (Unlaunched ti fun _ => True)) (booted env w) q →
      q.threads.all finished = true → q.state.db.instance? ti.key = some (givenBack ti) := by
  intro claim
  have follows : (scheduler anyEnv).Follows (Recovering (Unlaunched unlaunched fun _ => True)) (booted anyEnv unlaunchedWorld)
      gracedRecovery := by
    refine ⟨?_, ?_, ?_, ?_, ?_, ?_, ?_, ?_, ?_, ?_, ?_, ?_, ?_, ?_, trivial⟩
    all_goals rintro o ⟨⟩
    all_goals first | trivial | rfl | exact fun _ => ⟨executors true, executors_never true, trivial, rfl⟩ |
      exact fun _ => ⟨executors false, executors_never false, trivial, rfl⟩
  have given := claim anyEnv unlaunched unlaunchedWorld rfl rfl (by decide) _ (follows.reaches (.refl _)) rfl
  have failed : (((scheduler anyEnv).run (booted anyEnv unlaunchedWorld) gracedRecovery).state.db.instance?
      unlaunched.key).map (·.state) = some .failed := by rfl
  rw [given] at failed
  cases failed

end NeverLaunched

end Cronova.Scheduler
