import Cronova.Scheduler.Frame
import Cronova.Scheduler.Run

/-! The expansion of a run: which tasks of its definition have an instance once `processRun`
goes on. The run starts from any set of instances, and any statement may fail. -/

set_option autoImplicit false

namespace Cronova.Scheduler

open Model Store Process

variable (env : Env)

/-- A program that runs alone; the surroundings of each statement are listed. -/
abbrev alone : Contract statements (World × List Answer) := Prog.sequential World.replay fun _ => True

/-- Every instance that was stored still is. -/
def KeepsInstances (s t : World × List Answer) : Prop :=
  ∀ key, (s.1.db.instance? key).isSome → (t.1.db.instance? key).isSome

/-- What `dagForRun` returns for a run: its own snapshot parsed, if it has one. -/
def ForRun (run : DagRun) : Except Failure (DAG × DagRun) → Prop
  | .ok (d, run') => run'.runID = run.runID ∧ (run.definitionYAML ≠ "" → env.parse run.definitionYAML = some d)
  | .error _ => True

theorem parseDefinition_safe (yaml : String) (s : World × List Answer) : (parseDefinition env yaml).Safe alone
    (fun r t => t = s ∧ match r with
      | .ok d => env.parse yaml = some d
      | .error _ => True) s := by
  unfold parseDefinition
  cases env.parse yaml with
  | none => exact ⟨rfl, trivial⟩
  | some d => exact ⟨rfl, rfl⟩

/-- The snapshot of a legacy run is written, and no write of it touches an instance. -/
theorem storeSnapshot_safe (run : DagRun) (legacy : run.definitionYAML = "") (d : DAG) (s : World × List Answer) :
    Prog.Safe alone (do
      updateDagRunDefinition (snapshotRun env run d).runID (snapshotRun env run d).definitionYAML
        (snapshotRun env run d).definitionHash
      pure (d, snapshotRun env run d))
      (fun r t => t.1.db.taskInstances = s.1.db.taskInstances ∧ ForRun env run r) s := by
  rintro _ rfl _
  refine ⟨trivial, fun reply u stepped _ => ?_⟩
  have kept : u.1.db.taskInstances = s.1.db.taskInstances := by
    rcases World.replay_step stepped with ⟨a, spawned, performed⟩ | ⟨_, world⟩
    · obtain ⟨_, ⟨db, written, _, after⟩ | ⟨_, after⟩⟩ := World.write_some performed
      · obtain ⟨_, _, _, instances, _⟩ := DB.updateDagRunDefinition_ok written
        rw [after]
        exact instances
      · rw [after]
    · rw [world]
  cases reply with
  | ok _ => exact ⟨kept, rfl, fun some => absurd legacy some⟩
  | error e => exact ⟨kept, trivial⟩

theorem dagForRun_safe (run : DagRun) (s : World × List Answer) :
    (dagForRun env run).Safe alone
      (fun r t => t.1.db.taskInstances = s.1.db.taskInstances ∧ ForRun env run r) s := by
  unfold dagForRun
  split
  · refine Prog.Safe.bind _ (parseDefinition_safe env run.definitionYAML s) ?_ ?_
    · rintro d t ⟨rfl, found⟩
      exact ⟨rfl, rfl, fun _ => found⟩
    · rintro e t ⟨rfl, _⟩
      exact ⟨rfl, trivial⟩
  · rename_i legacy
    replace legacy := not_not.mp legacy
    rintro _ rfl _
    refine ⟨trivial, fun reply t stepped _ => ?_⟩
    have first : t.1 = s.1 := by
      cases stepped
      rfl
    cases reply with
    | some cached =>
      rw [← first]
      exact storeSnapshot_safe env run legacy cached.dag t
    | none =>
      rintro _ rfl _
      refine ⟨trivial, fun reply u stepped _ => ?_⟩
      have same : u.1 = s.1 := by
        rcases World.replay_step stepped with ⟨a, spawned, performed⟩ | ⟨_, world⟩
        · exact (World.read_some performed).1.trans first
        · exact world.trans first
      rw [← same]
      cases reply with
      | error e => exact ⟨rfl, trivial⟩
      | ok stored =>
        show Prog.Safe alone (Prog.bind (parseDefinition env stored.definitionYAML) _) _ u
        refine Prog.Safe.bind _ (parseDefinition_safe env stored.definitionYAML u) ?_ ?_
        · rintro d v ⟨rfl, _⟩
          exact storeSnapshot_safe env run legacy d v
        · rintro e v ⟨rfl, _⟩
          exact ⟨rfl, trivial⟩

/-- An expansion that ends without error leaves no task of the definition without instance. -/
theorem expandRun_safe (run : DagRun) (d : DAG) (current : List TaskInstance) (s : World × List Answer)
    (listed : ∀ ti ∈ current, ti.runID = run.runID ∧ (s.1.db.instance? ti.key).isSome) :
    (expandRun run d current).Safe alone (fun r t => KeepsInstances s t ∧
      (r = .ok () → ∀ task ∈ d.tasks, (t.1.db.instance? ⟨run.runID, task.id⟩).isSome)) s := by
  -- the loop invariant: a task is still to come or has its instance
  apply Prog.Safe.forEach fun rest t => KeepsInstances s t ∧
    ∀ task ∈ d.tasks, task ∈ rest ∨ (t.1.db.instance? ⟨run.runID, task.id⟩).isSome
  · exact ⟨fun _ stored => stored, fun _ member => .inl member⟩
  · intro task rest t kept
    obtain ⟨kept, progress⟩ := kept
    have advance (u : World × List Answer) (grown : KeepsInstances t u) (done : (u.1.db.instance? ⟨run.runID, task.id⟩).isSome) :
        KeepsInstances s u ∧ ∀ other ∈ d.tasks, other ∈ rest ∨ (u.1.db.instance? ⟨run.runID, other.id⟩).isSome := by
      refine ⟨fun key stored => grown key (kept key stored), fun other member => ?_⟩
      rcases progress other member with todo | has
      · rcases List.mem_cons.mp todo with rfl | later
        · exact .inr done
        · exact .inl later
      · exact .inr (grown _ has)
    split
    · rename_i present
      obtain ⟨ti, member, same⟩ := List.any_eq_true.mp present
      obtain ⟨owner, stored⟩ := listed ti member
      have key : ti.key = ⟨run.runID, task.id⟩ := by rw [TaskInstance.key, owner, beq_iff_eq.mp same]
      exact advance t (fun _ stored => stored) (key ▸ kept _ stored)
    · rintro _ rfl _
      refine ⟨trivial, fun reply u stepped _ => ?_⟩
      rcases World.replay_step stepped with ⟨a, spawned, performed⟩ | ⟨⟨a, stuck⟩, _⟩
      case inr => exact absurd stuck (World.write_ne_none _ _)
      obtain ⟨_, ⟨db, created, rfl, after⟩ | ⟨⟨e, rfl⟩, after⟩⟩ := World.write_some performed
      · obtain ⟨_, instances, _⟩ := DB.createTaskInstance_ok created
        have lookup (key : InstanceKey) : u.1.db.instance? key =
            if key = ⟨run.runID, task.id⟩ then some (newInstance run.runID task run.definitionHash) else t.1.db.instance? key := by
          rw [after]
          exact instances key
        refine advance u (fun key stored => ?_) (by rw [lookup]; simp)
        rw [lookup]
        split
        · rfl
        · exact stored
      · have same : KeepsInstances t u := by
          intro key stored
          rw [after]
          exact stored
        have failed (err : StoreError) : KeepsInstances s u ∧
            ((Except.error (.store err) : Except Failure Unit) = .ok () → ∀ task ∈ d.tasks,
              (u.1.db.instance? ⟨run.runID, task.id⟩).isSome) := ⟨fun key stored => same key (kept key stored), by rintro ⟨⟩⟩
        cases e with
        | alreadyExists =>
          refine advance u same ?_
          rcases World.write_error performed with clash | impossible
          · rw [after]
            exact DB.createTaskInstance_exists clash
          · cases impossible
        | notFound => exact failed _
        | queueFull => exact failed _
        | illegalRunTransition => exact failed _
        | unavailable => exact failed _
  · intro t kept
    refine ⟨kept.1, fun _ task member => ?_⟩
    rcases kept.2 task member with todo | has
    · cases todo
    · exact has

/-- What the expansion step of `processRun` has done to the instances. -/
def AfterExpansion (run : DagRun) (s : World × List Answer) :
    Except Failure (DAG × DagRun × List TaskInstance) → World × List Answer → Prop
  | .ok (d, _, _), t => (run.definitionYAML ≠ "" → env.parse run.definitionYAML = some d) ∧
      if (s.1.db.listTaskInstances run.runID).length < d.tasks.length then
        ∀ task ∈ d.tasks, (t.1.db.instance? ⟨run.runID, task.id⟩).isSome
      else t.1.db.taskInstances = s.1.db.taskInstances
  | .error _, _ => True

theorem expandedRun_safe (run : DagRun) (s : World × List Answer) :
    (expandedRun env run).Safe alone (AfterExpansion env run s) s := by
  refine Prog.Safe.bind _ (dagForRun_safe env run s) ?_ fun _ _ _ => trivial
  rintro ⟨d, run'⟩ t ⟨same, owner, parsed⟩
  have listing (run : RunID) : t.1.db.listTaskInstances run = s.1.db.listTaskInstances run := by
    rw [DB.listTaskInstances, same]
    rfl
  rintro _ rfl _
  refine ⟨trivial, fun reply u stepped _ => ?_⟩
  rcases World.replay_step stepped with ⟨a, spawned, performed⟩ | ⟨⟨a, stuck⟩, _⟩
  case inr => exact absurd stuck (World.read_ne_none _)
  obtain ⟨world, _, answered⟩ := World.read_some performed
  cases reply with
  | error e => exact trivial
  | ok tis =>
    replace answered : tis = s.1.db.listTaskInstances run.runID := by
      rcases answered with found | failed
      · rw [← listing, ← owner]
        exact Except.ok.inj found
      · cases failed
    show Prog.Safe alone (if tis.length < d.tasks.length then _ else _) _ u
    split
    · rename_i missing
      have listed : ∀ ti ∈ tis, ti.runID = run'.runID ∧ (u.1.db.instance? ti.key).isSome := by
        intro ti member
        rw [answered, ← listing, ← owner] at member
        obtain ⟨stored, same⟩ := (DB.mem_listTaskInstances _ _).mp member
        refine ⟨same, ?_⟩
        rw [world, stored]
        rfl
      refine Prog.Safe.bind _ (expandRun_safe run' d tis u listed) ?_ fun _ _ _ => trivial
      rintro _ v ⟨_, complete⟩
      rintro _ rfl _
      refine ⟨trivial, fun reply x stepped _ => ?_⟩
      rcases World.replay_step stepped with ⟨a, spawned, performed⟩ | ⟨⟨a, stuck⟩, _⟩
      case inr => exact absurd stuck (World.read_ne_none _)
      obtain ⟨again, _⟩ := World.read_some performed
      cases reply with
      | error e => exact trivial
      | ok tis' =>
        refine ⟨parsed, ?_⟩
        rw [if_pos (answered ▸ missing), again, ← owner]
        exact complete rfl
    · rename_i enough
      refine ⟨parsed, ?_⟩
      rw [if_neg (answered ▸ enough), world, same]

/-- One instance per task of the definition: the expansion step brings it about unless the run
has as many instances as the definition has tasks, among them one of a task that was removed. -/
theorem expansion_covers_definition (run : DagRun) (w : World) (answers : List Answer) {d : DAG} {run' : DagRun}
    {tis : List TaskInstance} (passed : ((expandedRun env run).run World.replay (w, answers)).1 = .ok (d, run', tis)) :
    (run.definitionYAML ≠ "" → env.parse run.definitionYAML = some d) ∧
      ((∀ task ∈ d.tasks, ∃! ti, ti ∈ ((expandedRun env run).run World.replay (w, answers)).2.1.db.taskInstances ∧
        ti.key = ⟨run.runID, task.id⟩) ↔
      (w.db.listTaskInstances run.runID).length < d.tasks.length ∨
        ∀ task ∈ d.tasks, ∃ ti ∈ w.db.taskInstances, ti.key = ⟨run.runID, task.id⟩) := by
  obtain ⟨_, ended⟩ := (expandedRun_safe env run (w, answers)).runs (fun _ _ _ => trivial) trivial
  rw [passed] at ended
  generalize ((expandedRun env run).run World.replay (w, answers)).2 = v at ended
  obtain ⟨parsed, ended⟩ := ended
  refine ⟨parsed, ?_⟩
  have unique (key : InstanceKey) (stored : (v.1.db.instance? key).isSome) : ∃! ti, ti ∈ v.1.db.taskInstances ∧ ti.key = key := by
    obtain ⟨ti, found⟩ := Option.isSome_iff_exists.mp stored
    refine ⟨ti, DB.instance?_some found, ?_⟩
    rintro other ⟨member, rfl⟩
    exact Option.some.inj ((DB.instance?_of_mem member).symm.trans found)
  by_cases missing : (w.db.listTaskInstances run.runID).length < d.tasks.length
  · rw [if_pos missing] at ended
    exact ⟨fun _ => .inl missing, fun _ task member => unique _ (ended task member)⟩
  · rw [if_neg missing] at ended
    constructor
    · intro covered
      refine .inr fun task member => ?_
      obtain ⟨ti, stored, _⟩ := covered task member
      exact ⟨ti, ended ▸ stored.1, stored.2⟩
    · intro condition
      rcases condition with fewer | covered
      · exact absurd fewer missing
      · intro task member
        obtain ⟨ti, stored, key⟩ := covered task member
        refine unique _ ?_
        rw [← key, DB.instance?_of_mem (ended ▸ stored)]
        rfl

/-! A run whose retry adopted a definition with a task removed and a task added. -/

def revised : DAG := { dagID := "etl", definitionYAML := "v2", tasks := [{ id := "load" }, { id := "check", deps := ["load"] }] }

def revisedEnv : Env where
  parse yaml := if yaml = "v2" then some revised else none
  hash yaml := yaml
  shift _ t _ := some t
  parseSchedule _ _ := none
  decodePayload _ := none

def retried : DagRun :=
  { runID := .manual "etl" 0, dagID := "etl", logicalDate := 0, state := .running, triggerType := .manual,
    definitionYAML := "v2", definitionHash := "v2" }

def finishedTask (task : TaskID) : TaskInstance := { runID := .manual "etl" 0, taskID := task, state := .success }

def retriedWorld (taskInstances : Instances) : World :=
  { db := { DB.empty with runs := ⟨[retried], List.pairwise_singleton _ _⟩, taskInstances } }

theorem new_task_expanded :
    ∃! ti, ti ∈ ((expandedRun revisedEnv retried).run World.replay
      (retriedWorld ⟨[finishedTask "load"], List.pairwise_singleton _ _⟩, [])).2.1.db.taskInstances ∧
      ti.key = ⟨.manual "etl" 0, "check"⟩ := by
  have covers := (expansion_covers_definition revisedEnv retried
    (retriedWorld ⟨[finishedTask "load"], List.pairwise_singleton _ _⟩) [] (d := revised) rfl).2
  exact covers.mpr (.inl (by decide)) { id := "check", deps := ["load"] } (by decide)

/-- The retry stopped before it created the new task, and the instance of the removed one makes
up the number: the new task never gets an instance. -/
theorem removed_task_hides_missing_one :
    ¬ ∀ (env : Env) (run : DagRun) (w : World) (answers : List Answer) (d : DAG) (run' : DagRun) (tis : List TaskInstance),
      w.db.run? run.runID = some run → ((expandedRun env run).run World.replay (w, answers)).1 = .ok (d, run', tis) →
      ∀ task ∈ d.tasks, ∃! ti, ti ∈ ((expandedRun env run).run World.replay (w, answers)).2.1.db.taskInstances ∧
        ti.key = ⟨run.runID, task.id⟩ := by
  intro claim
  obtain ⟨ti, ⟨stored, key⟩, _⟩ := claim revisedEnv retried
    (retriedWorld ⟨[finishedTask "load", finishedTask "extract"], by decide⟩) [] revised retried
    [finishedTask "load", finishedTask "extract"] (by decide) rfl { id := "check", deps := ["load"] } (by decide)
  have none : ∀ ti ∈ [finishedTask "load", finishedTask "extract"], ti.key ≠ ⟨.manual "etl" 0, "check"⟩ := by decide
  exact none ti stored key

end Cronova.Scheduler
