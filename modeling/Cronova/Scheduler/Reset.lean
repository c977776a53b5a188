import Cronova.Scheduler.Alone
import Cronova.Scheduler.Operator
import Cronova.Worklist

/-! What `RetryTask` and `RetryRun` do to the store: which task instances they reset, which they
create, and what they leave as it was. -/

set_option autoImplicit false

namespace Cronova.Scheduler

open Model Store Process
open Calendar (Time)
open Relation (ReflTransGen)

/-! ### The closure of a task -/

section Closure

variable {tasks : List Task} {a b : TaskID}

/-- Task `b` lists task `a` among its dependencies. -/
def DependsOn (tasks : List Task) (a b : TaskID) : Prop := ∃ t ∈ tasks, t.id = b ∧ a ∈ t.deps

/-- Task `b` is task `a` or transitively downstream of it. -/
def Downstream (tasks : List Task) : TaskID → TaskID → Prop := ReflTransGen (DependsOn tasks)

theorem mem_dependents : b ∈ dependents tasks a ↔ DependsOn tasks a b := by
  simp only [dependents, DependsOn, List.mem_flatMap, List.mem_map, List.mem_filter, beq_iff_eq]
  constructor
  · rintro ⟨t, listed, dep, ⟨member, rfl⟩, rfl⟩
    exact ⟨t, listed, rfl, member⟩
  · rintro ⟨t, listed, rfl, member⟩
    exact ⟨t, listed, a, ⟨member, rfl⟩, rfl⟩

theorem closureLoop_eq (tasks : List Task) (rounds : Nat) (queue closure : List TaskID) :
    closureLoop tasks rounds queue closure = worklist (dependents tasks) rounds queue closure := by
  induction rounds generalizing queue closure with
  | zero => simp [closureLoop, worklist]
  | succ rounds ih =>
    cases queue with
    | nil => simp [closureLoop, worklist]
    | cons id queue => simp only [closureLoop, worklist, ih]

theorem length_dependents (tasks : List Task) (id : TaskID) :
    (dependents tasks id).length = (tasks.flatMap (·.deps)).count id := by
  induction tasks with
  | nil => rfl
  | cons t tasks ih =>
    have head : ((t.deps.filter (· == id)).map fun _ => t.id).length = t.deps.count id := by
      rw [List.length_map, List.count_eq_length_filter]
    have split : dependents (t :: tasks) id = ((t.deps.filter (· == id)).map fun _ => t.id) ++ dependents tasks id :=
      List.flatMap_cons
    rw [split, List.length_append, head, ih, List.flatMap_cons, List.count_append]

/-- The rounds of the loop are enough: the closure is what lies downstream. -/
theorem mem_downstreamClosure : b ∈ downstreamClosure tasks a ↔ Downstream tasks a b := by
  have leaves : ∀ id ∉ (tasks.flatMap (·.deps)).toFinset, dependents tasks id = [] := by
    intro id absent
    apply List.eq_nil_of_length_eq_zero
    rw [length_dependents, List.count_eq_zero]
    exact fun member => absent (List.mem_toFinset.mpr member)
  have enough : Worklist.pending (dependents tasks) (tasks.flatMap (·.deps)).toFinset [a] [] ≤
      1 + (tasks.map (·.deps.length)).sum := by
    have edges : ∑ id ∈ (tasks.flatMap (·.deps)).toFinset, (dependents tasks id).length = (tasks.map (·.deps.length)).sum := by
      simp only [length_dependents]
      rw [List.sum_toFinset_count_eq_length, List.length_flatMap]
    have all : (tasks.flatMap (·.deps)).toFinset.filter (· ∉ ([] : List TaskID)) = (tasks.flatMap (·.deps)).toFinset := by simp
    rw [Worklist.pending, all, edges]
    rfl
  have edge : Worklist.Edge (dependents tasks) = DependsOn tasks := by
    funext x y
    exact propext mem_dependents
  rw [downstreamClosure, closureLoop_eq, Worklist.mem_worklist leaves enough (by intro x found; cases found), edge]
  simp [Downstream]

/-- Whatever lies downstream of a task of the definition is one. -/
theorem Downstream.valid (down : Downstream tasks a b) (valid : a ∈ taskIDSet tasks) : b ∈ taskIDSet tasks := by
  rcases down.cases_tail with rfl | ⟨_, _, t, listed, rfl, _⟩
  · exact valid
  · exact List.mem_map_of_mem listed

theorem mem_intersect_closure (valid : a ∈ taskIDSet tasks) :
    b ∈ intersect (downstreamClosure tasks a) (taskIDSet tasks) ↔ Downstream tasks a b := by
  rw [intersect, List.mem_filter, mem_downstreamClosure]
  simp only [decide_eq_true_eq]
  exact ⟨fun both => both.1, fun down => ⟨down, down.valid valid⟩⟩

theorem mem_retryIDs {d : DAG} {byTask : ByTask} : b ∈ retryIDs d byTask ↔
    ∃ ti ∈ byTask, ti.taskID ∈ taskIDSet d.tasks ∧ needsRetry ti.state = true ∧ Downstream d.tasks ti.taskID b := by
  simp only [retryIDs, List.mem_dedup, List.mem_flatMap]
  refine exists_congr fun ti => and_congr_right fun _ => ?_
  by_cases starts : ti.taskID ∈ taskIDSet d.tasks ∧ needsRetry ti.state = true
  · rw [if_pos starts, mem_intersect_closure starts.1]
    exact ⟨fun down => ⟨starts.1, starts.2, down⟩, fun all => all.2.2⟩
  · rw [if_neg starts]
    exact ⟨fun none => absurd none List.not_mem_nil, fun all => absurd ⟨all.1, all.2.1⟩ starts⟩

end Closure

/-! ### The two retries -/

inductive OperatorRetry where
  | task (id : TaskID)
  | run

namespace OperatorRetry

def act (env : Env) (run : RunID) : OperatorRetry → Act Unit
  | .task id => retryTask env run id
  | .run => retryRun env run

/-- The tasks that the retry resets. -/
def resets (d : DAG) (byTask : ByTask) : OperatorRetry → List TaskID
  | .task id => intersect (downstreamClosure d.tasks id) (taskIDSet d.tasks)
  | .run => retryIDs d byTask

/-- The retry has something to start from. -/
def Starts (d : DAG) (byTask : ByTask) : OperatorRetry → Prop
  | .task id => (byTask.get id).isSome ∧ id ∈ taskIDSet d.tasks
  | .run => retryIDs d byTask ≠ []

end OperatorRetry

/-! ### What the retry starts from -/

section Target

variable {run : RunID} {inv : World × List Answer → Prop} {s : World × List Answer}

/-- The run is over and its DAG is cached. -/
structure Target (w : World) (run : RunID) (row : DagRun) (d : DAG) : Prop where
  found : w.db.run? run = some row
  ended : row.state.isTerminal = true
  cached : ∃ c, w.cached row.dagID = some c ∧ c.dag = d

theorem Target.unique {w : World} {row row' : DagRun} {d d' : DAG} (target : Target w run row d) (other : Target w run row' d') :
    row' = row ∧ d' = d := by
  obtain ⟨found, _, c, cached, rfl⟩ := target
  obtain ⟨found', _, c', cached', rfl⟩ := other
  rw [found] at found'
  cases found'
  rw [cached] at cached'
  cases cached'
  exact ⟨rfl, rfl⟩

theorem Target.holds {w v : World} {row : DagRun} {d : DAG} (target : Target w run row d) (holds : Holds w.db w v) :
    Target v run row d := by
  obtain ⟨found, ended, c, cached, rfl⟩ := target
  refine ⟨by rw [holds.db]; exact found, ended, c, ?_, rfl⟩
  rw [World.cached, holds.cache]
  exact cached

/-- The operation was not served, or there is a reason to refuse it. -/
def Declines (reliable reason : Prop) (e : Failure) : Prop := reason ∨ (e = .store .unavailable ∧ ¬ reliable)

theorem getDagRun_reads (run : RunID) (w : World) (a : Answer) : ∃ reply v,
    World.perform 0 (.getDagRun run) a w = some (reply, v, []) ∧ Holds w.db w v ∧
      ((a.served = true ∧ reply = w.db.getDagRun run) ∨ (a.served = false ∧ reply = .error .unavailable)) := by
  obtain ⟨reply, v, read, same, answered⟩ :=
    World.read_spec a { w with trail := w.trail.loads 0 run } (w.db.getDagRun run)
  subst same
  exact ⟨reply, _, read, ⟨rfl, rfl⟩, answered⟩

theorem getDAG_reads (dag : DagID) (w : World) (a : Answer) : ∃ reply v,
    World.perform 0 (.getDAG dag) a w = some (reply, v, []) ∧ Holds w.db w v ∧
      ((a.served = true ∧ reply = w.db.getDAG dag) ∨ (a.served = false ∧ reply = .error .unavailable)) := by
  obtain ⟨reply, v, read, same, answered⟩ := World.read_spec a w (w.db.getDAG dag)
  subst same
  exact ⟨reply, _, read, Holds.refl _, answered⟩

theorem listTaskInstances_reads (run : RunID) (w : World) (a : Answer) : ∃ reply v,
    World.perform 0 (.listTaskInstances run) a w = some (reply, v, []) ∧ Holds w.db w v ∧
      ((a.served = true ∧ reply = .ok (w.db.listTaskInstances run)) ∨ (a.served = false ∧ reply = .error .unavailable)) := by
  obtain ⟨reply, v, read, same, answered⟩ := World.read_spec a w (.ok (w.db.listTaskInstances run))
  subst same
  exact ⟨reply, _, read, Holds.refl _, answered⟩

theorem getDagRun_ok {db : DB} {row : DagRun} (found : db.getDagRun run = .ok row) : db.run? run = some row := by
  unfold DB.getDagRun at found
  cases stored : db.run? run with
  | none =>
    rw [stored] at found
    cases found
  | some x =>
    rw [stored] at found
    cases found
    rfl

/-- `retryContext` finds its target, or declines for want of one. -/
theorem retryContext_alone (run : RunID) (s : World × List Answer) :
    (retryContext run).Safe (Prog.sequential World.replay inv) (fun r t => Holds s.1.db s.1 t.1 ∧ inv t ∧ match r with
      | .ok (row, d, tis) => Target s.1 run row d ∧ tis = s.1.db.listTaskInstances run
      | .error e => Declines (Reliable inv) (∀ row d, ¬ Target s.1 run row d) e) s := by
  refine alone_read (getDagRun_reads run s.1) ?_ ?_
  · intro row t found world kept
    replace found := getDagRun_ok found
    split
    · rename_i active
      refine ⟨world, kept, .inl fun row' d target => ?_⟩
      have same : row' = row := Option.some.inj (target.found.symm.trans found)
      subst same
      have ended := target.ended
      rcases active with queued | running
      · rw [queued] at ended
        cases ended
      · rw [running] at ended
        cases ended
    · rename_i idle
      have ended : row.state.isTerminal = true := by
        rw [not_or] at idle
        cases state : row.state with
        | queued => exact absurd state idle.1
        | running => exact absurd state idle.2
        | _ => rfl
      refine alone_perform (o := .cachedDAG row.dagID) (fun _ reply => reply = s.1.cached row.dagID)
        (fun a => ⟨_, _, _, rfl, Holds.refl _, by rw [World.cached, World.cached, world.cache]⟩) ?_
      intro cached u _ lookup world' kept'
      have holds : Holds s.1.db s.1 u.1 := ⟨world'.db.trans world.db, world'.cache.trans world.cache⟩
      cases cached with
      | none =>
        refine ⟨holds, kept', .inl fun row' d target => ?_⟩
        have same : row' = row := Option.some.inj (target.found.symm.trans found)
        subst same
        obtain ⟨c, known, _⟩ := target.cached
        rw [← lookup] at known
        cases known
      | some cached =>
        refine alone_read (listTaskInstances_reads run u.1) ?_ ?_
        · intro tis v listed world'' kept''
          refine ⟨⟨world''.db.trans holds.db, world''.cache.trans holds.cache⟩, kept'', ⟨found, ended, cached, lookup.symm, rfl⟩, ?_⟩
          rw [← holds.db]
          exact (Except.ok.inj listed).symm
        · intro e v refused world'' kept''
          refine ⟨⟨world''.db.trans holds.db, world''.cache.trans holds.cache⟩, kept'', ?_⟩
          rcases refused with impossible | ⟨rfl, unreliable⟩
          · cases impossible
          · exact .inr ⟨rfl, unreliable⟩
  · intro e t refused world kept
    refine ⟨world, kept, ?_⟩
    rcases refused with missing | ⟨rfl, unreliable⟩
    · refine .inl fun row d target => ?_
      rw [DB.getDagRun, target.found] at missing
      cases missing
    · exact .inr ⟨rfl, unreliable⟩

end Target

/-! ### The adoption of the definition -/

section Adoption

variable {run : RunID} {hash yaml : String} {d : DAG} {reset : List TaskID} {inv : World × List Answer → Prop}

/-- The instance of a task that had none. -/
def New (run : RunID) (hash : String) (d : DAG) (id : TaskID) (ti : TaskInstance) : Prop :=
  ∃ t ∈ d.tasks, t.id = id ∧ ti = newInstance run t hash

/-- The instance with what it takes over from its task in the adopted definition. -/
def withColumns (hash : String) (t : Task) (ti : TaskInstance) : TaskInstance :=
  { ti with maxRetries := t.retries, pool := t.pool, priority := t.priority, definitionHash := hash }

/-- What `prepareRetryDefinition` has done when `rest` is still to be adopted: the copies in hand,
and the store. -/
structure Adopts (run : RunID) (yaml hash : String) (d : DAG) (reset : List TaskID) (before : DB) (rest : List Task)
    (byTask : ByTask) (db : DB) : Prop where
  stored : ∀ id ti, before.instance? ⟨run, id⟩ = some ti → db.instance? ⟨run, id⟩ = some ti ∧ ∃ copy, byTask.get id = some copy ∧
    ((∃ t ∈ d.tasks, t.id = id ∧ copy = withColumns hash t ti) ∨
      (copy = ti ∧ (id ∈ reset → ∀ t ∈ d.tasks, t.id = id → t ∈ rest)))
  missing : ∀ id, before.instance? ⟨run, id⟩ = none →
    (byTask.get id = none ∧ db.instance? ⟨run, id⟩ = none ∧ ∀ t ∈ d.tasks, t.id = id → t ∈ rest) ∨
    ((∃ copy, byTask.get id = some copy ∧ New run hash d id copy) ∧ ∃ row, db.instance? ⟨run, id⟩ = some row ∧ New run hash d id row)
  elsewhere : ∀ key, key.run ≠ run → db.instance? key = before.instance? key
  runs : ∀ id, db.run? id = if id = run then (before.run? run).map (DB.setDefinition yaml hash) else before.run? id

variable {before db after : DB} {rest : List Task} {t : Task} {byTask : ByTask}

theorem get_newInstance (byTask : ByTask) (run : RunID) (t : Task) (hash : String) (id : TaskID) :
    ByTask.get (byTask ++ [newInstance run t hash]) id =
      (byTask.get id).or (if t.id = id then some (newInstance run t hash) else none) := by
  simp [ByTask.get, List.find?_append, List.find?_singleton, newInstance]

/-- A task without instance gets one. -/
theorem Adopts.creates (adopts : Adopts run yaml hash d reset before (t :: rest) byTask db) (member : t ∈ d.tasks)
    (absent : byTask.get t.id = none) (created : db.createTaskInstance (newInstance run t hash) = .ok after) :
    Adopts run yaml hash d reset before rest (byTask ++ [newInstance run t hash]) after := by
  obtain ⟨free, rows, runs, _⟩ := DB.createTaskInstance_ok created
  have key : (newInstance run t hash).key = ⟨run, t.id⟩ := rfl
  have other (id : TaskID) (apart : id ≠ t.id) : after.instance? ⟨run, id⟩ = db.instance? ⟨run, id⟩ := by
    rw [rows, if_neg (by rw [key]; exact fun same => apart (congrArg InstanceKey.task same))]
  refine ⟨fun id ti found => ?_, fun id none => ?_, fun k apart => ?_, fun id => ?_⟩
  · obtain ⟨kept, copy, inHand, columns⟩ := adopts.stored id ti found
    have apart : id ≠ t.id := by
      rintro rfl
      rw [absent] at inHand
      cases inHand
    refine ⟨(other id apart).trans kept, copy, ?_, columns.imp_right fun plain => ⟨plain.1, fun todo u listed own => ?_⟩⟩
    · rw [get_newInstance, inHand]
      rfl
    · rcases List.mem_cons.mp (plain.2 todo u listed own) with rfl | later
      · exact absurd own.symm apart
      · exact later
  · by_cases own : id = t.id
    · subst own
      right
      refine ⟨⟨_, ?_, t, member, rfl, rfl⟩, _, ?_, t, member, rfl, rfl⟩
      · rw [get_newInstance, absent, if_pos rfl]
        rfl
      · rw [rows, key, if_pos rfl]
    · rcases adopts.missing id none with ⟨unheld, unstored, todo⟩ | ⟨⟨copy, inHand, new⟩, row, stored, new'⟩
      · left
        refine ⟨?_, (other id own).trans unstored, fun u listed same => ?_⟩
        · rw [get_newInstance, unheld, if_neg (Ne.symm own)]
          rfl
        · rcases List.mem_cons.mp (todo u listed same) with rfl | later
          · exact absurd same.symm own
          · exact later
      · right
        refine ⟨⟨copy, ?_, new⟩, row, (other id own).trans stored, new'⟩
        rw [get_newInstance, inHand]
        rfl
  · rw [rows, if_neg (by rw [key]; exact fun same => apart (congrArg InstanceKey.run same))]
    exact adopts.elsewhere k apart
  · rw [DB.run?, runs, ← DB.run?]
    exact adopts.runs id

/-- A reset task takes the columns of the definition over. -/
theorem Adopts.columns {ti : TaskInstance} (adopts : Adopts run yaml hash d reset before (t :: rest) byTask db) (member : t ∈ d.tasks)
    (found : byTask.get t.id = some ti) :
    Adopts run yaml hash d reset before rest (byTask.set (withColumns hash t ti)) db := by
  have own : (withColumns hash t ti).taskID = t.id := (ByTask.get_some found).2
  have lookup (id : TaskID) := ByTask.get_set byTask (withColumns hash t ti) id
  have other (id : TaskID) (apart : id ≠ t.id) : ByTask.get (byTask.set (withColumns hash t ti)) id = byTask.get id := by
    rw [lookup, if_neg (fun same => apart (same.trans own))]
  have here : ByTask.get (byTask.set (withColumns hash t ti)) t.id = some (withColumns hash t ti) := by
    rw [lookup, if_pos own.symm, found]
    rfl
  refine ⟨fun id old stored => ?_, fun id none => ?_, adopts.elsewhere, adopts.runs⟩
  · obtain ⟨kept, copy, inHand, columns⟩ := adopts.stored id old stored
    refine ⟨kept, ?_⟩
    by_cases same : id = t.id
    · subst same
      rw [found] at inHand
      cases inHand
      refine ⟨_, here, .inl ⟨t, member, rfl, ?_⟩⟩
      rcases columns with ⟨u, _, _, rfl⟩ | ⟨rfl, _⟩
      · rfl
      · rfl
    · refine ⟨copy, (other id same).trans inHand, columns.imp_right fun plain => ⟨plain.1, fun todo u listed owner => ?_⟩⟩
      rcases List.mem_cons.mp (plain.2 todo u listed owner) with rfl | later
      · exact absurd owner.symm same
      · exact later
  · rcases adopts.missing id none with ⟨unheld, unstored, todo⟩ | ⟨⟨copy, inHand, new⟩, row, stored, new'⟩
    · have apart : id ≠ t.id := by
        rintro rfl
        rw [found] at unheld
        cases unheld
      refine .inl ⟨(other id apart).trans unheld, unstored, fun u listed same => ?_⟩
      rcases List.mem_cons.mp (todo u listed same) with rfl | later
      · exact absurd same.symm apart
      · exact later
    · right
      refine ⟨?_, row, stored, new'⟩
      by_cases same : id = t.id
      · subst same
        rw [found] at inHand
        cases inHand
        obtain ⟨u, _, id', rfl⟩ := new
        exact ⟨_, here, t, member, rfl, by simp [newInstance, withColumns, id']⟩
      · exact ⟨copy, (other id same).trans inHand, new⟩

theorem Adopts.passes {ti : TaskInstance} (adopts : Adopts run yaml hash d reset before (t :: rest) byTask db)
    (found : byTask.get t.id = some ti) (untouched : t.id ∉ reset) : Adopts run yaml hash d reset before rest byTask db := by
  refine ⟨fun id old stored => ?_, fun id none => ?_, adopts.elsewhere, adopts.runs⟩
  · obtain ⟨kept, copy, inHand, columns⟩ := adopts.stored id old stored
    refine ⟨kept, copy, inHand, columns.imp_right fun plain => ⟨plain.1, fun todo u listed owner => ?_⟩⟩
    rcases List.mem_cons.mp (plain.2 todo u listed owner) with rfl | later
    · exact absurd (owner ▸ todo) untouched
    · exact later
  rcases adopts.missing id none with ⟨unheld, unstored, todo⟩ | new
  · refine .inl ⟨unheld, unstored, fun u listed same => ?_⟩
    rcases List.mem_cons.mp (todo u listed same) with rfl | later
    · rw [same, unheld] at found
      cases found
    · exact later
  · exact .inr new

/-- The listing of a run, as the map from task to instance that it stands for. -/
theorem get_listTaskInstances (db : DB) (run : RunID) (id : TaskID) :
    ByTask.get (db.listTaskInstances run) id = db.instance? ⟨run, id⟩ := by
  cases stored : db.instance? ⟨run, id⟩ with
  | some ti =>
    have key := (DB.instance?_some stored).2
    have listed : ti ∈ db.listTaskInstances run :=
      (DB.mem_listTaskInstances run ti).mpr ⟨by rw [key]; exact stored, congrArg InstanceKey.run key⟩
    have shown : ti.taskID = id := congrArg InstanceKey.task key
    cases found : ByTask.get (db.listTaskInstances run) id with
    | none => exact absurd (beq_iff_eq.mpr shown) (List.find?_eq_none.mp found ti listed)
    | some other =>
      obtain ⟨listed', shown'⟩ := ByTask.get_some found
      obtain ⟨stored', own⟩ := (DB.mem_listTaskInstances run other).mp listed'
      have key' : other.key = ⟨run, id⟩ := by rw [TaskInstance.key, own, shown']
      rw [key', stored] at stored'
      exact stored'.symm
  | none =>
    cases found : ByTask.get (db.listTaskInstances run) id with
    | none => rfl
    | some other =>
      obtain ⟨listed', shown'⟩ := ByTask.get_some found
      obtain ⟨stored', own⟩ := (DB.mem_listTaskInstances run other).mp listed'
      have key' : other.key = ⟨run, id⟩ := by rw [TaskInstance.key, own, shown']
      rw [key', stored] at stored'
      cases stored'

/-- The copies in hand and the store before anything is adopted. -/
theorem Adopts.start {row : DagRun} (found : before.run? run = some row)
    (written : before.updateDagRunDefinition run yaml hash = .ok after) :
    Adopts run yaml hash d reset before d.tasks (before.listTaskInstances run) after := by
  obtain ⟨row', stored, runs, instances, _⟩ := DB.updateDagRunDefinition_ok written
  have same (key : InstanceKey) : after.instance? key = before.instance? key := by
    rw [DB.instance?, instances, ← DB.instance?]
  have hand := get_listTaskInstances before run
  refine ⟨fun id ti stored => ?_, fun id none => ?_, fun key _ => same key, fun id => ?_⟩
  · exact ⟨(same _).trans stored, ti, (hand id).trans stored, .inr ⟨rfl, fun _ t listed _ => listed⟩⟩
  · exact .inl ⟨(hand id).trans none, (same _).trans none, fun t listed _ => listed⟩
  · rw [runs]
    by_cases own : id = run
    · subst own
      rw [if_pos rfl, if_pos rfl, found]
      rw [found] at stored
      cases stored
      rfl
    · rw [if_neg own, if_neg own]

theorem createTaskInstance_writes (ti : TaskInstance) (w : World) (a : Answer) : ∃ reply v,
    World.perform 0 (.createTaskInstance ti) a w = some (reply, v, []) ∧ v.cache = w.cache ∧
      ((∃ db, w.db.createTaskInstance ti = .ok db ∧ reply = .ok () ∧ v.db = db) ∨
        ∃ e, reply = .error e ∧ v.db = w.db ∧ Refused (w.db.createTaskInstance ti) (a.served = true) e) :=
  World.write_spec a w _ _

theorem updateTaskInstance_writes (ti : TaskInstance) (w : World) (a : Answer) : ∃ reply v,
    World.perform 0 (.updateTaskInstance ti) a w = some (reply, v, []) ∧ v.cache = w.cache ∧
      ((∃ db, w.db.updateTaskInstance ti = .ok db ∧ reply = .ok () ∧ v.db = db) ∨
        ∃ e, reply = .error e ∧ v.db = w.db ∧ Refused (w.db.updateTaskInstance ti) (a.served = true) e) :=
  World.write_spec a w _ _

theorem updateDagRunDefinition_writes (run : RunID) (yaml hash : String) (w : World) (a : Answer) : ∃ reply v,
    World.perform 0 (.updateDagRunDefinition run yaml hash) a w = some (reply, v, []) ∧ v.cache = w.cache ∧
      ((∃ db, w.db.updateDagRunDefinition run yaml hash = .ok db ∧ reply = .ok () ∧ v.db = db) ∨
        ∃ e, reply = .error e ∧ v.db = w.db ∧ Refused (w.db.updateDagRunDefinition run yaml hash) (a.served = true) e) :=
  World.write_spec a w _ _

theorem updateDagRunState_writes (run : RunID) (state : RunState) (started finished : Option Time) (w : World) (a : Answer) :
    ∃ reply v, World.perform 0 (.updateDagRunState run state started finished) a w = some (reply, v, []) ∧ v.cache = w.cache ∧
      ((∃ db, w.db.updateDagRunState run state started finished = .ok db ∧ reply = .ok () ∧ v.db = db) ∨
        ∃ e, reply = .error e ∧ v.db = w.db ∧
          Refused (w.db.updateDagRunState run state started finished) (a.served = true) e) :=
  World.write_spec a w _ _

/-- A new instance of a stored run clashes with no other. -/
theorem createTaskInstance_total {ti : TaskInstance} (owner : (db.run? ti.runID).isSome) (free : db.instance? ti.key = none) :
    ∃ after, db.createTaskInstance ti = .ok after := by
  unfold DB.createTaskInstance
  rw [if_neg (by cases found : db.run? ti.runID <;> simp_all)]
  cases inserted : db.taskInstances.insert? ti with
  | some taskInstances => exact ⟨_, rfl⟩
  | none =>
    have refused : db.createTaskInstance ti = .error .alreadyExists := by
      unfold DB.createTaskInstance
      rw [if_neg (by cases found : db.run? ti.runID <;> simp_all), inserted]
    have stored := DB.createTaskInstance_exists refused
    rw [free] at stored
    cases stored

/-- What a step of a retry ends with: its work is done, or the database was not available. -/
def Done (reliable : Prop) {A : Type} (good : A → World → Prop) : Except Failure A → World → Prop
  | .ok a, w => good a w
  | .error e, _ => e = .store .unavailable ∧ ¬ reliable

theorem adoptTask_alone {s : World × List Answer} (adopts : Adopts run yaml hash d reset before (t :: rest) byTask s.1.db)
    (member : t ∈ d.tasks) (holds : inv s) (owner : (before.run? run).isSome) :
    (adoptTask run hash reset byTask t).Safe (Prog.sequential World.replay inv)
      (fun r u => inv u ∧ Done (Reliable inv) (fun hand v => Adopts run yaml hash d reset before rest hand v.db) r u.1) s := by
  unfold adoptTask
  split
  · rename_i absent
    have free : s.1.db.instance? (newInstance run t hash).key = none := by
      show s.1.db.instance? ⟨run, t.id⟩ = none
      cases stored : before.instance? ⟨run, t.id⟩ with
      | some ti =>
        obtain ⟨_, copy, inHand, _⟩ := adopts.stored t.id ti stored
        rw [absent] at inHand
        cases inHand
      | none =>
        rcases adopts.missing t.id stored with ⟨_, unstored, _⟩ | ⟨⟨copy, inHand, _⟩, _⟩
        · exact unstored
        · rw [absent] at inHand
          cases inHand
    have kept : (s.1.db.run? run).isSome := by
      rw [adopts.runs, if_pos rfl, Option.isSome_map]
      exact owner
    obtain ⟨created, done⟩ := createTaskInstance_total kept free
    refine alone_write (createTaskInstance_writes _ s.1) ?_ ?_
    · intro db u written world holds
      have adopted := adopts.creates member absent written
      rw [← world.db] at adopted
      exact ⟨holds, adopted⟩
    · intro e u refused _ holds
      rcases refused with failed | ⟨rfl, unreliable⟩
      · rw [done] at failed
        cases failed
      · exact ⟨holds, rfl, unreliable⟩
  · rename_i ti found
    split
    · exact ⟨holds, adopts.columns member found⟩
    · rename_i untouched
      exact ⟨holds, adopts.passes found untouched⟩

theorem prepareRetryDefinition_alone (env : Env) {s : World × List Answer} {row : DagRun} (found : s.1.db.run? run = some row) :
    (prepareRetryDefinition env run d (s.1.db.listTaskInstances run) reset).Safe (Prog.sequential World.replay inv)
      (fun r u => Done (Reliable inv) (fun hand v =>
        Adopts run d.definitionYAML (env.hash d.definitionYAML) d reset s.1.db [] hand v.db) r u.1) s := by
  have known : ∃ after, s.1.db.updateDagRunDefinition run d.definitionYAML (env.hash d.definitionYAML) = .ok after := by
    unfold DB.updateDagRunDefinition
    rw [found]
    exact ⟨_, rfl⟩
  obtain ⟨after, done⟩ := known
  refine alone_write (updateDagRunDefinition_writes run _ _ s.1) ?_ ?_
  · intro db t written world holds
    refine Prog.Safe.fold (fun rest hand (u : World × List Answer) => inv u ∧ (∀ t ∈ rest, t ∈ d.tasks) ∧
      Adopts run d.definitionYAML (env.hash d.definitionYAML) d reset s.1.db rest hand u.1.db) ?_ ?_ ?_
    · exact ⟨holds, fun _ member => member, world.db ▸ Adopts.start found written⟩
    · intro t rest hand u kept
      obtain ⟨holds, members, adopts⟩ := kept
      refine (adoptTask_alone adopts (members t (.head _)) holds (by simp [found])).mono fun r v ended => ?_
      cases r with
      | ok hand => exact ⟨ended.1, fun t later => members t (.tail _ later), ended.2⟩
      | error e => exact ended.2
    · exact fun hand u kept => kept.2.2
  · intro e t refused _ _
    rcases refused with failed | ⟨rfl, unreliable⟩
    · rw [done] at failed
      cases failed
    · exact ⟨rfl, unreliable⟩

end Adoption

/-! ### The reset -/

section Clearing

variable {run : RunID} {byTask : ByTask} {mid : DB} {ordered rest : List TaskID} {inv : World × List Answer → Prop}

/-- What the loop of `clearAndReactivate` has done when `rest` is still to be reset. -/
structure Clears (run : RunID) (byTask : ByTask) (mid : DB) (ordered rest : List TaskID) (db : DB) : Prop where
  rows : ∀ id copy, byTask.get id = some copy →
    (id ∈ ordered ∧ db.instance? ⟨run, id⟩ = some (TaskInstance.reset copy)) ∨
    (db.instance? ⟨run, id⟩ = mid.instance? ⟨run, id⟩ ∧ (id ∈ ordered → id ∈ rest))
  elsewhere : ∀ key, key.run ≠ run ∨ byTask.get key.task = none → db.instance? key = mid.instance? key
  runs : db.runs = mid.runs

theorem Clears.passes {id : TaskID} {db : DB} (clears : Clears run byTask mid ordered (id :: rest) db)
    (absent : byTask.get id = none) : Clears run byTask mid ordered rest db := by
  refine ⟨fun other copy found => ?_, clears.elsewhere, clears.runs⟩
  rcases clears.rows other copy found with done | ⟨kept, todo⟩
  · exact .inl done
  · refine .inr ⟨kept, fun listed => (List.mem_cons.mp (todo listed)).resolve_left ?_⟩
    rintro rfl
    rw [absent] at found
    cases found

theorem Clears.resets {id : TaskID} {db after : DB} {copy : TaskInstance} (clears : Clears run byTask mid ordered (id :: rest) db)
    (listed : id ∈ ordered) (found : byTask.get id = some copy) (own : copy.runID = run)
    (written : db.updateTaskInstance (TaskInstance.reset copy) = .ok after) : Clears run byTask mid ordered rest after := by
  obtain ⟨⟨row, stored⟩, rfl⟩ := DB.updateTaskInstance_ok written
  have shown : copy.taskID = id := (ByTask.get_some found).2
  have key : (TaskInstance.reset copy).key = ⟨run, id⟩ := by
    show (⟨copy.runID, copy.taskID⟩ : InstanceKey) = _
    rw [own, shown]
  rw [key] at stored
  have other (k : InstanceKey) (apart : k ≠ ⟨run, id⟩) :
      (db.writeInstance (TaskInstance.reset copy) fun _ => true).instance? k = db.instance? k := by
    rw [DB.instance?_writeInstance, key, if_neg apart]
  refine ⟨fun task copy' found' => ?_, fun k outside => ?_, clears.runs⟩
  · by_cases same : task = id
    · subst same
      rw [found] at found'
      cases found'
      refine .inl ⟨listed, ?_⟩
      rw [DB.instance?_writeInstance, key, if_pos rfl, stored]
      rfl
    · have apart : (⟨run, task⟩ : InstanceKey) ≠ ⟨run, id⟩ := fun eq => same (congrArg InstanceKey.task eq)
      rw [other _ apart]
      rcases clears.rows task copy' found' with done | ⟨kept, todo⟩
      · exact .inl done
      · exact .inr ⟨kept, fun inside => (List.mem_cons.mp (todo inside)).resolve_left same⟩
  · rw [other k, clears.elsewhere k outside]
    rintro rfl
    rcases outside with elsewhere | absent
    · exact elsewhere rfl
    · rw [found] at absent
      cases absent

/-- The store after a retry that has reset these tasks of the run. -/
structure Reopened (run : RunID) (row : DagRun) (yaml hash : String) (d : DAG) (reset : TaskID → Prop) (before after : DB) (now : Time) :
    Prop where
  cleared : ∀ id ti, reset id → before.instance? ⟨run, id⟩ = some ti →
    ∃ t ∈ d.tasks, t.id = id ∧ after.instance? ⟨run, id⟩ = some (TaskInstance.reset (withColumns hash t ti))
  kept : ∀ id ti, ¬ reset id → before.instance? ⟨run, id⟩ = some ti → after.instance? ⟨run, id⟩ = some ti
  created : ∀ id ∈ taskIDSet d.tasks, before.instance? ⟨run, id⟩ = none →
    ∃ ti, after.instance? ⟨run, id⟩ = some ti ∧ New run hash d id ti
  absent : ∀ id ∉ taskIDSet d.tasks, before.instance? ⟨run, id⟩ = none → after.instance? ⟨run, id⟩ = none
  elsewhere : ∀ key, key.run ≠ run → after.instance? key = before.instance? key
  running : after.run? run = some { row with
    definitionYAML := yaml, definitionHash := hash, state := .running, startedAt := some now, finishedAt := none }
  others : ∀ id, id ≠ run → after.run? id = before.run? id

theorem Reopened.of_clears {row : DagRun} {yaml hash : String} {d : DAG} {ids : List TaskID} {before db after : DB} {now : Time}
    (found : before.run? run = some row) (valid : ∀ id ∈ ids, id ∈ taskIDSet d.tasks)
    (adopts : Adopts run yaml hash d ids before [] byTask mid) (permuted : ordered.Perm ids)
    (clears : Clears run byTask mid ordered [] db) (written : db.updateDagRunState run .running (some now) none = .ok after) :
    Reopened run row yaml hash d (· ∈ ids) before after now := by
  obtain ⟨old, stored, legal, runs, instances, _⟩ := DB.updateDagRunState_ok written
  have same (key : InstanceKey) : after.instance? key = db.instance? key := by
    rw [DB.instance?, instances, ← DB.instance?]
  have former (id : RunID) : db.run? id = mid.run? id := by rw [DB.run?, clears.runs, ← DB.run?]
  have untouched (id : TaskID) (outside : id ∉ ids) : db.instance? ⟨run, id⟩ = mid.instance? ⟨run, id⟩ := by
    cases inHand : byTask.get id with
    | none => exact clears.elsewhere _ (.inr inHand)
    | some copy =>
      rcases clears.rows id copy inHand with ⟨listed, _⟩ | ⟨kept, _⟩
      · exact absurd (permuted.mem_iff.mp listed) outside
      · exact kept
  have cleared (id : TaskID) (copy : TaskInstance) (inside : id ∈ ids) (inHand : byTask.get id = some copy) :
      db.instance? ⟨run, id⟩ = some (TaskInstance.reset copy) := by
    rcases clears.rows id copy inHand with ⟨_, done⟩ | ⟨_, todo⟩
    · exact done
    · exact absurd (todo (permuted.mem_iff.mpr inside)) List.not_mem_nil
  have defined : mid.run? run = some (DB.setDefinition yaml hash row) := by
    rw [adopts.runs, if_pos rfl, found]
    rfl
  refine ⟨fun id ti inside stored => ?_, fun id ti outside stored => ?_, fun id listed none => ?_, fun id unlisted none => ?_,
    fun key apart => ?_, ?_, fun id apart => ?_⟩
  · obtain ⟨_, copy, inHand, columns⟩ := adopts.stored id ti stored
    have reset := (same _).trans (cleared id copy inside inHand)
    rcases columns with ⟨t, member, own, rfl⟩ | ⟨_, todo⟩
    · exact ⟨t, member, own, reset⟩
    · obtain ⟨t, member, own⟩ := List.mem_map.mp (valid id inside)
      exact absurd (todo inside t member own) List.not_mem_nil
  · rw [same, untouched id outside]
    exact (adopts.stored id ti stored).1
  · rcases adopts.missing id none with ⟨_, _, todo⟩ | ⟨⟨copy, inHand, new⟩, row', unreset, new'⟩
    · obtain ⟨t, member, rfl⟩ := List.mem_map.mp listed
      exact absurd (todo t member rfl) List.not_mem_nil
    · by_cases inside : id ∈ ids
      · obtain ⟨t, member, own, rfl⟩ := new
        exact ⟨_, (same _).trans (cleared id _ inside inHand), t, member, own, rfl⟩
      · exact ⟨row', by rw [same, untouched id inside]; exact unreset, new'⟩
  · rw [same, untouched id (fun inside => unlisted (valid id inside))]
    rcases adopts.missing id none with ⟨_, unstored, _⟩ | ⟨_, _, _, t, member, own, _⟩
    · exact unstored
    · exact absurd (own ▸ List.mem_map_of_mem member) unlisted
  · rw [same, clears.elsewhere key (.inl apart)]
    exact adopts.elsewhere key apart
  · rw [runs, if_pos rfl]
    rw [former, defined] at stored
    cases stored
    rfl
  · rw [runs, if_neg apart, former, adopts.runs, if_neg apart]

/-- A copy in hand is one of a row of the run. -/
theorem Adopts.owned {yaml hash : String} {d : DAG} {reset : List TaskID} {before : DB} {rest : List Task} {db : DB}
    (adopts : Adopts run yaml hash d reset before rest byTask db) {id : TaskID} {copy : TaskInstance} (inHand : byTask.get id = some copy) :
    copy.runID = run ∧ (db.instance? ⟨run, id⟩).isSome := by
  cases stored : before.instance? ⟨run, id⟩ with
  | some ti =>
    obtain ⟨kept, copy', inHand', columns⟩ := adopts.stored id ti stored
    rw [inHand] at inHand'
    cases inHand'
    have owner : ti.runID = run := congrArg InstanceKey.run (DB.instance?_some stored).2
    refine ⟨?_, by simp [kept]⟩
    rcases columns with ⟨t, _, _, rfl⟩ | ⟨rfl, _⟩
    · exact owner
    · exact owner
  | none =>
    rcases adopts.missing id stored with ⟨unheld, _⟩ | ⟨⟨copy', inHand', t, _, _, rfl⟩, row, unreset, _⟩
    · rw [inHand] at unheld
      cases unheld
    · rw [inHand] at inHand'
      cases inHand'
      exact ⟨rfl, by simp [unreset]⟩

/-- A time that the clock of the surroundings has shown. -/
def Shown (inv : World × List Answer → Prop) (now : Time) : Prop := ∃ s, inv s ∧ now = (s.2.headD {}).now

/-- The loop resets the tasks that it is handed, in whatever order. -/
theorem clearTasks_alone {s : World × List Answer}
    (owned : ∀ id copy, byTask.get id = some copy → copy.runID = run ∧ (s.1.db.instance? ⟨run, id⟩).isSome) (holds : inv s)
    (ordered : List TaskID) :
    (Prog.forEach ordered fun id => match byTask.get id with
      | none => pure ()
      | some ti => updateTaskInstance (TaskInstance.reset ti)).Safe (Prog.sequential World.replay inv)
      (fun r u => inv u ∧ Done (Reliable inv) (fun _ v => Clears run byTask s.1.db ordered [] v.db) r u.1) s := by
  apply Prog.Safe.forEach fun rest (u : World × List Answer) => inv u ∧ (∀ id ∈ rest, id ∈ ordered) ∧
    Clears run byTask s.1.db ordered rest u.1.db
  · exact ⟨holds, fun _ member => member, fun id copy _ => .inr ⟨rfl, fun listed => listed⟩, fun _ _ => rfl, rfl⟩
  · intro id rest u kept
    obtain ⟨holds, listed, clears⟩ := kept
    split
    · rename_i absent
      exact ⟨holds, fun other later => listed other (.tail _ later), clears.passes absent⟩
    · rename_i copy inHand
      obtain ⟨own, some⟩ := owned id copy inHand
      have shown : copy.taskID = id := (ByTask.get_some inHand).2
      have stored : (u.1.db.instance? (TaskInstance.reset copy).key).isSome := by
        have key : (TaskInstance.reset copy).key = ⟨run, id⟩ := by
          show (⟨copy.runID, copy.taskID⟩ : InstanceKey) = _
          rw [own, shown]
        rw [key]
        rcases clears.rows id copy inHand with ⟨_, done⟩ | ⟨kept, _⟩
        · simp [done]
        · rw [kept]
          exact some
      have known : ∃ after, u.1.db.updateTaskInstance (TaskInstance.reset copy) = .ok after := by
        unfold DB.updateTaskInstance
        obtain ⟨row, found⟩ := Option.isSome_iff_exists.mp stored
        rw [found]
        exact ⟨_, rfl⟩
      obtain ⟨after, done⟩ := known
      refine alone_write_last (updateTaskInstance_writes _ u.1) ?_ ?_
      · intro db v written world holds
        have reset := clears.resets (listed id (.head _)) inHand own written
        rw [← world.db] at reset
        exact ⟨holds, fun other later => listed other (.tail _ later), reset⟩
      · intro e v refused _ holds
        rcases refused with failed | ⟨rfl, unreliable⟩
        · rw [done] at failed
          cases failed
        · exact ⟨holds, rfl, unreliable⟩
  · intro u kept
    exact ⟨kept.1, kept.2.2⟩

theorem clearAndReactivate_alone {row : DagRun} {yaml hash : String} {d : DAG} {before : DB} {ids : List TaskID}
    {s : World × List Answer} (found : before.run? run = some row) (ended : row.state.isTerminal = true)
    (valid : ∀ id ∈ ids, id ∈ taskIDSet d.tasks) (adopts : Adopts run yaml hash d ids before [] byTask s.1.db) :
    (clearAndReactivate run byTask ids).Safe (Prog.sequential World.replay inv) (fun r u => Done (Reliable inv) (fun _ v =>
      ∃ now, Shown inv now ∧ Reopened run row yaml hash d (· ∈ ids) before v.db now) r u.1) s := by
  refine alone_perform (o := .order ids) (fun _ ordered => ordered.Perm ids)
    (fun a => ⟨_, _, _, rfl, Holds.refl _, a.order.perm ids⟩) ?_
  intro ordered t _ permuted world holds
  replace permuted : List.Perm ordered ids := permuted
  rw [← world.db] at adopts
  refine Prog.Safe.bind _ (clearTasks_alone (fun _ _ inHand => adopts.owned inHand) holds ordered) ?_ ?_
  · intro _ u cleared
    obtain ⟨_, cleared⟩ := cleared
    refine alone_perform (o := .now) (fun a now => now = a.now) (fun a => ⟨_, _, _, rfl, Holds.refl _, rfl⟩) ?_
    intro now v shown read world' _
    have known : ∃ after, v.1.db.updateDagRunState run .running (some now) none = .ok after := by
      have defined : v.1.db.run? run = some (DB.setDefinition yaml hash row) := by
        rw [world'.db, DB.run?, cleared.runs, ← DB.run?, adopts.runs, if_pos rfl, found]
        rfl
      have legal : (DB.setDefinition yaml hash row).state ∈ legalPriorRunStates .running := by
        show row.state ∈ _
        cases state : row.state <;> simp_all [legalPriorRunStates, RunState.isTerminal]
      unfold DB.updateDagRunState
      simp only [defined, if_pos legal]
      exact ⟨_, rfl⟩
    obtain ⟨after, done⟩ := known
    refine alone_write_last (updateDagRunState_writes run .running (some now) none v.1) ?_ ?_
    · intro db x written world'' _
      rw [world'.db] at written
      have reopened := Reopened.of_clears found valid adopts permuted cleared written
      rw [← world''.db] at reopened
      exact ⟨now, ⟨_, shown, read⟩, reopened⟩
    · intro e x refused _ _
      rcases refused with failed | ⟨rfl, unreliable⟩
      · rw [done] at failed
        cases failed
      · exact ⟨rfl, unreliable⟩
  · intro e u failed
    exact failed.2

end Clearing

/-! ### The operations -/

section Operations

variable (env : Env) {run : RunID} {inv : World × List Answer → Prop}

/-- How a retry ends: it is done, it declines and leaves the store as it is, or the database was not available. -/
def OperatorRetry.Ends (retry : OperatorRetry) (run : RunID) (inv : World × List Answer → Prop) (w : World) :
    Except Failure Unit → World → Prop
  | .ok _, v => ∃ row d now, Target w run row d ∧ retry.Starts d (w.db.listTaskInstances run) ∧ Shown inv now ∧
    Reopened run row d.definitionYAML (env.hash d.definitionYAML) d (· ∈ retry.resets d (w.db.listTaskInstances run)) w.db v.db now
  | .error e, v => (e = .store .unavailable ∧ ¬ Reliable inv) ∨
    (v.db = w.db ∧ ∀ row d, Target w run row d → ¬ retry.Starts d (w.db.listTaskInstances run))

theorem OperatorRetry.resets_valid {d : DAG} {byTask : ByTask} (retry : OperatorRetry) :
    ∀ id ∈ retry.resets d byTask, id ∈ taskIDSet d.tasks := by
  intro id member
  cases retry with
  | task t => exact of_decide_eq_true (List.mem_filter.mp member).2
  | run =>
    obtain ⟨ti, _, valid, _, down⟩ := mem_retryIDs.mp member
    exact down.valid valid

/-- Both retries end with the same reset, of the tasks that each of them selects. -/
theorem resetTasks_alone (retry : OperatorRetry) {s t : World × List Answer} {row : DagRun} {d : DAG}
    (target : Target s.1 run row d) (starts : retry.Starts d (s.1.db.listTaskInstances run)) (world : Holds s.1.db s.1 t.1) :
    Prog.Safe (Prog.sequential World.replay inv) (do
      let byTask ← prepareRetryDefinition env run d (s.1.db.listTaskInstances run)
        (retry.resets d (s.1.db.listTaskInstances run))
      clearAndReactivate run byTask (retry.resets d (s.1.db.listTaskInstances run)))
      (fun r u => ∀ v, Holds u.1.db u.1 v → retry.Ends env run inv s.1 r v) t := by
  have found : t.1.db.run? run = some row := by
    rw [world.db]
    exact target.found
  have prepared := @prepareRetryDefinition_alone run d (retry.resets d (s.1.db.listTaskInstances run)) inv env t row found
  rw [world.db] at prepared
  refine Prog.Safe.bind _ prepared ?_ ?_
  · intro byTask u adopts
    refine (clearAndReactivate_alone target.found target.ended retry.resets_valid adopts).mono fun r v ended x same => ?_
    cases r with
    | ok _ =>
      obtain ⟨now, shown, reopened⟩ := ended
      rw [← same.db] at reopened
      exact ⟨row, d, now, target, starts, shown, reopened⟩
    | error e => exact .inl ended
  · intro e u failed x _
    exact .inl failed

/-- A retry that never started has found no target. -/
theorem OperatorRetry.Ends.declined {retry : OperatorRetry} {e : Failure} {s t u : World × List Answer} {v : World}
    (world : Holds s.1.db s.1 t.1) (context : Holds t.1.db t.1 u.1) (same : Holds u.1.db u.1 v)
    (declines : Declines (Reliable inv) (∀ row d, ¬ Target t.1 run row d) e) : retry.Ends env run inv s.1 (.error e) v := by
  rcases declines with none | unserved
  · refine .inr ⟨same.db.trans (context.db.trans world.db), fun row d target => ?_⟩
    exact absurd (target.holds world) (none row d)
  · exact .inl unserved

/-- `retryRunLocked`, as `RetryRun` and the processing of a parent call it. -/
theorem retryRunLocked_ends {s t : World × List Answer} (world : Holds s.1.db s.1 t.1) :
    (retryRunLocked env run).Safe (Prog.sequential World.replay inv)
      (fun r u => ∀ v, Holds u.1.db u.1 v → OperatorRetry.Ends env .run run inv s.1 r v) t := by
  refine Prog.Safe.bind _ (retryContext_alone run t) ?_ fun e u context v same => .declined env world context.1 same context.2.2
  rintro ⟨row, d, tis⟩ u ⟨context, _, target, rfl⟩
  have start : Target s.1 run row d := target.holds ⟨world.db.symm, world.cache.symm⟩
  rw [world.db]
  dsimp only
  split
  · rename_i empty
    intro v same
    refine .inr ⟨same.db.trans (context.db.trans world.db), fun row' d' target' starts => ?_⟩
    obtain ⟨_, rfl⟩ := start.unique target'
    exact starts (List.isEmpty_iff.mp empty)
  · rename_i some
    have starts : OperatorRetry.Starts d (s.1.db.listTaskInstances run) .run := fun empty => some (by simp [empty])
    exact resetTasks_alone env .run start starts ⟨context.db.trans world.db, context.cache.trans world.cache⟩

variable (run inv) in
theorem OperatorRetry.act_ends (retry : OperatorRetry) (s : World × List Answer) :
    (retry.act env run).Safe (Prog.sequential World.replay inv) (fun r t => retry.Ends env run inv s.1 r t.1) s := by
  cases retry with
  | task id =>
    refine alone_locked (fun r w => OperatorRetry.Ends env (.task id) run inv s.1 r w) fun t world _ => ?_
    refine Prog.Safe.bind _ (retryContext_alone run t) ?_ fun e u context v same => .declined env world context.1 same context.2.2
    rintro ⟨row, d, tis⟩ u ⟨context, _, target, rfl⟩
    have start : Target s.1 run row d := target.holds ⟨world.db.symm, world.cache.symm⟩
    rw [world.db]
    dsimp only
    split
    · rename_i missing
      intro v same
      refine .inr ⟨same.db.trans (context.db.trans world.db), fun row' d' target' starts => ?_⟩
      obtain ⟨_, rfl⟩ := start.unique target'
      rcases missing with absent | foreign
      · have some := starts.1
        rw [Option.isNone_iff_eq_none.mp absent] at some
        cases some
      · exact foreign starts.2
    · rename_i present
      rw [not_or] at present
      have starts : OperatorRetry.Starts d (s.1.db.listTaskInstances run) (.task id) := by
        refine ⟨?_, not_not.mp present.2⟩
        rw [Option.isSome_iff_ne_none]
        exact fun none => present.1 (by simp [none])
      exact resetTasks_alone env (.task id) start starts ⟨context.db.trans world.db, context.cache.trans world.cache⟩
  | run => exact alone_locked (fun r w => OperatorRetry.Ends env .run run inv s.1 r w) fun t world _ => retryRunLocked_ends env world

end Operations

end Cronova.Scheduler
