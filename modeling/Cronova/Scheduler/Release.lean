import Cronova.Scheduler.Cascade
import Cronova.Scheduler.Expansion
import Cronova.Scheduler.Finishing

/-! What marking a task releases: `MarkTask` resets the closure of the task, and the block propagation
of the next tick blocks a part of it again. Any statement may fail. -/

set_option autoImplicit false

namespace Cronova.Scheduler

open Model Store Process
open Calendar (Time)
open Relation (ReflTransGen)

variable {db now after : DB} {s : World × List Answer}

/-! ### The cascade of the attempt -/

section Touch

variable {root c : RunID} {within among : Set RunID}

/-- Instances have been cancelled since: of these runs only, and none that had ended. No run has become active. -/
structure Touched (within : Set RunID) (before after : DB) : Prop where
  row : ∀ key row, before.instance? key = some row → after.instance? key = some row ∨
    (key.run ∈ within ∧ row.state.isTerminal = false ∧
      ∃ fin, after.instance? key = some { row with state := .cancelled, finishedAt := some fin })
  none : ∀ key, before.instance? key = none → after.instance? key = none
  active : activeRuns after ⊆ activeRuns before

theorem Touched.refl (within : Set RunID) (db : DB) : Touched within db db :=
  ⟨fun _ _ found => .inl found, fun _ none => none, subset_rfl⟩

theorem Touched.trans (first : Touched within db now) (second : Touched among now after) (fewer : among ⊆ within) :
    Touched within db after := by
  refine ⟨fun key row found => ?_, fun key none => second.none key (first.none key none), second.active.trans first.active⟩
  rcases first.row key row found with kept | ⟨inside, unfinished, fin, cancelled⟩
  · exact (second.row key row kept).imp_right fun ⟨inside, rest⟩ => ⟨fewer inside, rest⟩
  · rcases second.row key _ cancelled with kept | ⟨_, ended, _⟩
    · exact .inr ⟨inside, unfinished, fin, kept⟩
    · cases ended

/-- Where no run may have been touched, every instance is as it was. -/
theorem Touched.instances (touched : Touched ∅ db now) (key : InstanceKey) : now.instance? key = db.instance? key := by
  cases before : db.instance? key with
  | none => exact touched.none key before
  | some row => exact (touched.row key row before).resolve_right fun impossible => impossible.1

theorem Touched.subRuns_le (touched : Touched within db now) (r : RunID) : subRuns now r ⊆ subRuns db r := by
  rintro c ⟨task, ti, found, unfinished, ref⟩
  cases before : db.instance? ⟨r, task⟩ with
  | none =>
    rw [touched.none _ before] at found
    cases found
  | some row =>
    rcases touched.row _ row before with kept | ⟨_, _, fin, cancelled⟩
    · cases found.symm.trans kept
      exact ⟨task, ti, before, unfinished, ref⟩
    · cases found.symm.trans cancelled
      cases unfinished

/-- What a run below is linked to, the run itself was. -/
theorem Touched.linked_le (touched : Touched within db now) (live : root ∈ activeRuns db) (refers : c ∈ subRuns db root) :
    linked now c ⊆ linked db root := by
  rintro b reached
  have onward := Sweep.reach_mono touched.active (fun a _ => touched.subRuns_le a) reached
  have first : c ∈ linked db root := Sweep.reach_next (Sweep.root_mem_reach live) ⟨live, onward.1, refers⟩
  exact ⟨live, first.2.trans onward.2⟩

/-- The runs that the attempt is linked to. -/
def linkedRef (db : DB) (ref : ExecutorRef) : Set RunID := {r | ∃ c, ref = .subdag c ∧ r ∈ linked db c}

/-- A run in the middle of its cancellation, whatever fails: the copies that are still to come are its rows. -/
structure Touching (db : DB) (root : RunID) (rest : List TaskInstance) (now : DB) : Prop where
  touched : Touched (linked db root) db now
  live : root ∈ activeRuns db
  idle : root ∉ activeRuns now
  waiting : ∀ ti ∈ rest, now.instance? ti.key = some ti ∧ ti.runID = root
  original : ∀ ti ∈ rest, db.instance? ti.key = some ti
  keys : (rest.map (·.key)).Nodup

variable {ti : TaskInstance} {rest : List TaskInstance}

/-- The run is cancelled first. -/
theorem Touching.start {x : DagRun} {started finished : Option Time} (found : db.run? root = some x) (active : x.state.isActive = true)
    (written : db.updateDagRunState root .cancelled started finished = .ok now) :
    Touching db root (now.listTaskInstances root) now := by
  obtain ⟨_, _, _, runs, instances, _⟩ := DB.updateDagRunState_ok written
  have same (key : InstanceKey) : now.instance? key = db.instance? key := by rw [DB.instance?, instances, ← DB.instance?]
  have idle : root ∉ activeRuns now := by
    rintro ⟨y, stored, active⟩
    rw [runs, if_pos rfl] at stored
    cases stored
    cases active
  have fewer : activeRuns now ⊆ activeRuns db := by
    rintro r ⟨y, stored, active⟩
    by_cases own : r = root
    · subst own
      exact absurd ⟨y, stored, active⟩ idle
    · rw [runs, if_neg own] at stored
      exact ⟨y, stored, active⟩
  have listed (ti : TaskInstance) (member : ti ∈ now.listTaskInstances root) : now.instance? ti.key = some ti ∧ ti.runID = root :=
    (DB.mem_listTaskInstances root ti).mp member
  exact ⟨⟨fun key row stored => .inl ((same key).trans stored), fun key none => (same key).trans none, fewer⟩, ⟨x, found, active⟩, idle,
    listed, fun ti member => (same _).symm.trans (listed ti member).1, now.taskInstances.distinct.sublist (List.filter_sublist.map _)⟩

theorem Touching.skip (touching : Touching db root (ti :: rest) now) : Touching db root rest now :=
  { touching with
    waiting := fun other member => touching.waiting other (.tail _ member)
    original := fun other member => touching.original other (.tail _ member)
    keys := (List.nodup_cons.mp touching.keys).2 }

/-- What the attempt of the next copy is linked to touches neither this run nor its copies. -/
theorem Touching.child (touching : Touching db root (ti :: rest) now) (unfinished : ti.state.isTerminal = false)
    (touched : Touched (linkedRef now ti.executorRef) now after) : Touching db root (ti :: rest) after := by
  have idle : root ∉ activeRuns after := fun active => touching.idle (touched.active active)
  refine { touching with touched := touching.touched.trans touched ?_, idle, waiting := fun other member => ?_ }
  · rintro r ⟨c, ref, reached⟩
    obtain ⟨_, rfl⟩ := touching.waiting ti (.head _)
    exact touching.touched.linked_le touching.live ⟨ti.taskID, ti, touching.original ti (.head _), unfinished, ref⟩ reached
  · obtain ⟨found, own⟩ := touching.waiting other member
    refine ⟨?_, own⟩
    rcases touched.row other.key other found with kept | ⟨⟨c, _, reached⟩, _⟩
    · exact kept
    · rw [show other.key.run = root from own] at reached
      exact absurd (Sweep.reach_alive reached) touching.idle

/-- The copy that is next is cancelled. -/
theorem Touching.write (fin : Time) (touching : Touching db root (ti :: rest) now) (unfinished : ti.state.isTerminal = false)
    (written : now.updateTaskInstance { ti with state := .cancelled, finishedAt := some fin } = .ok after) :
    Touching db root rest after := by
  obtain ⟨_, rfl⟩ := DB.updateTaskInstance_ok written
  obtain ⟨found, own⟩ := touching.waiting ti (.head _)
  obtain ⟨fresh, _⟩ := List.nodup_cons.mp touching.keys
  have key : TaskInstance.key { ti with state := .cancelled, finishedAt := some fin } = ti.key := rfl
  have other (k : InstanceKey) (apart : k ≠ ti.key) :
      (now.writeInstance { ti with state := .cancelled, finishedAt := some fin } fun _ => true).instance? k = now.instance? k := by
    rw [DB.instance?_writeInstance, key, if_neg apart]
  refine { touching.skip with touched := ⟨fun k row before => ?_, fun k none => ?_, touching.touched.active⟩, waiting := ?_ }
  · by_cases same : k = ti.key
    · subst same
      cases before.symm.trans (touching.original ti (.head _))
      refine .inr ⟨?_, unfinished, fin, ?_⟩
      · rw [show ti.key.run = root from own]
        exact Sweep.root_mem_reach touching.live
      · rw [DB.instance?_writeInstance, key, if_pos rfl, found]
        rfl
    · rw [other k same]
      exact touching.touched.row k row before
  · have same : k ≠ ti.key := by
      rintro rfl
      cases none.symm.trans (touching.original ti (.head _))
    rw [other k same]
    exact touching.touched.none k none
  · intro copy member
    obtain ⟨kept, owned⟩ := touching.waiting copy (.tail _ member)
    refine ⟨?_, owned⟩
    rw [other copy.key fun same => fresh (List.mem_map.mpr ⟨copy, member, same⟩)]
    exact kept

variable {inv : World × List Answer → Prop} {ref : ExecutorRef}

/-- A cancellation that touches only what the run is linked to. -/
def Touches (inv : World × List Answer → Prop) (cancelRun : RunID → Act Unit) : Prop :=
  ∀ c (s : World × List Answer), (cancelRun c).Safe (Prog.sequential World.replay inv)
    (fun _ t => Touched (linked s.1.db c) s.1.db t.1.db) s

theorem logged_returns {p : Act Unit} {keep : World × List Answer → Prop}
    (safe : p.Safe (Prog.sequential World.replay inv) (fun _ t => keep t) s) :
    (logged p).Safe (Prog.sequential World.replay inv) (Prog.returns fun _ t => keep t) s :=
  Prog.Safe.andThen (fun _ t => keep t) (Prog.Safe.attempt safe) fun _ _ kept => kept

theorem cancelAttempt_touches {cancelRun : RunID → Act Unit} (below : Touches inv cancelRun) (ref : ExecutorRef)
    (s : World × List Answer) : (cancelAttempt cancelRun ref).Safe (Prog.sequential World.replay inv)
      (Prog.returns fun _ t => Touched (linkedRef s.1.db ref) s.1.db t.1.db) s := by
  have kills : (perform (.cancel ref)).Safe (Prog.sequential World.replay inv)
      (Prog.returns fun _ t => Touched (linkedRef s.1.db ref) s.1.db t.1.db) s := by
    refine alone_perform (o := .cancel ref) (k := .done) (fun _ _ => True) (fun a => ⟨(), s.1, [], rfl, Holds.refl _, trivial⟩) ?_
    intro _ t _ _ world _
    show Touched (linkedRef s.1.db ref) s.1.db t.1.db
    rw [world.db]
    exact .refl _ _
  cases ref with
  | none => exact kills
  | attempt run task tries => exact kills
  | subdag child =>
    have same : linkedRef s.1.db (.subdag child) = linked s.1.db child := by
      ext r
      exact ⟨fun ⟨c, own, reached⟩ => by cases own; exact reached, fun reached => ⟨child, rfl, reached⟩⟩
    rw [same]
    exact logged_returns (below child s)

theorem cancelInstances_touches {cancelRun : RunID → Act Unit} (below : Touches inv cancelRun) (fin : Time)
    {tis : List TaskInstance} (touching : Touching db root tis s.1.db) :
    (cancelInstances cancelRun fin tis).Safe (Prog.sequential World.replay inv)
      (fun _ t => Touched (linked db root) db t.1.db) s := by
  apply Prog.Safe.forEach fun rest (t : World × List Answer) => Touching db root rest t.1.db
  · exact touching
  · intro ti rest t touching
    have writes (u : World × List Answer) (unfinished : ti.state.isTerminal = false) (touching : Touching db root (ti :: rest) u.1.db) :
        (logged (updateTaskInstance { ti with state := .cancelled, finishedAt := some fin })).Safe (Prog.sequential World.replay inv)
          (Prog.returns fun _ t => Touching db root rest t.1.db) u := by
      refine logged_returns (alone_write_last (updateTaskInstance_writes _ u.1) (fun after t written world _ => ?_) fun e t _ world _ => ?_)
      · rw [world.db]
        exact touching.write fin unfinished written
      · rw [world.db]
        exact touching.skip
    dsimp only
    split
    · exact touching.skip
    · rename_i unfinished
      replace unfinished : ti.state.isTerminal = false := by simpa using unfinished
      split
      · refine Prog.Safe.andThen _ (cancelAttempt_touches below ti.executorRef t) fun _ u touched =>
          (writes u unfinished ?_).mono returns_onward
        exact touching.child unfinished touched
      · exact (writes t unfinished touching).mono returns_onward
  · exact fun t touching => touching.touched

/-- A cancellation touches only the runs that it is linked to, and of their instances only those that have not ended. -/
theorem cancelRunLocked_touches (depth : Nat) : Touches inv (cancelRunLocked depth) := by
  induction depth with
  | zero => exact fun c s => Touched.refl _ _
  | succ depth ih =>
    intro root s
    have idle {t : World × List Answer} (world : Holds s.1.db s.1 t.1) : Touched (linked s.1.db root) s.1.db t.1.db := by
      rw [world.db]
      exact .refl _ _
    refine alone_read (getDagRun_reads root s.1) (fun x t got world _ => ?_) fun e t _ world _ => idle world
    split
    · exact idle world
    · rename_i other
      have active : x.state.isActive = true := by
        rw [RunState.isActive_iff]
        tauto
      refine alone_perform (o := .now) (fun _ _ => True) (fun a => ⟨a.now, t.1, [], rfl, Holds.refl _, trivial⟩) ?_
      intro fin u _ _ later _
      have world' : Holds s.1.db s.1 u.1 := ⟨later.db.trans world.db, later.cache.trans world.cache⟩
      refine alone_write (updateDagRunState_writes _ _ _ _ u.1) (fun now v written stored _ => ?_) fun e v _ stored _ => ?_
      · rw [world'.db] at written
        have started := Touching.start (getDagRun_ok got) active written
        rw [← stored.db] at started
        refine alone_read (listTaskInstances_reads root v.1) (fun tis v' listed world'' _ => ?_) fun e v' _ world'' _ => ?_
        · cases listed
          replace started : Touching s.1.db root (v.1.db.listTaskInstances root) v'.1.db := by
            rw [world''.db]
            exact started
          exact cancelInstances_touches ih fin started
        · rw [world''.db]
          exact started.touched
      · exact idle ⟨stored.db.trans world'.db, stored.cache.trans world'.cache⟩

/-- The same for the cascade of an operation that holds the lock. -/
theorem cascade_touches : Touches inv cascade := by
  intro c s
  refine alone_perform (o := .census) (fun _ _ => True) (fun a => ⟨_, s.1, [], rfl, Holds.refl _, trivial⟩) ?_
  intro runs t _ _ world _
  rw [← world.db]
  exact cancelRunLocked_touches (runs + 1) c t

end Touch

/-! ### The mark -/

section Mark

variable {env : Env} {run : RunID} {task : TaskID} {target : TaskState} {tasks : List Task} {row : DagRun} {ti : TaskInstance} {d : DAG}

/-- The definition that the run goes by: its snapshot, or the current one if it has none. -/
def definitionOf (env : Env) (w : World) (row : DagRun) : Option DAG :=
  if row.definitionYAML ≠ "" then env.parse row.definitionYAML
  else match w.cached row.dagID with
    | some c => some c.dag
    | none => match w.db.getDAG row.dagID with
      | .ok stored => env.parse stored.definitionYAML
      | .error _ => none

/-- A definition that has been found is this one. -/
def Found (known : Option DAG) : Except Failure (DAG × DagRun) → Prop
  | .ok r => known = some r.1
  | .error _ => True

/-- A legacy run takes its snapshot, which is no matter for the instances. -/
theorem takeSnapshot_alone (row : DagRun) (d : DAG) (s : World × List Answer) :
    Prog.Safe alone (do
      updateDagRunDefinition (snapshotRun env row d).runID (snapshotRun env row d).definitionYAML
        (snapshotRun env row d).definitionHash
      pure (d, snapshotRun env row d))
      (fun r t => Touched ∅ s.1.db t.1.db ∧ Found (some d) r) s := by
  refine alone_write (updateDagRunDefinition_writes _ _ _ s.1) (fun db t written world _ => ?_) fun e t _ world _ => ?_
  · obtain ⟨old, found, runs, instances, _⟩ := DB.updateDagRunDefinition_ok written
    have same (key : InstanceKey) : t.1.db.instance? key = s.1.db.instance? key := by
      rw [world.db, DB.instance?, instances, ← DB.instance?]
    refine ⟨⟨fun key row found => .inl ((same key).trans found), fun key none => (same key).trans none, ?_⟩, rfl⟩
    rintro r ⟨y, stored, active⟩
    rw [world.db, runs] at stored
    split at stored
    · rename_i own
      cases stored
      exact ⟨old, own ▸ found, active⟩
    · exact ⟨y, stored, active⟩
  · rw [world.db]
    exact ⟨.refl _ _, trivial⟩

theorem dagForRun_alone (row : DagRun) (s : World × List Answer) : (dagForRun env row).Safe alone
    (fun r t => Touched ∅ s.1.db t.1.db ∧ Found (definitionOf env s.1 row) r) s := by
  unfold dagForRun
  split
  · rename_i snapshot
    refine Prog.Safe.bind _ (parseDefinition_safe env row.definitionYAML s) ?_ ?_
    · rintro d t ⟨rfl, parsed⟩
      exact ⟨.refl _ _, (if_pos snapshot).trans parsed⟩
    · rintro e t ⟨rfl, _⟩
      exact ⟨.refl _ _, trivial⟩
  · rename_i legacy
    refine alone_perform (o := .cachedDAG row.dagID) (fun _ reply => reply = s.1.cached row.dagID)
      (fun a => ⟨_, _, _, rfl, Holds.refl _, rfl⟩) ?_
    intro cached t _ lookup world _
    replace lookup : s.1.cached row.dagID = cached := Eq.symm lookup
    cases cached with
    | some c =>
      have known : definitionOf env s.1 row = some c.dag := by
        rw [definitionOf, if_neg legacy, lookup]
      rw [known, ← world.db]
      exact takeSnapshot_alone row c.dag t
    | none =>
      refine alone_read (getDAG_reads row.dagID t.1) (fun stored u got world' _ => ?_) fun e u _ world' _ => ?_
      · have known : definitionOf env s.1 row = env.parse stored.definitionYAML := by
          rw [world.db] at got
          rw [definitionOf, if_neg legacy, lookup, got]
        rw [known, ← world.db, ← world'.db]
        refine Prog.Safe.bind _ (parseDefinition_safe env stored.definitionYAML u) ?_ ?_
        · rintro d v ⟨rfl, parsed⟩
          rw [show env.parse stored.definitionYAML = some d from parsed]
          exact takeSnapshot_alone row d v
        · rintro e v ⟨rfl, _⟩
          exact ⟨.refl _ _, trivial⟩
      · rw [world'.db, world.db]
        exact ⟨.refl _ _, trivial⟩

/-- The copies that the mark releases, if their tasks are in the closure. -/
def stuckTasks (byTask : ByTask) (task : TaskID) : ByTask :=
  byTask.filter fun ti => ti.taskID ≠ task ∧ ti.state = .upstreamFailed

/-- A listing has one row for each task, so filtering it filters what is found. -/
theorem get_filter_listTaskInstances (db : DB) (run : RunID) (p : TaskInstance → Bool) (id : TaskID) :
    ByTask.get ((db.listTaskInstances run).filter p) id = (db.instance? ⟨run, id⟩).filter p := by
  have listed (ti : TaskInstance) : ti ∈ (db.listTaskInstances run).filter p ∧ ti.taskID = id ↔
      db.instance? ⟨run, id⟩ = some ti ∧ p ti = true := by
    rw [List.mem_filter, DB.mem_listTaskInstances]
    constructor
    · rintro ⟨⟨⟨found, rfl⟩, holds⟩, rfl⟩
      exact ⟨found, holds⟩
    · rintro ⟨found, holds⟩
      have key := (DB.instance?_some found).2
      exact ⟨⟨⟨key ▸ found, congrArg InstanceKey.run key⟩, holds⟩, congrArg InstanceKey.task key⟩
  cases got : ByTask.get ((db.listTaskInstances run).filter p) id with
  | some ti =>
    obtain ⟨found, holds⟩ := (listed ti).mp (ByTask.get_some got)
    rw [found, Option.filter_some, if_pos holds]
  | none =>
    symm
    rw [Option.filter_eq_none_iff]
    intro ti found holds
    obtain ⟨member, own⟩ := (listed ti).mpr ⟨found, holds⟩
    exact List.find?_eq_none.mp got ti member (beq_iff_eq.mpr own)

/-- The release is the reset of those copies. -/
theorem releaseDownstream_eq (db : DB) (run : RunID) (task : TaskID) (ids : List TaskID) :
    releaseDownstream (db.listTaskInstances run) task ids = Prog.forEach ids fun id =>
      match ByTask.get (stuckTasks (db.listTaskInstances run) task) id with
      | none => pure ()
      | some ti => updateTaskInstance (TaskInstance.reset ti) := by
  unfold releaseDownstream
  congr 1
  funext id
  rw [stuckTasks, get_filter_listTaskInstances, get_listTaskInstances]
  cases found : db.instance? ⟨run, id⟩ with
  | none => rfl
  | some ti =>
    obtain rfl : ti.taskID = id := congrArg InstanceKey.task (DB.instance?_some found).2
    rw [Option.filter_some]
    by_cases stuck : ti.taskID ≠ task ∧ ti.state = .upstreamFailed
    · rw [if_pos (by simpa using stuck)]
      dsimp only
      rw [if_neg (by tauto)]
    · rw [if_neg (by simpa using stuck)]
      dsimp only
      rw [if_pos (by tauto)]

/-- The runs that the mark of an unfinished attempt cancels. -/
def killed (db : DB) (ti : TaskInstance) : Set RunID := {r | ti.state.isTerminal = false ∧ r ∈ linkedRef db ti.executorRef}

/-- The instance belonged to a run that the mark cancels, had not ended, and is cancelled. -/
def Killed (db : DB) (ti : TaskInstance) (key : InstanceKey) (row : TaskInstance) (after : DB) : Prop :=
  key.run ∈ killed db ti ∧ row.state.isTerminal = false ∧
    ∃ fin, after.instance? key = some { row with state := .cancelled, finishedAt := some fin }

/-- The store after a task, with this instance, has been marked as successful or skipped. -/
structure Forced (db : DB) (run : RunID) (tasks : List Task) (task : TaskID) (ti : TaskInstance) (target : TaskState) (after : DB) :
    Prop where
  marked : ∃ fin, after.instance? ⟨run, task⟩ = some { ti with state := target, finishedAt := some fin }
  released : ∀ id row, id ≠ task → Downstream tasks task id → db.instance? ⟨run, id⟩ = some row → row.state = .upstreamFailed →
    after.instance? ⟨run, id⟩ = some (TaskInstance.reset row)
  others : ∀ key row, key ≠ ⟨run, task⟩ → db.instance? key = some row →
    ¬ (key.run = run ∧ Downstream tasks task key.task ∧ row.state = .upstreamFailed) →
    after.instance? key = some row ∨ Killed db ti key row after
  none : ∀ key, db.instance? key = none → after.instance? key = none

/-- The cancellation, the release and the write of the mark, one after the other. -/
theorem Forced.of_clears {mid freed : DB} {ordered : List TaskID} {fin : Time} (found : db.instance? ⟨run, task⟩ = some ti)
    (valid : task ∈ taskIDSet tasks) (permuted : ordered.Perm (intersect (downstreamClosure tasks task) (taskIDSet tasks)))
    (touched : Touched (killed db ti) db mid)
    (clears : Clears run (stuckTasks (db.listTaskInstances run) task) mid ordered [] freed)
    (written : freed.updateTaskInstance { ti with state := target, finishedAt := some fin } = .ok after) :
    Forced db run tasks task ti target after := by
  obtain ⟨⟨old, stored⟩, rfl⟩ := DB.updateTaskInstance_ok written
  have key : TaskInstance.key { ti with state := target, finishedAt := some fin } = ⟨run, task⟩ := (DB.instance?_some found).2
  rw [key] at stored
  have member (id : TaskID) : id ∈ ordered ↔ Downstream tasks task id :=
    permuted.mem_iff.trans (mem_intersect_closure valid)
  have got (id : TaskID) : ByTask.get (stuckTasks (db.listTaskInstances run) task) id =
      (db.instance? ⟨run, id⟩).filter fun ti => ti.taskID ≠ task ∧ ti.state = .upstreamFailed := get_filter_listTaskInstances db run _ id
  have kept (k : InstanceKey) (outside : ∀ id copy, k = ⟨run, id⟩ →
      ByTask.get (stuckTasks (db.listTaskInstances run) task) id = some copy → ¬ Downstream tasks task id) :
      freed.instance? k = mid.instance? k := by
    by_cases own : k.run = run
    · subst own
      cases held : ByTask.get (stuckTasks (db.listTaskInstances k.run) task) k.task with
      | none => exact clears.elsewhere k (.inr held)
      | some copy =>
        rcases clears.rows k.task copy held with ⟨listed, _⟩ | ⟨same, _⟩
        · exact absurd ((member k.task).mp listed) (outside k.task copy rfl held)
        · exact same
    · exact clears.elsewhere k (.inl own)
  have other (k : InstanceKey) (apart : k ≠ ⟨run, task⟩) :
      (freed.writeInstance { ti with state := target, finishedAt := some fin } fun _ => true).instance? k = freed.instance? k := by
    rw [DB.instance?_writeInstance, key, if_neg apart]
  refine ⟨⟨fin, ?_⟩, fun id row apart down before stuck => ?_, fun k row apart before outside => ?_, fun k none => ?_⟩
  · rw [DB.instance?_writeInstance, key, if_pos rfl, stored]
    rfl
  · rw [other _ fun same => apart (congrArg InstanceKey.task same)]
    have own : row.taskID = id := congrArg InstanceKey.task (DB.instance?_some before).2
    have held : ByTask.get (stuckTasks (db.listTaskInstances run) task) id = some row := by
      rw [got, before, Option.filter_some, if_pos (by simp [own, apart, stuck])]
    rcases clears.rows id row held with ⟨_, reset⟩ | ⟨_, todo⟩
    · exact reset
    · exact absurd (todo ((member id).mpr down)) List.not_mem_nil
  · have same := (other k apart).trans <| kept k fun id copy own held down => by
      subst own
      rw [got, before, Option.filter_some] at held
      split at held
      · rename_i stuck
        exact outside ⟨rfl, down, (of_decide_eq_true stuck).2⟩
      · cases held
    rcases touched.row k row before with left | ⟨inside, unfinished, fin, cancelled⟩
    · exact .inl (same.trans left)
    · exact .inr ⟨inside, unfinished, fin, same.trans cancelled⟩
  · have apart : k ≠ ⟨run, task⟩ := by
      rintro rfl
      rw [found] at none
      cases none
    rw [other k apart, kept k fun id copy own held down => ?_]
    · exact touched.none k none
    · subst own
      rw [got, none] at held
      cases held

theorem linkedRef_le (touched : Touched ∅ db now) (ref : ExecutorRef) : linkedRef now ref ⊆ linkedRef db ref := by
  rintro r ⟨c, own, reached⟩
  exact ⟨c, own, Sweep.reach_mono touched.active (fun a _ => touched.subRuns_le a) reached⟩

theorem Forced.of_touched (forced : Forced now run tasks task ti target after) (touched : Touched ∅ db now) :
    Forced db run tasks task ti target after := by
  refine ⟨forced.marked, fun id row apart down found => ?_, fun key row apart found outside => ?_, fun key none => ?_⟩
  · exact forced.released id row apart down ((touched.instances _).trans found)
  · refine (forced.others key row apart ((touched.instances _).trans found) outside).imp_right ?_
    rintro ⟨⟨open_, reached⟩, unfinished, cancelled⟩
    exact ⟨⟨open_, linkedRef_le touched _ reached⟩, unfinished, cancelled⟩
  · exact forced.none key ((touched.instances _).trans none)

/-- Only the instances matter. -/
theorem Forced.congr (forced : Forced db run tasks task ti target now) (same : ∀ key, after.instance? key = now.instance? key) :
    Forced db run tasks task ti target after := by
  obtain ⟨fin, marked⟩ := forced.marked
  refine ⟨⟨fin, (same _).trans marked⟩, fun id row apart down found stuck => ?_, fun key row apart found outside => ?_, fun key none => ?_⟩
  · exact (same _).trans (forced.released id row apart down found stuck)
  · rcases forced.others key row apart found outside with kept | ⟨inside, unfinished, fin, cancelled⟩
    · exact .inl ((same _).trans kept)
    · exact .inr ⟨inside, unfinished, fin, (same _).trans cancelled⟩
  · exact (same _).trans (forced.none key none)

/-- From the release on: the reset tasks, the task itself, and the run if it was over. -/
theorem finishMark (over_ : Bool) (fin : Time) {x : World × List Answer} (found : db.instance? ⟨run, task⟩ = some ti) (valid : task ∈ taskIDSet tasks)
    (touched : Touched (killed db ti) db x.1.db) : Prog.Safe alone (do
      let ids ← perform (.order (intersect (downstreamClosure tasks task) (taskIDSet tasks)))
      releaseDownstream (db.listTaskInstances run) task ids
      updateTaskInstance { ti with state := target, finishedAt := some fin }
      if over_ then updateDagRunState run .running (some fin) none)
      (fun r t => r = .ok () → Forced db run tasks task ti target t.1.db) x := by
  refine alone_perform (fun _ ordered => ordered.Perm (intersect (downstreamClosure tasks task) (taskIDSet tasks)))
    (fun a => ⟨_, _, _, rfl, Holds.refl _, a.order.perm _⟩) ?_
  intro ordered t _ permuted world _
  rw [releaseDownstream_eq]
  rw [← world.db] at touched
  have owned (id : TaskID) (copy : TaskInstance) (held : ByTask.get (stuckTasks (db.listTaskInstances run) task) id = some copy) :
      copy.runID = run ∧ (t.1.db.instance? ⟨run, id⟩).isSome := by
    rw [stuckTasks, get_filter_listTaskInstances] at held
    obtain ⟨before, _⟩ := Option.filter_eq_some_iff.mp held
    refine ⟨congrArg InstanceKey.run (DB.instance?_some before).2, ?_⟩
    rcases touched.row _ copy before with kept | ⟨_, _, _, cancelled⟩
    · simp [kept]
    · simp [cancelled]
  refine Prog.Safe.bind _ (clearTasks_alone owned trivial ordered) ?_ fun e u _ => nofun
  rintro _ u ⟨_, clears⟩
  refine alone_write (updateTaskInstance_writes _ u.1) (fun freed v written world' _ => ?_) fun e v _ _ _ => nofun
  have forced : Forced db run tasks task ti target v.1.db := by
    rw [world'.db]
    exact .of_clears found valid permuted touched clears written
  split
  · refine alone_write_last (updateDagRunState_writes run .running (some fin) none v.1) (fun after w written world'' _ _ => ?_) fun e w _ _ _ => nofun
    obtain ⟨_, _, _, _, instances, _⟩ := DB.updateDagRunState_ok written
    exact forced.congr fun key => by rw [world''.db, DB.instance?, instances, ← DB.instance?]
  · exact fun _ => forced

theorem definitionOf_holds {w v : World} (world : Holds w.db w v) : definitionOf env v row = definitionOf env w row := by
  unfold definitionOf World.cached
  rw [world.db, world.cache]

/-- A marked run and what has become of it. -/
def Marks (env : Env) (w : World) (run : RunID) (task : TaskID) (target : TaskState) (after : DB) : Prop :=
  ∃ row d ti, w.db.run? run = some row ∧ definitionOf env w row = some d ∧ task ∈ taskIDSet d.tasks ∧
    w.db.instance? ⟨run, task⟩ = some ti ∧ Forced w.db run d.tasks task ti target after

theorem markTaskLocked_marks (releases : target = .success ∨ target = .skipped) (s : World × List Answer) :
    (markTaskLocked env run task target).Safe alone (fun r t => r = .ok () → Marks env s.1 run task target t.1.db) s := by
  unfold markTaskLocked
  refine alone_read (getDagRun_reads run s.1) (fun row t got world _ => ?_) fun e t _ _ _ => nofun
  have found := getDagRun_ok got
  have defined := @dagForRun_alone env row t
  refine Prog.Safe.bind _ defined ?_ fun e u _ => nofun
  rintro ⟨d, row'⟩ u ⟨taken, known⟩
  replace known : definitionOf env t.1 row = some d := known
  rw [definitionOf_holds world] at known
  rw [world.db] at taken
  refine alone_read (listTaskInstances_reads run u.1) (fun byTask v listed world' _ => ?_) fun e v _ _ _ => nofun
  cases listed
  have same (id : TaskID) : ByTask.get (u.1.db.listTaskInstances run) id = s.1.db.instance? ⟨run, id⟩ := by
    rw [get_listTaskInstances]
    exact taken.instances _
  split
  · exact nofun
  · rename_i ti held
    rw [same] at held
    dsimp only
    split
    · exact nofun
    · rename_i valid
      replace valid := not_not.mp valid
      refine alone_perform (o := .now) (fun _ _ => True) (fun a => ⟨a.now, v.1, [], rfl, Holds.refl _, trivial⟩) ?_
      intro fin v' _ _ world'' _
      have marks (x : World × List Answer) (touched : Touched (killed u.1.db ti) u.1.db x.1.db) :=
        (finishMark row.state.isTerminal fin ((taken.instances _).trans held) valid touched).mono
          fun r y forced ok => (⟨row, d, ti, found, known, valid, held, (forced ok).of_touched taken⟩ : Marks env s.1 run task target y.1.db)
      have same' : v'.1.db = u.1.db := world''.db.trans world'.db
      split
      · rename_i unfinished
        refine Prog.Safe.andThen _ (cancelAttempt_touches cascade_touches ti.executorRef v') fun _ x touched => marks x ?_
        rw [same'] at touched
        exact (Touched.refl _ _).trans touched fun r reached => ⟨by simpa using unfinished.1, reached⟩
      · refine marks v' ?_
        rw [same']
        exact .refl _ _

theorem markTask_marks (releases : target = .success ∨ target = .skipped) (s : World × List Answer) :
    (markTask env run task target).Safe alone (fun r t => r = .ok () → Marks env s.1 run task target t.1.db) s := by
  have markable : (!markableTask target) = false := by
    rcases releases with rfl | rfl <;> rfl
  unfold markTask
  rw [markable]
  refine alone_locked (fun r w => r = .ok () → Marks env s.1 run task target w.db) fun t world _ => ?_
  refine (markTaskLocked_marks releases t).mono fun r u marks v same ok => ?_
  obtain ⟨row, d, ti, found, known, valid, held, forced⟩ := marks ok
  rw [definitionOf_holds world] at known
  rw [world.db] at found held forced
  rw [← same.db] at forced
  exact ⟨row, d, ti, found, known, valid, held, forced⟩

end Mark

/-! ### The propagation behind it -/

section Settle

variable {tasks : List Task} {states after' : TaskID → Option TaskState} {run : RunID} {byTask : ByTask}

/-- The gate of the task is blocked in these states. -/
def GateBlocked (tasks : List Task) (states : TaskID → Option TaskState) (id : TaskID) : Prop :=
  ∃ t ∈ tasks, t.id = id ∧ (gateIn t states).blocked = true

theorem GateBlocked.step {id : TaskID} (blocked : GateBlocked tasks states id) (step : BlockStep tasks states after') :
    GateBlocked tasks after' id := by
  obtain ⟨t, member, own, shut⟩ := blocked
  cases step with
  | block _ scheduled _ => exact ⟨t, member, own, gateIn_update scheduled shut⟩

/-- Whatever the propagation has taken to `upstream_failed` has a gate that is blocked at the end. -/
theorem blocked_of_steps (steps : ReflTransGen (BlockStep tasks) states after') (id : TaskID)
    (failed : after' id = some .upstreamFailed) : states id = some .upstreamFailed ∨ GateBlocked tasks after' id := by
  induction steps with
  | refl => exact .inl failed
  | @tail mid last _ step ih =>
    cases step with
    | @block t member scheduled shut =>
      by_cases own : id = t.id
      · subst own
        exact .inr ⟨t, member, rfl, gateIn_update scheduled shut⟩
      · rw [Function.update_of_ne own] at failed
        exact (ih failed).imp_right fun blocked => blocked.step (.block member scheduled shut)

/-- The propagation of `processRun` over the definition of the run, behind the expansion. -/
def propagateRun (d : DAG) (run : DagRun) : Act ByTask := do
  let tis ← listTaskInstances run.runID
  if tis.length < d.tasks.length then
    expandRun run d tis
    let tis ← listTaskInstances run.runID
    propagateBlocks d.tasks (d.tasks.length + 1) tis
  else propagateBlocks d.tasks (d.tasks.length + 1) tis

/-- It is what `processRun` does to the instances before anything else. -/
theorem expandedRun_propagates (env : Env) (run : DagRun) :
    (expandedRun env run >>= fun (d, _, tis) => propagateBlocks d.tasks (d.tasks.length + 1) tis) =
      dagForRun env run >>= fun (d, run) => propagateRun d run := by
  unfold expandedRun propagateRun
  simp only [Prog.bind_eq, Prog.bind_assoc]
  congr 1
  funext r
  congr 1
  funext tis
  split
  · simp only [Prog.bind_assoc]
    rfl
  · rfl

/-- Only instances that were missing have been created, and they wait. -/
structure Supplied (before after : DB) : Prop where
  kept : ∀ key row, before.instance? key = some row → after.instance? key = some row
  fresh : ∀ key row, before.instance? key = none → after.instance? key = some row → row.state = .scheduled

theorem Supplied.create {row : DagRun} {t : Task} (supplied : Supplied db now)
    (created : now.createTaskInstance (newInstance row.runID t row.definitionHash) = .ok after) : Supplied db after := by
  obtain ⟨free, rows, _⟩ := DB.createTaskInstance_ok created
  refine ⟨fun key old before => ?_, fun key new none stored => ?_⟩
  · rw [rows, if_neg]
    · exact supplied.kept key old before
    · rintro rfl
      cases free.symm.trans (supplied.kept _ old before)
  · rw [rows] at stored
    split at stored
    · cases stored
      rfl
    · exact supplied.fresh key new none stored

theorem expandRun_alone (row : DagRun) (d : DAG) (tis : List TaskInstance) (s : World × List Answer) :
    (expandRun row d tis).Safe alone (fun _ t => Supplied s.1.db t.1.db) s := by
  apply Prog.Safe.forEach fun _ (t : World × List Answer) => Supplied s.1.db t.1.db
  · exact ⟨fun _ _ found => found, fun _ _ none found => by cases none.symm.trans found⟩
  · intro t rest u supplied
    split
    · exact supplied
    · refine Prog.Safe.andThen (fun _ v => Supplied s.1.db v.1.db) (Prog.Safe.attempt ?_) fun r v supplied => ?_
      · refine alone_write_last (createTaskInstance_writes _ u.1) (fun db v written world _ => ?_) fun e v _ world _ => ?_
        · show Supplied s.1.db v.1.db
          rw [world.db]
          exact supplied.create written
        · show Supplied s.1.db v.1.db
          rw [world.db]
          exact supplied
      · split
        · exact supplied
        · exact supplied
        · exact supplied
  · exact fun t supplied => supplied

/-- The copies of the run are its rows, and the other rows are as before. -/
structure Stores (run : RunID) (byTask : ByTask) (before after : DB) : Prop where
  rows : ∀ id, after.instance? ⟨run, id⟩ = byTask.get id
  elsewhere : ∀ key, key.run ≠ run → after.instance? key = before.instance? key

theorem Stores.listing (db : DB) (run : RunID) : Stores run (db.listTaskInstances run) db db :=
  ⟨fun id => (get_listTaskInstances db run id).symm, fun _ _ => rfl⟩

theorem Stores.write {ti : TaskInstance} {id : TaskID} {fin : Time} (stores : Stores run byTask db now) (found : byTask.get id = some ti)
    (written : now.updateTaskInstance { ti with state := .upstreamFailed, finishedAt := some fin } = .ok after) :
    Stores run (byTask.set { ti with state := .upstreamFailed, finishedAt := some fin }) db after := by
  obtain ⟨_, rfl⟩ := DB.updateTaskInstance_ok written
  obtain rfl : ti.taskID = id := (ByTask.get_some found).2
  have key : TaskInstance.key { ti with state := .upstreamFailed, finishedAt := some fin } = ⟨run, ti.taskID⟩ :=
    (DB.instance?_some ((stores.rows _).trans found)).2
  refine ⟨fun other => ?_, fun k apart => ?_⟩
  · rw [DB.instance?_writeInstance, key, ByTask.get_set, stores.rows]
    by_cases same : other = ti.taskID
    · subst same
      rw [if_pos rfl, if_pos rfl]
      rfl
    · rw [if_neg same, if_neg fun keys => same (congrArg InstanceKey.task keys)]
  · rw [DB.instance?_writeInstance, key, if_neg fun same => apart (congrArg InstanceKey.run same)]
    exact stores.elsewhere k apart

theorem blockTask_stores (acc : ByTask × Bool) (t : Task) (stores : Stores run acc.1 db s.1.db) :
    (blockTask acc t).Safe alone (fun r u => ∀ acc', r = .ok acc' → Stores run acc'.1 db u.1.db) s := by
  unfold blockTask
  split
  · rintro acc' ⟨⟩
    exact stores
  · rename_i ti found
    split
    · rintro acc' ⟨⟩
      exact stores
    · split
      · refine alone_perform (o := .now) (fun _ _ => True) (fun a => ⟨a.now, s.1, [], rfl, Holds.refl _, trivial⟩) ?_
        intro fin u _ _ world _
        refine alone_write (updateTaskInstance_writes _ u.1) (fun after v written world' _ => ?_) fun e v _ _ _ => nofun
        rintro acc' ⟨⟩
        rw [world.db] at written
        show Stores run _ db v.1.db
        rw [world'.db]
        exact stores.write found written
      · rintro acc' ⟨⟩
        exact stores

theorem propagateBlocks_stores (rounds : Nat) (stores : Stores run byTask db s.1.db) :
    (propagateBlocks tasks rounds byTask).Safe alone (fun r u => ∀ after, r = .ok after → Stores run after db u.1.db) s := by
  induction rounds generalizing byTask s with
  | zero =>
    rintro after ⟨⟩
    exact stores
  | succ rounds ih =>
    refine Prog.Safe.bind (fun r u => ∀ acc : ByTask × Bool, r = .ok acc → Stores run acc.1 db u.1.db) ?_ ?_ fun e u _ => nofun
    · refine Prog.Safe.fold (fun _ (acc : ByTask × Bool) u => Stores run acc.1 db u.1.db) stores ?_ ?_
      · intro t rest acc u stores
        refine (blockTask_stores acc t stores).mono fun r v after => ?_
        cases r with
        | ok acc' => exact after acc' rfl
        | error e => exact nofun
      · rintro acc u stores acc' ⟨⟩
        exact stores
    · rintro ⟨after, changed⟩ u stores
      dsimp only
      split
      · exact ih (stores _ rfl)
      · rintro after' ⟨⟩
        exact stores _ rfl

/-- What the propagation makes of the listing that it starts from. -/
structure Propagates (run : RunID) (tasks : List Task) (start : DB) (after : DB) : Prop where
  moved : ∀ id, after.instance? ⟨run, id⟩ = start.instance? ⟨run, id⟩ ∨ ∃ ti fin, start.instance? ⟨run, id⟩ = some ti ∧
    ti.state = .scheduled ∧ after.instance? ⟨run, id⟩ = some { ti with state := .upstreamFailed, finishedAt := some fin }
  elsewhere : ∀ key, key.run ≠ run → after.instance? key = start.instance? key
  steps : ReflTransGen (BlockStep tasks) (taskStates start run) (taskStates after run)
  settled : ∀ id, taskStates after run id = some .scheduled → ¬ GateBlocked tasks (taskStates after run) id

theorem propagateBlocks_alone (run : RunID) (tasks : List Task) (s : World × List Answer) :
    (propagateBlocks tasks (tasks.length + 1) (s.1.db.listTaskInstances run)).Safe alone
      (fun r u => ∀ after, r = .ok after → Propagates run tasks s.1.db u.1.db) s := by
  have free : ∀ o (t : World × List Answer), alone.may o t := fun _ _ => trivial
  have settles := (propagateBlocks_settles (Nat.lt_succ_of_le (waitingCount_le tasks (s.1.db.listTaskInstances run)))).anywhere free s
  have steps := (propagateBlocks_keeps (fun now => ReflTransGen (BlockStep tasks) (ByTask.states (s.1.db.listTaskInstances run)) now.states)
    (fun t member acc after kept blocks => kept.trans (blocks.steps member)) (tasks.length + 1) .refl).anywhere free s
  have moves := (@propagateBlocks_keeps tasks (Propagated (s.1.db.listTaskInstances run))
    (fun _ _ _ _ kept blocks => kept.blocks blocks) (tasks.length + 1) _ (fun _ => .inl rfl)).anywhere free s
  have stores := @propagateBlocks_stores _ s tasks run _ (tasks.length + 1) (Stores.listing s.1.db run)
  refine ((settles.and steps).and (moves.and stores)).mono ?_
  rintro r u ⟨⟨settles, steps⟩, moves, stores⟩ after rfl
  replace stores := stores after rfl
  have ended : taskStates u.1.db run = after.states := by
    funext id
    rw [taskStates, stores.rows]
    rfl
  refine ⟨fun id => ?_, stores.elsewhere, ?_, fun id waits => ?_⟩
  · have moved := moves after rfl id
    rwa [get_listTaskInstances, ← stores.rows] at moved
  · rw [ended, ← states_listTaskInstances]
    exact steps after rfl
  · rintro ⟨t, member, rfl, shut⟩
    rw [ended] at waits shut
    exact settled_iff_normal.mp (settles after rfl) _ (.block member waits shut)

/-- The whole of it: what was missing is supplied, and the propagation starts from there. -/
theorem propagateRun_alone (d : DAG) (row : DagRun) (s : World × List Answer) : (propagateRun d row).Safe alone
    (fun r u => ∀ after, r = .ok after → ∃ start, Supplied s.1.db start ∧ Propagates row.runID d.tasks start u.1.db) s := by
  have whole {t : World × List Answer} (supplied : Supplied s.1.db t.1.db) :
      (propagateBlocks d.tasks (d.tasks.length + 1) (t.1.db.listTaskInstances row.runID)).Safe alone
        (fun r u => ∀ after, r = .ok after → ∃ start, Supplied s.1.db start ∧ Propagates row.runID d.tasks start u.1.db) t :=
    (propagateBlocks_alone row.runID d.tasks t).mono fun r u ends after ok => ⟨_, supplied, ends after ok⟩
  refine alone_read (listTaskInstances_reads row.runID s.1) (fun tis t listed world _ => ?_) fun e t _ _ _ => nofun
  cases listed
  split
  · refine Prog.Safe.bind _ (expandRun_alone row d _ t) (fun _ u supplied => ?_) fun e u _ => nofun
    rw [world.db] at supplied
    refine alone_read (listTaskInstances_reads row.runID u.1) (fun tis v listed world' _ => ?_) fun e v _ _ _ => nofun
    cases listed
    rw [← world'.db] at supplied ⊢
    exact whole supplied
  · have supplied : Supplied s.1.db t.1.db := by
      rw [world.db]
      exact ⟨fun _ _ found => found, fun _ _ none found => by cases none.symm.trans found⟩
    have started := whole supplied
    rw [world.db] at started
    exact started

end Settle

/-! ### The release -/

section Release

variable {run : RunID} {tasks : List Task} {task : TaskID} {ti : TaskInstance} {target : TaskState} {start : DB}

/-- The states that a mark and the propagation behind it leave alone. -/
def settledStates : List TaskState := [.success, .failed, .skipped, .cancelled, .timedOut]

/-- What has become of the instances when the propagation behind a mark has ended. In the closure, the tasks
with `upstream_failed` are those whose gates are blocked; outside, only the propagation has changed the run. -/
structure Released (db : DB) (run : RunID) (tasks : List Task) (task : TaskID) (ti : TaskInstance) (target : TaskState) (after : DB) :
    Prop where
  marked : ∃ fin, after.instance? ⟨run, task⟩ = some { ti with state := target, finishedAt := some fin }
  blocked : ∀ id, Downstream tasks task id → taskStates after run id = some .upstreamFailed →
    GateBlocked tasks (taskStates after run) id
  released : ∀ id row, id ≠ task → Downstream tasks task id → db.instance? ⟨run, id⟩ = some row → row.state = .upstreamFailed →
    ¬ GateBlocked tasks (taskStates after run) id → after.instance? ⟨run, id⟩ = some (TaskInstance.reset row)
  stuck : ∀ id row, id ≠ task → Downstream tasks task id → db.instance? ⟨run, id⟩ = some row → row.state = .upstreamFailed →
    GateBlocked tasks (taskStates after run) id → taskStates after run id = some .upstreamFailed
  outside : ∀ key row, ¬ (key.run = run ∧ Downstream tasks task key.task) → db.instance? key = some row →
    after.instance? key = some row ∨
    (key.run = run ∧ row.state = .scheduled ∧ GateBlocked tasks (taskStates after run) key.task ∧
      ∃ fin, after.instance? key = some { row with state := .upstreamFailed, finishedAt := some fin }) ∨
    Killed db ti key row after
  kept : ∀ key row, key ≠ ⟨run, task⟩ → db.instance? key = some row → row.state ∈ settledStates → after.instance? key = some row

/-- An instance that does not wait is past the expansion and the propagation. -/
theorem Propagates.stays (propagates : Propagates run tasks start after) (supplied : Supplied now start) {key : InstanceKey}
    {row : TaskInstance} (found : now.instance? key = some row) (other : row.state ≠ .scheduled) : after.instance? key = some row := by
  have stored := supplied.kept key row found
  by_cases own : key.run = run
  · subst own
    rcases propagates.moved key.task with same | ⟨ti, fin, waiting, scheduled, _⟩
    · exact same.trans stored
    · cases stored.symm.trans waiting
      exact absurd scheduled other
  · rw [propagates.elsewhere key own]
    exact stored

/-- One that waits still does, or its gate is blocked and it has failed with its upstreams. -/
theorem Propagates.waits (propagates : Propagates run tasks start after) (supplied : Supplied now start) {id : TaskID}
    {row : TaskInstance} (found : now.instance? ⟨run, id⟩ = some row) (scheduled : row.state = .scheduled) :
    (after.instance? ⟨run, id⟩ = some row ∧ ¬ GateBlocked tasks (taskStates after run) id) ∨
    (GateBlocked tasks (taskStates after run) id ∧
      ∃ fin, after.instance? ⟨run, id⟩ = some { row with state := .upstreamFailed, finishedAt := some fin }) := by
  have stored := supplied.kept _ row found
  rcases propagates.moved id with same | ⟨ti, fin, waiting, _, failed⟩
  · left
    rw [stored] at same
    exact ⟨same, propagates.settled id (by rw [taskStates, same, Option.map_some, scheduled])⟩
  · right
    cases stored.symm.trans waiting
    refine ⟨?_, fin, failed⟩
    have ended : taskStates after run id = some .upstreamFailed := by rw [taskStates, failed]; rfl
    rcases blocked_of_steps propagates.steps id ended with before | shut
    · rw [taskStates, stored, Option.map_some, scheduled] at before
      cases before
    · exact shut

/-- Behind the mark, no task of the closure is left with `upstream_failed`. -/
theorem Forced.freed (releases : target = .success ∨ target = .skipped) (forced : Forced db run tasks task ti target now) {id : TaskID}
    {row : TaskInstance} (down : Downstream tasks task id) (stored : now.instance? ⟨run, id⟩ = some row) :
    row.state ≠ .upstreamFailed := by
  intro failed
  by_cases own : id = task
  · subst own
    obtain ⟨fin, marked⟩ := forced.marked
    cases stored.symm.trans marked
    rcases releases with rfl | rfl <;> cases failed
  · cases before : db.instance? ⟨run, id⟩ with
    | none =>
      rw [forced.none _ before] at stored
      cases stored
    | some old =>
      by_cases stuck : old.state = .upstreamFailed
      · cases stored.symm.trans (forced.released id old own down before stuck)
        cases failed
      · have apart : (⟨run, id⟩ : InstanceKey) ≠ ⟨run, task⟩ := fun same => own (congrArg InstanceKey.task same)
        rcases forced.others _ old apart before fun all => stuck all.2.2 with kept | ⟨_, _, fin, cancelled⟩
        · cases stored.symm.trans kept
          exact stuck failed
        · cases stored.symm.trans cancelled
          cases failed

theorem Released.of_propagates (releases : target = .success ∨ target = .skipped)
    (forced : Forced db run tasks task ti target now) (supplied : Supplied now start)
    (propagates : Propagates run tasks start after) : Released db run tasks task ti target after := by
  have reset (row : TaskInstance) : (TaskInstance.reset row).state = .scheduled := rfl
  refine ⟨?_, fun id down ended => ?_, fun id row apart down found stuck open_ => ?_, fun id row apart down found stuck shut => ?_,
    fun key row outside found => ?_, fun key row apart found settled => ?_⟩
  · obtain ⟨fin, marked⟩ := forced.marked
    exact ⟨fin, propagates.stays supplied marked (by rcases releases with rfl | rfl <;> rintro ⟨⟩)⟩
  · refine (blocked_of_steps propagates.steps id ended).resolve_left fun before => ?_
    obtain ⟨row, stored, failed⟩ := Option.map_eq_some_iff.mp before
    cases known : now.instance? ⟨run, id⟩ with
    | none =>
      have waits := supplied.fresh _ row known stored
      rw [failed] at waits
      cases waits
    | some old =>
      cases stored.symm.trans (supplied.kept _ old known)
      exact forced.freed releases down known failed
  · rcases propagates.waits supplied (forced.released id row apart down found stuck) (reset row) with ⟨kept, _⟩ | ⟨shut, _⟩
    · exact kept
    · exact absurd shut open_
  · rcases propagates.waits supplied (forced.released id row apart down found stuck) (reset row) with ⟨_, open_⟩ | ⟨_, fin, failed⟩
    · exact absurd shut open_
    · rw [taskStates, failed]
      rfl
  · have apart : key ≠ ⟨run, task⟩ := by
      rintro rfl
      exact outside ⟨rfl, .refl⟩
    rcases forced.others key row apart found fun all => outside ⟨all.1, all.2.1⟩ with kept | ⟨inside, unfinished, fin, cancelled⟩
    · by_cases scheduled : row.state = .scheduled
      · by_cases own : key.run = run
        · subst own
          rcases propagates.waits supplied kept scheduled with ⟨same, _⟩ | ⟨shut, failed⟩
          · exact .inl same
          · exact .inr (.inl ⟨rfl, scheduled, shut, failed⟩)
        · exact .inl ((propagates.elsewhere key own).trans (supplied.kept key row kept))
      · exact .inl (propagates.stays supplied kept scheduled)
    · exact .inr (.inr ⟨inside, unfinished, fin, propagates.stays supplied cancelled (by rintro ⟨⟩)⟩)
  · have other : row.state ≠ .upstreamFailed ∧ row.state ≠ .scheduled ∧ row.state.isTerminal = true := by
      cases state : row.state <;> simp [state, settledStates, TaskState.isTerminal] at settled ⊢
    rcases forced.others key row apart found fun all => other.1 all.2.2 with kept | ⟨_, unfinished, _⟩
    · exact propagates.stays supplied kept other.2.1
    · rw [other.2.2] at unfinished
      cases unfinished

/-- Marking a task as successful or skipped releases what it unblocks: once the propagation behind it has ended,
the tasks of the closure with `upstream_failed` are those whose gates are blocked. Nothing else of the run
changes, except by the propagation and by the cancellation of the sub-workflow that the task was running. -/
theorem marking_releases (env : Env) (run : RunID) (task : TaskID) (target : TaskState) (w : World) (answers : List Answer)
    (releases : target = .success ∨ target = .skipped)
    (done : ((markTask env run task target).run World.replay (w, answers)).1 = .ok ()) :
    ∃ row d ti, w.db.run? run = some row ∧ definitionOf env w row = some d ∧ task ∈ taskIDSet d.tasks ∧
      w.db.instance? ⟨run, task⟩ = some ti ∧
      ∀ (row' : DagRun) (answers' : List Answer) (byTask : ByTask) (u : World × List Answer), row'.runID = run →
        (propagateRun d row').run World.replay (((markTask env run task target).run World.replay (w, answers)).2.1, answers') =
          (.ok byTask, u) →
        Released w.db run d.tasks task ti target u.1.db := by
  have marks := (@markTask_marks env run task target releases (w, answers)).runs_on (fun _ _ _ => trivial) trivial
  obtain ⟨row, d, ti, found, known, valid, held, forced⟩ := marks done
  refine ⟨row, d, ti, found, known, valid, held, ?_⟩
  rintro row' answers' byTask u rfl ran
  have ends := (propagateRun_alone d row' (((markTask env row'.runID task target).run World.replay (w, answers)).2.1, answers')).runs_on
    (fun _ _ _ => trivial) trivial
  rw [ran] at ends
  obtain ⟨start, supplied, propagates⟩ := ends byTask rfl
  exact .of_propagates releases forced supplied propagates

/-- Two extractions, a load behind the first and a report behind the load and the second. -/
def diamond : DAG where
  dagID := "a"
  definitionYAML := "diamond"
  tasks := [{ id := "extract" }, { id := "import" }, { id := "load", deps := ["extract"] }, { id := "report", deps := ["load", "import"] }]

def diamondEnv : Env := { loadEnv with parse := fun _ => some diamond }

/-- A run of it in which both extractions have failed. -/
def diamondWorld : World where
  db := { DB.empty with
    runs := ⟨[{ callingRun "a" .failed with definitionYAML := "diamond" }], List.pairwise_singleton _ _⟩
    taskInstances := ⟨[{ runID := .manual "a" 0, taskID := "extract", state := .failed },
      { runID := .manual "a" 0, taskID := "import", state := .failed },
      { runID := .manual "a" 0, taskID := "load", state := .upstreamFailed },
      { runID := .manual "a" 0, taskID := "report", state := .upstreamFailed }], by decide⟩ }

/-- What the mark of the first extraction and the propagation behind it leave. -/
def diamondAfter : Except Failure ByTask × World × List Answer :=
  (propagateRun diamond (callingRun "a" .running)).run World.replay
    (((markTask diamondEnv (.manual "a" 0) "extract" .success).run World.replay (diamondWorld, [])).2.1, [])

/-- The load is released, and the report is blocked by the other extraction. -/
theorem diamond_is_released : (∃ ti, Released diamondWorld.db (.manual "a" 0) diamond.tasks "extract" ti .success diamondAfter.2.1.db) ∧
    taskStates diamondAfter.2.1.db (.manual "a" 0) "load" = some .scheduled ∧
    taskStates diamondAfter.2.1.db (.manual "a" 0) "report" = some .upstreamFailed := by
  refine ⟨?_, by decide +kernel, by decide +kernel⟩
  obtain ⟨row, d, ti, found, known, _, _, onward⟩ :=
    marking_releases diamondEnv (.manual "a" 0) "extract" .success diamondWorld [] (.inl rfl) (by decide +kernel)
  obtain rfl : { callingRun "a" .failed with definitionYAML := "diamond" } = row := Option.some.inj found
  obtain rfl : diamond = d := Option.some.inj known
  have ok : ∃ byTask, diamondAfter.1 = .ok byTask := ⟨_, rfl⟩
  obtain ⟨byTask, ok⟩ := ok
  exact ⟨ti, onward (callingRun "a" .running) [] byTask diamondAfter.2 rfl (Prod.ext ok rfl)⟩

/-- A run whose first extraction is running as a sub-workflow; the reference is that of the sub-workflow's own task. -/
def callWorld (back : ExecutorRef) : World where
  db := { DB.empty with
    runs := ⟨[{ callingRun "a" .running with definitionYAML := "diamond" }, callingRun "b" .running], by decide⟩
    taskInstances := ⟨[{ runID := .manual "a" 0, taskID := "extract", state := .running, executorRef := .subdag (.manual "b" 0) },
      { runID := .manual "a" 0, taskID := "import", state := .running },
      { runID := .manual "b" 0, taskID := "call", state := .running, executorRef := back }],
      by simp [TaskInstance.key, InstanceKey.apart]⟩ }

def callAfter (back : ExecutorRef) : DB :=
  ((propagateRun diamond (callingRun "a" .running)).run World.replay
    (((markTask diamondEnv (.manual "a" 0) "extract" .success).run World.replay (callWorld back, [])).2.1, [])).2.1.db

/-- Marking a task that runs as a sub-workflow cancels the tasks of that; and if it should lead back to the run,
even tasks of the run outside the closure. -/
theorem mark_cancels_outside :
    (taskStates (callWorld .none).db (.manual "b" 0) "call" = some .running ∧
      taskStates (callAfter .none) (.manual "b" 0) "call" = some .cancelled) ∧
    ¬ Downstream diamond.tasks "extract" "import" ∧
    taskStates (callWorld (.subdag (.manual "a" 0))).db (.manual "a" 0) "import" = some .running ∧
    taskStates (callAfter (.subdag (.manual "a" 0))) (.manual "a" 0) "import" = some .cancelled :=
  ⟨⟨rfl, by decide +kernel⟩, mem_downstreamClosure.not.mp (by decide), rfl, by decide +kernel⟩

end Release

end Cronova.Scheduler
