import Cronova.Scheduler.Frame
import Cronova.Scheduler.System

/-! What a goroutine knows of its own past.

Results about whole runs are invariants over the database and over what every goroutine
holds in memory. A `View` is computed from the statements that a goroutine has issued and
from their replies; it holds the section of `finalizeMu` that the goroutine is in and the
copies that it has read or written there.
-/

set_option autoImplicit false

namespace Cronova.Scheduler

open Model Store Process

structure View where
  origin : Request
  /-- The section of `finalizeMu` that the goroutine is in. -/
  inside : Option Section := none
  /-- The copies of task instances that were read or written in this section. -/
  hand : List TaskInstance := []
  /-- The runs that were read by their id in this section, with what it has written of them since. -/
  runs : RunID → Option DagRun := fun _ => none
  /-- The runs whose definition was written in this section. -/
  adopted : List RunID := []
  /-- The replies of the cache so far. -/
  entries : List (DagID × Option CachedDAG) := []
  /-- The runs of the listings of a tick. -/
  listed : List DagRun := []
  /-- A tick has listed the running runs and may still promote queued ones. -/
  promoting : Bool := false
  /-- The DAGs of the listed running runs and of the runs promoted since. -/
  seen : List DagID := []
  launch : Option Launch := none
  /-- The last probe, with its answer. -/
  probed : Option (ExecutorRef × Option Status) := none
  /-- The tasks for which a poll was started. -/
  attached : List InstanceKey := []
  /-- The attempt was given back. -/
  spent : Bool := false
  /-- The tasks whose attempt `Recover` has given back. -/
  returned : List InstanceKey := []
  /-- The running instances that `Recover` has listed. -/
  resumed : List TaskInstance := []
  /-- The DAG that was looked up last and not found archived, until it is published. -/
  checked : Option DagID := none
  /-- The DAG whose row was written last. -/
  upserted : Option DagID := none
  last : Option (Issued statements) := none

namespace View

variable (v : View)

def rows {A : Type} : Except StoreError (List A) → List A
  | .ok rows => rows
  | .error _ => []

/-- The queued copy that the tick is starting to process, if it writes this run. -/
def promotion (id : RunID) : Option DagRun :=
  match v.inside with
  | some (.process run) => if run.runID = id ∧ run.state = .queued ∧ (v.runs id).isNone then some run else none
  | _ => none

/-- The copies after an unguarded write. A dispatch leaves no older copy of the task. -/
def rewritten (ti : TaskInstance) : Except StoreError Unit → List TaskInstance
  | .ok _ => ti :: if ti.state = .queued then v.hand.filter (·.key ≠ ti.key) else v.hand
  | .error _ => v.hand

/-- The copies of the runs after a write of one of them. -/
def rerun (id : RunID) (f : DagRun → DagRun) : Except StoreError Unit → RunID → Option DagRun
  | .ok _ => Function.update v.runs id ((v.runs id).map f)
  | .error _ => v.runs

def learns : (o : Op) → o.Reply → View
  | .lock what, _ =>
    { v with
      inside := some what
      hand := []
      runs := fun _ => none
      adopted := []
      promoting := match what with
        | .admission => false
        | _ => v.promoting }
  | .unlock, _ => { v with inside := none, hand := [], runs := fun _ => none, adopted := [] }
  | .cachedDAG dag, entry => { v with entries := (dag, entry) :: v.entries }
  | .getDagRun id, reply =>
    { v with
      runs := match reply with
        | .ok run => Function.update v.runs id (some run)
        | .error _ => v.runs }
  | .listDagRunsByState _, reply =>
    { v with promoting := true, seen := (rows reply).map (·.dagID), listed := rows reply ++ v.listed }
  | .listDagRunsByStateLimited _ _, reply => { v with promoting := false, listed := rows reply ++ v.listed }
  | .listPendingEvents _ _, _ => { v with promoting := false }
  | .updateDagRunState id state started finished, reply =>
    { v with
      runs := v.rerun id (DB.setRunState state started finished) reply
      seen := match state, reply with
        | .running, .ok _ => (v.promotion id).elim v.seen fun run => run.dagID :: v.seen
        | _, _ => v.seen }
  | .updateDagRunSuccess id started finished, reply =>
    { v with runs := v.rerun id (DB.setRunState .success started finished) reply }
  | .updateDagRunDefinition id yaml hash, reply =>
    { v with
      runs := v.rerun id (DB.setDefinition yaml hash) reply
      adopted := match reply with
        | .ok _ => id :: v.adopted
        | .error _ => v.adopted }
  | .listTaskInstances _, reply => { v with hand := rows reply ++ v.hand }
  | .listTaskInstancesByState state, reply =>
    { v with
      hand := rows reply ++ v.hand
      resumed := if state = .running then rows reply else v.resumed }
  | .getTaskInstance _, reply =>
    { v with
      hand := match reply with
        | .ok ti => ti :: v.hand
        | .error _ => v.hand }
  | .createTaskInstance ti, reply =>
    { v with
      hand := match reply with
        | .ok _ => ti :: v.hand
        | .error _ => v.hand }
  | .updateTaskInstance ti, reply => { v with hand := v.rewritten ti reply }
  -- the copy in memory is the new one whether or not the write was applied
  | .updateTaskInstanceGuarded ti _, reply =>
    { v with
      hand := ti :: v.hand
      spent := v.spent || ti.state == .scheduled
      returned := match reply with
        | .ok true => if ti.state = .scheduled then ti.key :: v.returned else v.returned
        | _ => v.returned }
  | .launch _ _, answer => { v with launch := some answer }
  | .probe ref, status => { v with probed := some (ref, status) }
  | .getDAG dag, reply =>
    { v with
      checked := match reply with
        | .ok row => if row.deleted then none else some dag
        | .error _ => some dag }
  | .upsertDAG d, reply =>
    { v with
      upserted := match reply with
        | .ok _ => some d.dagID
        | .error _ => v.upserted }
  | .publishDAG _ _, _ => { v with checked := none }
  | .go task, _ => { v with attached := task.instance.key :: v.attached }
  | _, _ => v

def after (o : Op) (reply : o.Reply) : View := { v.learns o reply with last := some ⟨o, reply⟩ }

/-- The only write that adds a DAG to those seen running is a promotion. -/
theorem seen_updateDagRunState {v : View} {id : RunID} {state : RunState} {started finished : Option Calendar.Time}
    {reply : Except StoreError Unit} {dag : DagID}
    (member : dag ∈ (v.after (.updateDagRunState id state started finished) reply).seen) :
    dag ∈ v.seen ∨ ∃ run, v.promotion id = some run ∧ dag = run.dagID := by
  cases state with
  | running =>
    cases reply with
    | error e => exact .inl member
    | ok _ =>
      simp only [after, learns] at member
      cases promotes : v.promotion id with
      | none => exact .inl (by simpa [promotes] using member)
      | some run =>
        have grown : dag = run.dagID ∨ dag ∈ v.seen := by simpa [promotes] using member
        exact grown.symm.imp_right fun same => ⟨run, rfl, same⟩
  | _ => exact .inl member

theorem rerun_isSome (id : RunID) (f : DagRun → DagRun) (reply : Except StoreError Unit) (other : RunID) :
    (v.rerun id f reply other).isSome = (v.runs other).isSome := by
  cases reply with
  | error e => rfl
  | ok _ =>
    by_cases same : other = id
    · subst same
      simp [rerun]
    · simp [rerun, Function.update_of_ne same]

theorem seen_updateDagRunState_mono {v : View} {dag : DagID} (member : dag ∈ v.seen) (id : RunID) (state : RunState)
    (started finished : Option Calendar.Time) (reply : Except StoreError Unit) :
    dag ∈ (v.after (.updateDagRunState id state started finished) reply).seen := by
  cases state with
  | running =>
    cases reply with
    | error e => exact member
    | ok _ =>
      simp only [after, learns]
      cases v.promotion id with
      | none => exact member
      | some run => exact List.mem_cons_of_mem _ member
  | _ => exact member

/-- An attempt is given back by an applied write. -/
theorem returned_after {v : View} {o : Op} {reply : o.Reply} {key : InstanceKey} (member : key ∈ (v.after o reply).returned) :
    key ∈ v.returned ∨ ∃ ti ref, (⟨o, reply⟩ : Issued statements) = ⟨.updateTaskInstanceGuarded ti ref, .ok true⟩ ∧
      ti.state = .scheduled ∧ key = ti.key := by
  cases o with
  | updateTaskInstanceGuarded ti ref =>
    simp only [after, learns] at member
    split at member
    · split at member
      · rename_i applied scheduled
        exact (List.mem_cons.mp member).symm.imp_right fun same => ⟨ti, ref, rfl, scheduled, same⟩
      · exact .inl member
    · exact .inl member
  | _ => exact .inl member

theorem promotion_some {v : View} {id : RunID} {run : DagRun} (promotes : v.promotion id = some run) :
    v.inside = some (.process run) ∧ run.runID = id ∧ run.state = .queued ∧ v.runs id = none := by
  unfold promotion at promotes
  split at promotes
  · rename_i inside
    split at promotes
    · rename_i passed
      cases promotes
      exact ⟨inside, passed.1, passed.2.1, by simpa using passed.2.2⟩
    · cases promotes
  · cases promotes

/-- Before its first statement a goroutine knows the instance that it was started with. -/
def start (request : Request) : View where
  origin := request
  hand := match request with
    | .goroutine task _ => [task.instance]
    | _ => []

end View

/-- The view of a thread. -/
def viewOf (thread : Thread statements Failure Request) : View :=
  Prog.view View.after (View.start thread.origin) thread.log

/-- What a reply says whatever the rows of the database are. -/
def Op.honest : (o : Op) → o.Reply → Prop
  | .getDagRun id, reply => ∀ run, reply = .ok run → run.runID = id
  | .listDagRunsByState state, reply => ∀ run ∈ View.rows reply, run.state = state
  | .listDagRunsByStateLimited state _, reply => ∀ run ∈ View.rows reply, run.state = state
  | .getTaskInstance key, reply => ∀ ti, reply = .ok ti → ti.key = key
  | .listTaskInstances run, reply => ∀ ti ∈ View.rows reply, ti.runID = run
  | .listTaskInstancesByState state, reply =>
    (∀ ti ∈ View.rows reply, ti.state = state) ∧ ((View.rows reply).map TaskInstance.key).Nodup
  | .order keys, reply => reply.Perm keys
  | _, _ => True

/-- A statement that reads rows answers with rows that it asked for. -/
theorem World.perform_honest {tid : Nat} {o : Op} {a : Answer} {w v : World} {reply : o.Reply} {spawned : List Request}
    (performed : World.perform tid o a w = some (reply, v, spawned)) : o.honest reply := by
  cases o with
  | getDagRun id =>
    rintro run rfl
    obtain ⟨_, _, answered | refused⟩ := World.read_some performed
    · simp only [DB.getDagRun] at answered
      cases found : w.db.run? id with
      | none => simp [found] at answered
      | some row =>
        simp only [found, Option.elim_some, Except.ok.injEq] at answered
        rw [answered]
        exact (DB.run?_some found).2
    · cases refused
  | getTaskInstance key =>
    rintro ti rfl
    obtain ⟨_, _, answered | refused⟩ := World.read_some performed
    · simp only [DB.getTaskInstance] at answered
      cases found : w.db.instance? key with
      | none => simp [found] at answered
      | some row =>
        simp only [found, Option.elim_some, Except.ok.injEq] at answered
        rw [answered]
        exact (DB.instance?_some found).2
    · cases refused
  | listDagRunsByState state =>
    obtain ⟨_, _, rfl | rfl⟩ := World.read_some performed
    · exact fun run member => (DB.mem_listDagRunsByState.mp member).2
    · exact fun run member => nomatch member
  | listDagRunsByStateLimited state limit =>
    obtain ⟨_, _, rfl | rfl⟩ := World.read_some performed
    · exact fun run member => (DB.mem_listDagRunsByStateLimited member).2
    · exact fun run member => nomatch member
  | listTaskInstances run =>
    obtain ⟨_, _, rfl | rfl⟩ := World.read_some performed
    · exact fun ti member => ((DB.mem_listTaskInstances run ti).mp member).2
    · exact fun run member => nomatch member
  | listTaskInstancesByState state =>
    obtain ⟨_, _, rfl | rfl⟩ := World.read_some performed
    · exact ⟨fun ti member => (DB.mem_listTaskInstancesByState.mp member).2, DB.listTaskInstancesByState_keys _ _⟩
    · exact ⟨fun run member => (nomatch member), List.nodup_nil⟩
  | order keys =>
    cases performed
    exact a.order.perm keys
  | _ => trivial

end Cronova.Scheduler
