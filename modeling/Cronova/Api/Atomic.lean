import Cronova.Api.Save

/-! A save that fails half way: `CreateDAG` with its file, each of whose steps may fail.

The file, the row, the dependency edges and the cache entry of a DAG are written one after the
other, and nothing is taken back.
-/

set_option autoImplicit false

namespace Cronova.Api

open Model Store Process Scheduler

/-- What becomes of `os.WriteFile`, which truncates the file before it writes. -/
inductive Disk where
  | written
  | refused
  | broken (part : String)
  deriving DecidableEq

/-- The process, its store and the DAG directory. -/
structure Site where
  world : World
  /-- The files of the DAG directory, by the id of their DAG. -/
  files : DagID → Option String := fun _ => none

/-- Which step of `CreateDAG` has failed. -/
inductive CreateError where
  | parse
  | file
  | register (e : Failure)

section Create

variable (env : Env) (surroundings : Op → Answer) (dir : Bool) (disk : Disk)

def Site.setFile (s : Site) (dag : DagID) (text : String) : Site :=
  { s with files := Function.update s.files dag (some text) }

/-- The file of the DAG is written if `DagDir` is set; the result says that no error came up. -/
def Site.writeFile (s : Site) (dag : DagID) (text : String) : Bool × Site :=
  if dir then
    match disk with
    | .written => (true, s.setFile dag text)
    | .refused => (false, s)
    | .broken part => (false, s.setFile dag part)
  else (true, s)

/-- `CreateDAG` on its own. -/
def createDAGFile (yaml : String) (s : Site) : Except CreateError Unit × Site :=
  match env.parse yaml with
  | none => (.error .parse, s)
  | some d => match s.writeFile dir disk d.dagID yaml with
    | (false, filed) => (.error .file, filed)
    | (true, filed) => match (registerDAG env d).run (World.consult surroundings) filed.world with
      | (.ok _, world) => (.ok (), { filed with world })
      | (.error e, world) => (.error (.register e), { filed with world })

/-- Without a directory it is the request that a goroutine serves. -/
theorem createDAGFile_world (yaml : String) (s : Site) :
    (createDAGFile env surroundings false disk yaml s).2.world = ((createDAG env yaml).run (World.consult surroundings) s.world).2 := by
  unfold createDAGFile createDAG parseDefinition
  cases env.parse yaml with
  | none => rfl
  | some d =>
    simp only [Site.writeFile, Bool.false_eq_true, if_false, Prog.pure_eq, Prog.bind_eq, Prog.done_bind]
    rcases (registerDAG env d).run (World.consult surroundings) s.world with ⟨result, world⟩
    cases result <;> rfl

/-- Where the definition of a DAG is kept. -/
structure Copies where
  file : Option String
  row : Except StoreError StoredDAG
  edges : List DagID
  cached : Option CachedDAG

def Site.copies (s : Site) (dag : DagID) : Copies where
  file := s.files dag
  row := s.world.db.getDAG dag
  edges := s.world.db.listUpstreams dag
  cached := s.world.cached dag

end Create

/-! ### The pools -/

section Pools

variable {surroundings : Op → Answer} {w v : World}

/-- The pool is there or can be created. -/
def Provides (surroundings : Op → Answer) (db : DB) (name : String) : Prop :=
  (surroundings (.getPool name)).served = true ∧
    (db.getPool name = .error .notFound → (surroundings (.upsertPool ⟨name, defaultPoolSlots⟩)).served = true)

/-- Every pool that the tasks name is there or can be created. -/
def PoolsProvided (surroundings : Op → Answer) (db : DB) (tasks : List Task) : Prop :=
  ∀ t ∈ tasks, t.pool ≠ "" → Provides surroundings db t.pool

end Pools

/-! ### The registration -/

section Register

variable {env : Env} {surroundings : Op → Answer} {d : DAG} {w : World}

/-- Every statement behind the upsert that can fail is served. -/
def Links (surroundings : Op → Answer) (db : DB) (d : DAG) : Prop :=
  PoolsProvided surroundings db d.tasks ∧ (surroundings (.replaceDagDependencies d.dagID d.triggerAfter)).served = true

end Register

/-! ### What an error leaves -/

section Failures

variable {env : Env} {surroundings : Op → Answer} {dir : Bool} {disk : Disk} {yaml : String} {s : Site} {d : DAG}

/-- The file has the text already, or there is none. -/
def Site.filed (dir : Bool) (s : Site) (dag : DagID) (text : String) : Prop := dir = true → s.files dag = some text

/-- The row has the definition already. -/
def Site.stored (s : Site) (d : DAG) : Prop :=
  ∃ row, s.world.db.getDAG d.dagID = .ok row ∧ row.definitionYAML = d.definitionYAML ∧ row.deleted = false

/-- No write that comes before the step that fails changes a copy of the definition. -/
structure Harmless (surroundings : Op → Answer) (dir : Bool) (disk : Disk) (yaml : String) (s : Site) (d : DAG) : Prop where
  file : ∀ part, dir = true → disk = .broken part → s.files d.dagID = some part
  upsert : (dir = true → disk = .written) → (surroundings (.upsertDAG d)).served = false → s.filed dir d.dagID yaml
  links : (dir = true → disk = .written) → (surroundings (.upsertDAG d)).served = true → ¬ Links surroundings s.world.db d →
    s.filed dir d.dagID yaml ∧ s.stored d

end Failures

end Cronova.Api
