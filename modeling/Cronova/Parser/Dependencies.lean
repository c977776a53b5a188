import Cronova.Model.Definition
import Mathlib.Data.List.Nodup
import Mathlib.Algebra.GroupWithZero.Nat

/-! The dependency checks that end `Parse` (`internal/scheduler/parser/parser.go`):
duplicate ids, duplicate, unknown and self dependencies, and `detectCycle`. -/

set_option autoImplicit false

namespace Cronova.Parser

open Model

inductive DependencyError where
  | duplicateTask (task : TaskID)
  | duplicateDependency (task dep : TaskID)
  | unknownTask (task dep : TaskID)
  | dependsOnItself (task : TaskID)
  | cycle (path : List TaskID) (again : TaskID)
  deriving Repr, DecidableEq

inductive Color where
  | white | gray | black
  deriving Repr, DecidableEq

abbrev Coloring := TaskID → Color

/-- The loop of `visit` over the dependencies of one task. -/
def visitEach (visit : TaskID → Coloring → Except DependencyError Coloring) (path : List TaskID) :
    List TaskID → Coloring → Except DependencyError Coloring
  | [], color => .ok color
  | m :: ms, color => match color m with
    | .gray => .error (.cycle path m)
    | .white => (visit m color).bind (visitEach visit path ms)
    | .black => visitEach visit path ms color

/-- The recursion of `detectCycle`. Every nested call finds a task white and leaves it gray, so
its depth is bounded by the number of tasks; a search that would go deeper has met a cycle. -/
def visit (adj : TaskID → List TaskID) : Nat → List TaskID → TaskID → Coloring → Except DependencyError Coloring
  | 0, path, n, _ => .error (.cycle path n)
  | fuel + 1, path, n, color =>
    (visitEach (visit adj fuel (path ++ [n])) (path ++ [n]) (adj n) (Function.update color n .gray)).map
      (Function.update · n .black)

/-- The map from a task to its dependencies. A later task with the same id replaces an earlier one. -/
def adjacency (tasks : List Task) (id : TaskID) : List TaskID :=
  match tasks.findRev? (·.id == id) with
  | some t => t.deps
  | none => []

def visitRoots (adj : TaskID → List TaskID) (fuel : Nat) :
    List Task → Coloring → Except DependencyError Coloring
  | [], color => .ok color
  | t :: ts, color =>
    if color t.id = .white then (visit adj fuel [] t.id color).bind (visitRoots adj fuel ts)
    else visitRoots adj fuel ts color

/-- `detectCycle`. Dependencies may name tasks that are not listed, so these count too. -/
def detectCycle (tasks : List Task) : Except DependencyError Unit :=
  let fuel := tasks.length + (tasks.map (·.deps.length)).sum
  (visitRoots (adjacency tasks) fuel tasks (fun _ => .white)).map fun _ => ()

def checkIDs : List TaskID → List Task → Except DependencyError Unit
  | _, [] => .ok ()
  | seen, t :: ts => if t.id ∈ seen then .error (.duplicateTask t.id) else checkIDs (t.id :: seen) ts

def checkDeps (ids : List TaskID) (task : TaskID) : List TaskID → List TaskID → Except DependencyError Unit
  | _, [] => .ok ()
  | seen, dep :: deps =>
    if dep ∈ seen then .error (.duplicateDependency task dep)
    else if dep ∉ ids then .error (.unknownTask task dep)
    else if dep = task then .error (.dependsOnItself task)
    else checkDeps ids task (dep :: seen) deps

def checkAllDeps (ids : List TaskID) : List Task → Except DependencyError Unit
  | [] => .ok ()
  | t :: ts => (checkDeps ids t.id [] t.deps).bind fun _ => checkAllDeps ids ts

/-- What `Parse` demands of the tasks' ids and dependencies. -/
def checkTasks (tasks : List Task) : Except DependencyError Unit := do
  checkIDs [] tasks
  checkAllDeps (tasks.map (·.id)) tasks
  detectCycle tasks

section Search

variable {adj : TaskID → List TaskID}

/-- A finished task has no infinite chain of dependencies below it. -/
def Finished (adj : TaskID → List TaskID) (color : Coloring) : Prop :=
  ∀ n, color n = .black → Acc (fun m n => m ∈ adj n) n

/-- What a search adds: it blackens white tasks and leaves the gray ones gray. -/
structure Extends (before after : Coloring) : Prop where
  black : ∀ n, before n = .black → after n = .black
  gray : ∀ n, after n = .gray ↔ before n = .gray

theorem Extends.refl (color : Coloring) : Extends color color := ⟨fun _ black => black, fun _ => .rfl⟩

theorem Extends.trans {a b c : Coloring} (first : Extends a b) (second : Extends b c) : Extends a c where
  black n black := second.black n (first.black n black)
  gray n := (second.gray n).trans (first.gray n)

/-- The contract of one nested search. -/
def Searches (adj : TaskID → List TaskID) (search : TaskID → Coloring → Except DependencyError Coloring) : Prop :=
  ∀ n before after, before n = .white → Finished adj before → search n before = .ok after →
    Finished adj after ∧ Extends before after ∧ after n = .black

theorem visitEach_ok {search : TaskID → Coloring → Except DependencyError Coloring} (correct : Searches adj search)
    (path : List TaskID) {ms : List TaskID} {before after : Coloring} (finished : Finished adj before)
    (ok : visitEach search path ms before = .ok after) :
    Finished adj after ∧ Extends before after ∧ ∀ m ∈ ms, after m = .black := by
  induction ms generalizing before with
  | nil =>
    obtain rfl : before = after := by simpa [visitEach] using ok
    exact ⟨finished, .refl _, by simp⟩
  | cons m ms ih =>
    unfold visitEach at ok
    cases found : before m with
    | gray => simp [found] at ok
    | black =>
      simp only [found] at ok
      obtain ⟨done, grows, rest⟩ := ih finished ok
      exact ⟨done, grows, List.forall_mem_cons.mpr ⟨grows.black m found, rest⟩⟩
    | white =>
      simp only [found] at ok
      cases visited : search m before with
      | error e => simp [visited, Except.bind] at ok
      | ok mid =>
        simp only [visited, Except.bind] at ok
        obtain ⟨midDone, midGrows, black⟩ := correct m before mid found finished visited
        obtain ⟨done, grows, rest⟩ := ih midDone ok
        exact ⟨done, midGrows.trans grows, List.forall_mem_cons.mpr ⟨grows.black m black, rest⟩⟩

theorem visit_searches (fuel : Nat) (path : List TaskID) : Searches adj (visit adj fuel path) := by
  induction fuel generalizing path with
  | zero => intro n before after _ _ ok; simp [visit] at ok
  | succ fuel ih =>
    intro n before after white finished ok
    unfold visit at ok
    cases inner : visitEach (visit adj fuel (path ++ [n])) (path ++ [n]) (adj n) (Function.update before n .gray) with
    | error e => simp [inner, Except.map] at ok
    | ok mid =>
      obtain rfl : Function.update mid n .black = after := by simpa [inner, Except.map] using ok
      have started : Finished adj (Function.update before n .gray) := by
        intro x black
        by_cases same : x = n
        · subst x; simp at black
        · exact finished x (by simpa [same] using black)
      obtain ⟨done, grows, deps⟩ := visitEach_ok (ih (path ++ [n])) (path ++ [n]) started inner
      -- every dependency is black by now, and a black task is accessible
      have acc : Acc (fun m n => m ∈ adj n) n := Acc.intro n fun m member => done m (deps m member)
      refine ⟨fun x black => ?_, ⟨fun x black => ?_, fun x => ?_⟩, by simp⟩
      · by_cases same : x = n
        · exact same ▸ acc
        · exact done x (by simpa [same] using black)
      · have same : x ≠ n := by rintro rfl; simp_all
        simpa [same] using grows.black x (by simpa [same] using black)
      · by_cases same : x = n
        · subst x; simp [white]
        · simpa [same] using grows.gray x

theorem visitRoots_ok {fuel : Nat} {tasks : List Task} {before after : Coloring} (finished : Finished adj before)
    (noGray : ∀ n, before n ≠ .gray) (ok : visitRoots adj fuel tasks before = .ok after) :
    Finished adj after ∧ Extends before after ∧ ∀ t ∈ tasks, after t.id = .black := by
  induction tasks generalizing before with
  | nil =>
    obtain rfl : before = after := by simpa [visitRoots] using ok
    exact ⟨finished, .refl _, by simp⟩
  | cons t ts ih =>
    unfold visitRoots at ok
    split at ok
    · rename_i white
      cases visited : visit adj fuel [] t.id before with
      | error e => simp [visited, Except.bind] at ok
      | ok mid =>
        simp only [visited, Except.bind] at ok
        obtain ⟨midDone, midGrows, black⟩ := visit_searches fuel [] t.id before mid white finished visited
        have midNoGray : ∀ n, mid n ≠ .gray := fun n gray => noGray n ((midGrows.gray n).mp gray)
        obtain ⟨done, grows, rest⟩ := ih midDone midNoGray ok
        exact ⟨done, midGrows.trans grows, List.forall_mem_cons.mpr ⟨grows.black t.id black, rest⟩⟩
    · rename_i notWhite
      obtain ⟨done, grows, rest⟩ := ih finished noGray ok
      have black : before t.id = .black := by
        cases found : before t.id with
        | white => exact absurd found notWhite
        | gray => exact absurd found (noGray t.id)
        | black => rfl
      exact ⟨done, grows, List.forall_mem_cons.mpr ⟨grows.black t.id black, rest⟩⟩

/-- A task list that passes `detectCycle` has no infinite chain of dependencies. -/
theorem detectCycle_acyclic {tasks : List Task} (ok : detectCycle tasks = .ok ()) {t : Task} (member : t ∈ tasks) :
    Acc (fun m n => m ∈ adjacency tasks n) t.id := by
  unfold detectCycle at ok
  cases visited : visitRoots (adjacency tasks) (tasks.length + (tasks.map (·.deps.length)).sum) tasks
      (fun _ => .white) with
  | error e => simp [visited, Except.map] at ok
  | ok color =>
    obtain ⟨done, _, black⟩ := visitRoots_ok (by intro n black; simp at black) (by simp) visited
    exact done t.id (black t member)

end Search

/-- The well-formedness that the checks of `Parse` establish. -/
structure WellFormed (tasks : List Task) : Prop where
  unique : (tasks.map (·.id)).Nodup
  known : ∀ t ∈ tasks, ∀ dep ∈ t.deps, dep ∈ tasks.map (·.id)
  acyclic : ∀ t ∈ tasks, Acc (fun m n => m ∈ adjacency tasks n) t.id

theorem checkIDs_ok {seen : List TaskID} {tasks : List Task} (ok : checkIDs seen tasks = .ok ()) :
    (tasks.map (·.id)).Nodup ∧ ∀ t ∈ tasks, t.id ∉ seen := by
  induction tasks generalizing seen with
  | nil => simp
  | cons t ts ih =>
    unfold checkIDs at ok
    split at ok
    · simp at ok
    · rename_i fresh
      obtain ⟨nodup, apart⟩ := ih ok
      refine ⟨List.nodup_cons.mpr ⟨?_, nodup⟩, List.forall_mem_cons.mpr ⟨fresh, fun u member => ?_⟩⟩
      · simp only [List.mem_map, not_exists, not_and]
        exact fun u member same => apart u member (by simp [same])
      · exact fun inside => apart u member (List.mem_cons_of_mem _ inside)

theorem checkDeps_ok {ids seen deps : List TaskID} {task : TaskID} (ok : checkDeps ids task seen deps = .ok ()) :
    ∀ dep ∈ deps, dep ∈ ids := by
  induction deps generalizing seen with
  | nil => simp
  | cons dep deps ih =>
    unfold checkDeps at ok
    split at ok
    · simp at ok
    · split at ok
      · simp at ok
      · rename_i known
        split at ok
        · simp at ok
        · exact List.forall_mem_cons.mpr ⟨not_not.mp known, ih ok⟩

theorem checkAllDeps_ok {ids : List TaskID} {tasks : List Task} (ok : checkAllDeps ids tasks = .ok ()) :
    ∀ t ∈ tasks, ∀ dep ∈ t.deps, dep ∈ ids := by
  induction tasks with
  | nil => simp
  | cons t ts ih =>
    unfold checkAllDeps at ok
    cases first : checkDeps ids t.id [] t.deps with
    | error e => simp [first, Except.bind] at ok
    | ok u =>
      simp only [first, Except.bind] at ok
      exact List.forall_mem_cons.mpr ⟨checkDeps_ok first, ih ok⟩

theorem checkTasks_wellFormed {tasks : List Task} (ok : checkTasks tasks = .ok ()) : WellFormed tasks := by
  unfold checkTasks at ok
  simp only [bind, Except.bind] at ok
  split at ok
  · simp at ok
  · rename_i ids
    split at ok
    · simp at ok
    · rename_i deps
      exact ⟨(checkIDs_ok ids).1, checkAllDeps_ok deps, fun t member => detectCycle_acyclic ok member⟩

/-- With unique ids the adjacency of a listed task is its own dependency list. -/
theorem WellFormed.adjacency_eq {tasks : List Task} (formed : WellFormed tasks) {t : Task} (member : t ∈ tasks) :
    adjacency tasks t.id = t.deps := by
  unfold adjacency
  cases found : tasks.findRev? (·.id == t.id) with
  | none =>
    rw [List.findRev?_eq_find?_reverse, List.find?_eq_none] at found
    exact absurd (beq_self_eq_true t.id) (found t (List.mem_reverse.mpr member))
  | some u =>
    rw [List.findRev?_eq_find?_reverse] at found
    have same : u.id = t.id := by simpa using List.find?_some found
    have listed : u ∈ tasks := List.mem_reverse.mp (List.mem_of_find?_eq_some found)
    rw [List.inj_on_of_nodup_map formed.unique listed member same]

end Cronova.Parser
