import Cronova.Parser.Acyclic
import Cronova.Parser.Document
import Mathlib.Algebra.GroupWithZero.Nat

/-! What `Parse` accepts is within the limits.

The document is checked before its tasks are fanned out, and the tasks after; the definition has
the tasks of the second check. So its limits are read off from the checks on the fanned-out tasks, and
only the header's from those on the document.
-/

set_option autoImplicit false

namespace Cronova.Parser

open Model Text Checks
open Calendar (Time)

/-! ### What is accepted after a fan-out -/

/-- What is accepted of a document whose tasks are fanned out. -/
structure Builds (lib : Library) (raw : String) (y : DagYAML) (expanded : List TaskYAML) (d : ParsedDAG) : Prop where
  header : Header lib y
  expands : expandForeach lib y.dagID y.tasks = .ok expanded
  tasks : parseTasks lib y [] 0 expanded = .ok d.tasks
  graph : checkGraph y.dagID d.tasks = .ok ()
  same : d = dagOf raw y d.startDate d.triggerAfter d.triggerOnEvent d.notify d.tasks

section Accept

variable {lib : Library} {now : Time} {raw : String} {y : DagYAML} {d : ParsedDAG}

theorem build_builds (ok : build lib now raw y = .ok d) : ∃ expanded, Builds lib raw y expanded d := by
  simp only [build, bind_eq_ok, pure_eq_ok, checkHeader_eq_ok] at ok
  obtain ⟨start, ⟨header, _⟩, after, _, events, _, notify, _, expanded, expands, tasks, parsed, ⟨⟩, graph, rfl⟩ := ok
  exact ⟨expanded, header, expands, parsed, graph, rfl⟩

theorem parse_builds (ok : parse lib now raw = .ok d) :
    ∃ y expanded, lib.decode raw = some y ∧ Builds lib raw y expanded d := by
  cases read : lib.decode raw with
  | none => simp [parse, read, demand, bind_eq_ok] at ok
  | some y =>
    obtain ⟨expanded, builds⟩ := build_builds ((parse_eq_ok read).mp ok).2.2
    exact ⟨y, expanded, rfl, builds⟩

/-- The fan-out is held to the limit on tasks, and a document without one is by its header. -/
theorem expandForeach_length {expanded : List TaskYAML} (short : y.tasks.length ≤ maxTasks)
    (expands : expandForeach lib y.dagID y.tasks = .ok expanded) : expanded.length ≤ maxTasks := by
  unfold expandForeach at expands
  split at expands
  · obtain rfl : y.tasks = expanded := by simpa using expands
    exact short
  · simp only [bind_eq_ok, require_eq_ok, pure_eq_ok, exists_and_left, exists_const] at expands
    obtain ⟨out, _, few, rfl⟩ := expands
    simpa using few

end Accept

/-! ### One task -/

/-- The limits on a task by itself. -/
structure TaskLimits (task : ParsedTask) : Prop where
  id : task.id ≠ "" ∧ task.id.utf8ByteSize ≤ 128
  deps : task.deps.length ≤ 256
  command : task.command.utf8ByteSize ≤ 256 * 1024
  retries : Within 100 task.retries
  retryDelay : Within (365 * 24 * 3600) task.retryDelay
  retryDelayMax : Within (365 * 24 * 3600) task.retryDelayMax
  timeout : Within (365 * 24 * 3600) task.timeout
  sla : Within (365 * 24 * 3600) task.sla
  wait : ∀ w ∈ task.dependsOnDag, Within (365 * 24 * 3600) w.timeout
  request : ∀ spec ∈ task.http, spec.body.utf8ByteSize ≤ 256 * 1024

section Task

variable {lib : Library} {y : DagYAML} {t : TaskYAML} {task : ParsedTask}

theorem parseDependsOnDag_timeout {found : Option CrossWait} (ok : parseDependsOnDag y t lib = .ok found) :
    ∀ w ∈ found, Within maxDurationSeconds w.timeout := by
  unfold parseDependsOnDag at ok
  split at ok
  · cases ok
    simp
  · simp only [bind_eq_ok, require_eq_ok, pure_eq_ok, exists_and_left, exists_const] at ok
    obtain ⟨_, _, _, timeout, _, rfl⟩ := ok
    simpa using timeout

theorem parseHTTP_body {found : Option HTTPSpec} (ok : parseHTTP y t = .ok found) :
    ∀ spec ∈ found, spec.body.utf8ByteSize ≤ maxCommandBytes := by
  unfold parseHTTP at ok
  split at ok
  · simp only [bind_eq_ok, demand_eq_ok, require_eq_ok, requireEach_eq_ok, pure_eq_ok, exists_and_left, exists_const] at ok
    obtain ⟨spec, _, _, ⟨_, body, _⟩, rfl⟩ := ok
    simpa using body
  · simp only [bind_eq_ok, require_eq_ok, pure_eq_ok, exists_and_left, exists_const] at ok
    obtain ⟨_, _, rfl⟩ := ok
    simp

/-- A delay that the task sets itself is held to 30 days, and one that it inherits to a year. -/
theorem retryDelayOf_within (default : Within maxDurationSeconds y.defaultRetryDelay)
    (own : ∀ delay ∈ t.retryDelay, delay ≤ maxDelaySec) (positive : 0 ≤ retryDelayOf y t) :
    Within maxDurationSeconds (retryDelayOf y t) := by
  refine ⟨positive, ?_⟩
  unfold retryDelayOf
  cases given : t.retryDelay with
  | none => exact default.2
  | some delay =>
    have bounded := own delay (by simp [given])
    simp only [Option.getD_some]
    unfold maxDelaySec at bounded
    unfold maxDurationSeconds
    omega

theorem parseTask_limits {seen : List String} {total : Nat} (header : Header lib y)
    (ok : parseTask y t lib seen total = .ok task) : TaskLimits task := by
  obtain ⟨id, shape, _, wait, retries, request, _, same⟩ := parseTask_eq_ok.mp ok
  simp only [checkTaskID, checkShape, checkRetries, bind_eq_ok, require_eq_ok, exists_and_left, exists_const, isID, fitsIdentifier,
    Bool.and_eq_true, decide_eq_true_eq] at id shape retries
  obtain ⟨named, ⟨shortID, _⟩, _⟩ := id
  obtain ⟨_, _, _, deps, _, command⟩ := shape
  obtain ⟨⟨timeout, sla⟩, _, positiveMax, ⟨own, delayMax⟩, count, positive⟩ := retries
  have waits := parseDependsOnDag_timeout wait
  have bodies := parseHTTP_body request
  have delay := retryDelayOf_within header.defaultRetryDelay own positive
  rw [same]
  refine ⟨⟨named, shortID⟩, deps, command, count, delay, ⟨positiveMax, ?_⟩, timeout, sla, waits, bodies⟩
  exact le_trans delayMax (by decide)

end Task

/-! ### The dependencies -/

section Graph

variable {ids seen deps : List TaskID} {task : TaskID} {tasks : List Task}

/-- No dependency is listed twice, and none is the task itself. -/
theorem checkDeps_distinct (ok : checkDeps ids task seen deps = .ok ()) :
    deps.Nodup ∧ (∀ dep ∈ deps, dep ∉ seen) ∧ task ∉ deps := by
  induction deps generalizing seen with
  | nil => simp
  | cons dep deps ih =>
    unfold checkDeps at ok
    split at ok
    · simp at ok
    · rename_i fresh
      split at ok
      · simp at ok
      · split at ok
        · simp at ok
        · rename_i other
          obtain ⟨distinct, apart, own⟩ := ih ok
          refine ⟨List.nodup_cons.mpr ⟨?_, distinct⟩, List.forall_mem_cons.mpr ⟨fresh, ?_⟩, ?_⟩
          · exact fun again => apart dep again List.mem_cons_self
          · exact fun later member before => apart later member (List.mem_cons_of_mem dep before)
          · exact List.not_mem_cons_of_ne_of_not_mem (Ne.symm other) own

theorem checkAllDeps_each (ok : checkAllDeps ids tasks = .ok ()) : ∀ t ∈ tasks, checkDeps ids t.id [] t.deps = .ok () := by
  induction tasks with
  | nil => simp
  | cons t ts ih =>
    unfold checkAllDeps at ok
    cases first : checkDeps ids t.id [] t.deps with
    | error e => simp [first, Except.bind] at ok
    | ok u =>
      simp only [first, Except.bind] at ok
      exact List.forall_mem_cons.mpr ⟨first, ih ok⟩

end Graph

theorem mapError_eq_ok {E F A : Type} {x : Except E A} {f : E → F} {a : A} : x.mapError f = .ok a ↔ x = .ok a := by
  cases x <;> simp [Except.mapError]

theorem checkGraph_eq_ok {dag : String} {tasks : List ParsedTask} {u : Unit} :
    checkGraph dag tasks = .ok u ↔
      checkAllDeps ((tasks.map (·.node)).map (·.id)) (tasks.map (·.node)) = .ok () ∧ detectCycle (tasks.map (·.node)) = .ok () := by
  simp only [checkGraph, bind_eq_ok, mapError_eq_ok]
  constructor
  · rintro ⟨_, deps, acyclic⟩
    exact ⟨deps, acyclic⟩
  · rintro ⟨deps, acyclic⟩
    exact ⟨(), deps, acyclic⟩

/-! ### The whole definition -/

section Definition

variable {lib : Library} {y : DagYAML}

/-- The count of dependencies goes over all the tasks. -/
theorem parseTasks_edges {ts : List TaskYAML} {seen : List String} {total : Nat} {tasks : List ParsedTask}
    (ok : parseTasks lib y seen total ts = .ok tasks) (few : total ≤ maxDependencies) :
    total + (tasks.map (·.deps.length)).sum ≤ maxDependencies := by
  induction ts generalizing seen total tasks with
  | nil =>
    cases ok
    simpa using few
  | cons t ts ih =>
    simp only [parseTasks, bind_eq_ok, pure_eq_ok] at ok
    obtain ⟨task, parsed, rest, others, rfl⟩ := ok
    have shape := (parseTask_eq_ok.mp parsed).2.1
    simp only [checkShape, bind_eq_ok, require_eq_ok, exists_and_left, exists_const] at shape
    obtain ⟨_, _, _, _, counting, _⟩ := shape
    have counted := ih others counting
    rw [List.map_cons, List.sum_cons, (parseTask_id parsed).2]
    omega

theorem parseTasks_ids {ts : List TaskYAML} {seen : List String} {total : Nat} {tasks : List ParsedTask}
    (ok : parseTasks lib y seen total ts = .ok tasks) : tasks.map (·.id) = ts.map (·.id) := by
  have related := parseTasks_forall ok
  clear ok
  induction related with
  | nil => rfl
  | cons first _ ih =>
    obtain ⟨_, _, parsed⟩ := first
    rw [List.map_cons, List.map_cons, (parseTask_id parsed).1, ih]

/-- Every task of the definition is one that is listed, and has been accepted. -/
theorem parseTasks_origin {ts : List TaskYAML} {seen : List String} {total : Nat} {tasks : List ParsedTask}
    (ok : parseTasks lib y seen total ts = .ok tasks) {task : ParsedTask} (member : task ∈ tasks) :
    ∃ t ∈ ts, ∃ seen total, parseTask y t lib seen total = .ok task := by
  have related := parseTasks_forall ok
  clear ok
  induction related with
  | nil => simp at member
  | cons first _ ih =>
    rcases List.mem_cons.mp member with rfl | later
    · exact ⟨_, List.mem_cons_self, first⟩
    · obtain ⟨t, listed, accepted⟩ := ih later
      exact ⟨t, List.mem_cons_of_mem _ listed, accepted⟩

/-- The limits on a definition, after the reference. -/
structure Limits (d : ParsedDAG) : Prop where
  count : d.tasks.length ≤ 1000
  unique : (d.tasks.map (·.id)).Nodup
  each : ∀ task ∈ d.tasks, TaskLimits task
  known : ∀ task ∈ d.tasks, ∀ dep ∈ task.deps, dep ≠ task.id ∧ ∃ other ∈ d.tasks, other.id = dep
  once : ∀ task ∈ d.tasks, task.deps.Nodup
  edges : (d.tasks.map (·.deps.length)).sum ≤ 10000
  retries : Within 100 d.defaultRetries
  deadlines : Within (365 * 24 * 3600) d.sla ∧ Within (365 * 24 * 3600) d.dagrunTimeout
  definition : d.definitionYAML.utf8ByteSize ≤ 2 ^ 20
  acyclic : ∀ task, ¬ Relation.TransGen (DependsOn (d.tasks.map (·.node))) task task

/-- `checkGraph` finds what its checks demand, of the tasks and not of their nodes. -/
theorem checkGraph_ok {dag : String} {tasks : List ParsedTask} (ok : checkGraph dag tasks = .ok ())
    (unique : (tasks.map (·.id)).Nodup) :
    (∀ task ∈ tasks, (∀ dep ∈ task.deps, dep ≠ task.id ∧ ∃ other ∈ tasks, other.id = dep) ∧ task.deps.Nodup) ∧
      ∀ task, ¬ Relation.TransGen (DependsOn (tasks.map (·.node))) task task := by
  obtain ⟨deps, acyclic⟩ := checkGraph_eq_ok.mp ok
  have ids : (tasks.map (·.node)).map (·.id) = tasks.map (·.id) := by
    rw [List.map_map]
    rfl
  refine ⟨fun task member => ?_, fun task => detectCycle_noCycle (ids ▸ unique) acyclic task⟩
  have node : task.node ∈ tasks.map (·.node) := List.mem_map_of_mem member
  obtain ⟨distinct, _, own⟩ := checkDeps_distinct (checkAllDeps_each deps task.node node)
  refine ⟨fun dep listed => ⟨?_, ?_⟩, distinct⟩
  · rintro rfl
    exact own listed
  · have known := checkAllDeps_ok deps task.node node dep listed
    rw [ids] at known
    exact List.mem_map.mp known

end Definition

/-- Whatever is accepted is within the limits, after the fan-out too. -/
theorem parse_limits (lib : Library) (now : Time) (raw : String) (d : ParsedDAG) (ok : parse lib now raw = .ok d) : Limits d := by
  obtain ⟨y, expanded, read, builds⟩ := parse_builds ok
  have text := ((parse_eq_ok read).mp ok).2.1
  have ids := parseTasks_ids builds.tasks
  have unique : (d.tasks.map (·.id)).Nodup := ids ▸ (parseTasks_nodup builds.tasks).1
  obtain ⟨deps, acyclic⟩ := checkGraph_ok builds.graph unique
  have edges := parseTasks_edges builds.tasks (Nat.zero_le _)
  have length : d.tasks.length = expanded.length := by
    rw [← List.length_map (·.id), ids, List.length_map]
  have each : ∀ task ∈ d.tasks, TaskLimits task := by
    intro task member
    obtain ⟨t, _, _, _, parsed⟩ := parseTasks_origin builds.tasks member
    exact parseTask_limits builds.header parsed
  rw [builds.same]
  exact {
    count := length ▸ expandForeach_length builds.header.tasks builds.expands
    unique
    each
    known := fun task member => (deps task member).1
    once := fun task member => (deps task member).2
    edges := by simpa [maxDependencies, dagOf] using edges
    retries := builds.header.defaultRetries
    deadlines := builds.header.deadlines
    definition := text
    acyclic }

def regionsText : String :=
  "dag_id: regions\ntasks:\n- id: load\n  command: ./load\n  foreach: [eu, us]\n- id: merge\n  command: ./merge\n  deps: [load]\n"

def regions : DagYAML where
  dagID := "regions"
  tasks := [{ id := "load", command := "./load", foreach := ["eu", "us"] }, { id := "merge", command := "./merge", deps := ["load"] }]

/-- The commands have no placeholders to fill. -/
def regionsLibrary : Library where
  decode text := if text = regionsText then some regions else none
  loadLocation _ := false
  parseSchedule _ _ := false
  parseDate _ _ := none
  validOffset _ := false
  fill _ _ text := text

def regionsDAG : ParsedDAG :=
  dagOf regionsText regions 0 [] [] {} <|
    [{ id := "load_0", command := "./load" }, { id := "load_1", command := "./load" },
      { id := "merge", command := "./merge", deps := ["load_0", "load_1"] }].map fun t => taskOf regions t none none

theorem regions_limits : parse regionsLibrary 0 regionsText = .ok regionsDAG ∧ Limits regionsDAG := by
  have accepted : parse regionsLibrary 0 regionsText = .ok regionsDAG := by decide +kernel
  exact ⟨accepted, parse_limits regionsLibrary 0 regionsText regionsDAG accepted⟩

end Cronova.Parser
