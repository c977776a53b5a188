import Cronova.Api.Editor

/-! Loading a definition into the editor and saving it as it is.

A task is read back from the saved text as it was, but for its condition and an inherited delay;
the DAG's own keys are, but for those that a spec does not have. From these follows exactly which
definitions stay the same.
-/

set_option autoImplicit false

namespace Cronova.Api

open Cronova.Parser Text Checks
open Calendar (Time)

/-! ### A task that is saved as it is -/

/-- The task as it is read back from the saved definition. -/
def resaveTask (raw : String → Option Int × Option Int) (task : ParsedTask) : TaskYAML := (taskOut (editTask raw task).submit).document

/-- What the tasks see of the DAG's own keys after a save. -/
structure Follows (y y' : DagYAML) : Prop where
  dagID : y'.dagID = y.dagID
  workerGroup : y'.workerGroup = ""
  defaultRetries : y'.defaultRetries = y.defaultRetries
  defaultRetryDelay : y'.defaultRetryDelay = 0

section Tasks

variable {lib : Library} {y y' : DagYAML} {t : TaskYAML} {raw : String → Option Int × Option Int}
  {wait : Option CrossWait} {http : Option HTTPSpec}

theorem resaveTask_command (task : ParsedTask) : (resaveTask raw task).command = if task.type = "subdag" then "" else task.command := rfl

theorem resaveTask_subdag (task : ParsedTask) : (resaveTask raw task).subdag = if task.type = "subdag" then trimSpace task.subdag else "" := rfl

theorem resaveTask_http (task : ParsedTask) : (resaveTask raw task).http = if task.type = "http" then task.http else none := rfl

@[simp] theorem taskOf_type : (taskOf y t wait http).type = typeOf t := rfl

@[simp] theorem typeOf_resaveTask : typeOf (resaveTask raw (taskOf y t wait http)) = typeOf t :=
  orDefault_again (by decide +kernel) t.type

@[simp] theorem poolOf_resaveTask : poolOf (resaveTask raw (taskOf y t wait http)) = poolOf t :=
  orDefault_again (by decide +kernel) t.pool

@[simp] theorem ruleOf_resaveTask : ruleOf (resaveTask raw (taskOf y t wait http)) = ruleOf t := orDefault_orDefault _ _

/-- The group that a task has inherited becomes its own. -/
theorem Follows.groupOf (follows : Follows y y') : groupOf y' (resaveTask raw (taskOf y t wait http)) = groupOf y t := by
  have trimmed : trimSpace (Parser.groupOf y t) = Parser.groupOf y t :=
    trimSpace_orDefault (trimSpace_trimSpace _) (trimSpace_trimSpace _)
  rw [Parser.groupOf, follows.workerGroup, trimSpace_empty, orDefault_empty]
  exact trimmed

theorem Follows.retriesOf (follows : Follows y y') (written : (raw t.id).1 = t.retries) :
    retriesOf y' (resaveTask raw (taskOf y t wait http)) = retriesOf y t := by
  rw [Parser.retriesOf, Parser.retriesOf, follows.defaultRetries, ← written]
  rfl

/-- The delay that a task has inherited is lost. -/
theorem Follows.retryDelayOf (follows : Follows y y') (written : (raw t.id).2 = t.retryDelay) :
    retryDelayOf y' (resaveTask raw (taskOf y t wait http)) = t.retryDelay.getD 0 := by
  rw [Parser.retryDelayOf, follows.defaultRetryDelay, ← written]
  rfl

theorem canonicalOffset_trimmed (offset : String) :
    canonicalOffset (trimSpace (canonicalOffset (trimSpace offset))) = canonicalOffset (trimSpace offset) ∧
      trimSpace (canonicalOffset (trimSpace offset)) = canonicalOffset (trimSpace offset) := by
  unfold canonicalOffset
  split
  · simp
  · rename_i other
    simp [other]

/-- A wait is rendered as it is, and read back as it was. -/
theorem Follows.parseDependsOnDag (follows : Follows y y') (ok : parseDependsOnDag y t lib = .ok wait) :
    parseDependsOnDag y' (resaveTask raw (taskOf y t wait http)) lib = .ok wait := by
  unfold Parser.parseDependsOnDag at ok
  split at ok
  · cases ok
    rfl
  · rename_i written given
    simp only [bind_eq_ok, require_eq_ok, pure_eq_ok, exists_and_left, exists_const] at ok
    obtain ⟨⟨named, valid⟩, other, offset, timeout, outcome, rfl⟩ := ok
    obtain ⟨canonical, trimmed⟩ := canonicalOffset_trimmed written.offset
    have default : orDefault (trimSpace (orDefault (trimSpace written.onTimeout) "fail")) "fail" =
        orDefault (trimSpace written.onTimeout) "fail" := orDefault_again (by decide +kernel) written.onTimeout
    have rendered : (resaveTask raw (taskOf y t (some ⟨trimSpace written.dag, canonicalOffset (trimSpace written.offset), written.timeout,
        orDefault (trimSpace written.onTimeout) "fail"⟩) http)).dependsOnDag =
          some ⟨trimSpace written.dag, canonicalOffset (trimSpace written.offset), written.timeout,
            orDefault (trimSpace written.onTimeout) "fail"⟩ := by
      simp only [resaveTask, TaskOut.document, taskOut, EditTask.submit, editTask, taskOf, Option.bind_some, waitOut,
        trimSpace_trimSpace, if_neg named, trimmed]
    unfold Parser.parseDependsOnDag
    simp only [rendered, bind_eq_ok, require_eq_ok, pure_eq_ok, exists_and_left, exists_const, trimSpace_trimSpace, canonical,
      default, follows.dagID]
    exact ⟨⟨named, valid⟩, other, offset, timeout, outcome, trivial⟩

theorem parseHTTP_resaveTask (plain : typeOf t ≠ "subdag") (ok : parseHTTP y t = .ok http) :
    parseHTTP y' (resaveTask raw (taskOf y t wait http)) = .ok http := by
  unfold parseHTTP at ok ⊢
  rw [typeOf_resaveTask]
  split at ok
  · rename_i request
    rw [if_pos request]
    simp only [bind_eq_ok, demand_eq_ok, require_eq_ok, requireEach_eq_ok, pure_eq_ok, exists_and_left, exists_const,
      Option.filter_eq_some_iff, decide_eq_true_eq] at ok
    obtain ⟨spec, ⟨given, url⟩, codes, ⟨short, body, headers, many⟩, rfl⟩ := ok
    have rendered : (resaveTask raw (taskOf y t wait (some { spec with url := trimSpace spec.url }))).http =
        some { spec with url := trimSpace spec.url } := by
      rw [resaveTask_http, taskOf_type, if_pos request]
      rfl
    simp only [rendered, bind_eq_ok, demand_eq_ok, require_eq_ok, requireEach_eq_ok, pure_eq_ok, exists_and_left, exists_const,
      Option.filter_eq_some_iff, decide_eq_true_eq, Option.some.injEq]
    exact ⟨_, ⟨rfl, by rwa [trimSpace_trimSpace]⟩, codes, ⟨(utf8ByteSize_trimSpace_le _).trans short, body, headers, many⟩,
      by rw [trimSpace_trimSpace]⟩
  · rename_i other
    rw [if_neg other]
    simp only [bind_eq_ok, require_eq_ok, pure_eq_ok, exists_and_left, exists_const] at ok
    obtain ⟨_, command, rfl⟩ := ok
    have nothing : (resaveTask raw (taskOf y t wait none)).http = none := by
      rw [resaveTask_http, taskOf_type, if_neg other]
    have kept : (resaveTask raw (taskOf y t wait none)).command = t.command := by
      rw [resaveTask_command, taskOf_type, if_neg plain]
      rfl
    simp only [nothing, kept, bind_eq_ok, require_eq_ok, pure_eq_ok, exists_and_left, exists_const]
    exact ⟨trivial, command, trivial⟩

/-- A sub-workflow is rendered without a command, and refused for it. -/
theorem parseHTTP_subdag {u : TaskYAML} (subdag : typeOf u = "subdag") (empty : u.command = "") (out : Option HTTPSpec) :
    parseHTTP y u ≠ .ok out := by
  intro ok
  unfold parseHTTP at ok
  rw [subdag, if_neg (by decide)] at ok
  simp only [bind_eq_ok, require_eq_ok, pure_eq_ok, exists_and_left, exists_const] at ok
  exact ok.2.1 empty

/-- What a task is after a save: its condition is lost, and a delay that it does not set itself. -/
def kept (raw : String → Option Int × Option Int) (task : ParsedTask) : ParsedTask :=
  { task with when_ := "", retryDelay := (raw task.id).2.getD 0 }

theorem checkShape_subdag {total : Nat} (plain : typeOf t ≠ "subdag") (ok : checkShape y t total = .ok ()) : trimSpace t.subdag = "" := by
  simp only [checkShape, checkSubdag, if_neg plain, bind_eq_ok, require_eq_ok, exists_and_left, exists_const] at ok
  exact ok.2.1

theorem checkShape_resaveTask {total : Nat} (plain : typeOf t ≠ "subdag") (ok : checkShape y t total = .ok ()) :
    checkShape y' (resaveTask raw (taskOf y t wait http)) total = .ok () := by
  have nothing : (resaveTask raw (taskOf y t wait http)).subdag = "" := by
    rw [resaveTask_subdag, taskOf_type, if_neg plain]
  have command : (resaveTask raw (taskOf y t wait http)).command = t.command := by
    rw [resaveTask_command, taskOf_type, if_neg plain]
    rfl
  simp only [checkShape, checkSubdag, typeOf_resaveTask, if_neg plain, nothing, command, trimSpace_empty, bind_eq_ok,
    require_eq_ok, exists_and_left, exists_const] at ok ⊢
  obtain ⟨type, _, deps, total, short⟩ := ok
  exact ⟨type, trivial, deps, total, short⟩

theorem Follows.checkPlacement (follows : Follows y y') (ok : checkPlacement y t = .ok ()) :
    checkPlacement y' (resaveTask raw (taskOf y t wait http)) = .ok () := by
  have project : (resaveTask raw (taskOf y t wait http)).project = trimSpace t.project := rfl
  simp only [Parser.checkPlacement, poolOf_resaveTask, follows.groupOf, ruleOf_resaveTask, project, trimSpace_trimSpace, bind_eq_ok,
    require_eq_ok, exists_and_left, exists_const] at ok ⊢
  exact ok

theorem Follows.checkRetries (follows : Follows y y') (written : raw t.id = (t.retries, t.retryDelay)) (ok : checkRetries y t = .ok ()) :
    checkRetries y' (resaveTask raw (taskOf y t wait http)) = .ok () := by
  have delay : (resaveTask raw (taskOf y t wait http)).retryDelay = t.retryDelay := congrArg Prod.snd written
  simp only [Parser.checkRetries, follows.retriesOf (congrArg Prod.fst written), follows.retryDelayOf (congrArg Prod.snd written),
    delay, bind_eq_ok, require_eq_ok, exists_and_left, exists_const] at ok ⊢
  obtain ⟨deadlines, backoff, most, caps, retries, nonneg⟩ := ok
  refine ⟨deadlines, backoff, most, caps, retries, ?_⟩
  cases given : t.retryDelay with
  | none => exact Int.le_refl 0
  | some n => simpa [Parser.retryDelayOf, given] using nonneg

theorem Follows.kept_taskOf (follows : Follows y y') (plain : typeOf t ≠ "subdag") (noTarget : trimSpace t.subdag = "")
    (written : raw t.id = (t.retries, t.retryDelay)) :
    kept raw (taskOf y t wait http) = taskOf y' (resaveTask raw (taskOf y t wait http)) wait http := by
  have command : (resaveTask raw (taskOf y t wait http)).command = t.command := by
    rw [resaveTask_command, taskOf_type, if_neg plain]
    rfl
  have subdag : trimSpace (resaveTask raw (taskOf y t wait http)).subdag = trimSpace t.subdag := by
    rw [resaveTask_subdag, taskOf_type, if_neg plain, noTarget, trimSpace_empty]
  have when_ : (resaveTask raw (taskOf y t wait http)).when_ = "" := rfl
  have conn : (resaveTask raw (taskOf y t wait http)).conn = trimSpace t.conn := rfl
  have project : (resaveTask raw (taskOf y t wait http)).project = trimSpace t.project := rfl
  have delay : (raw (taskOf y t wait http).id).2 = t.retryDelay := congrArg Prod.snd written
  rw [taskOf.eq_1 y' (resaveTask raw (taskOf y t wait http)), command, subdag, when_, conn, project, typeOf_resaveTask, poolOf_resaveTask,
    ruleOf_resaveTask, follows.groupOf, follows.retriesOf (congrArg Prod.fst written), follows.retryDelayOf (congrArg Prod.snd written),
    trimSpace_trimSpace, trimSpace_trimSpace, trimSpace_empty, kept, delay]
  rfl

/-- A task other than a sub-workflow is accepted again. -/
theorem Follows.parseTask (follows : Follows y y') {seen : List String} {total : Nat} {task : ParsedTask}
    (ok : parseTask y t lib seen total = .ok task) (plain : task.type ≠ "subdag") (written : raw t.id = (t.retries, t.retryDelay)) :
    parseTask y' (resaveTask raw task) lib seen total = .ok (kept raw task) := by
  obtain ⟨id, shape, placement, waits, retries, request, conn, same⟩ := parseTask_eq_ok.mp ok
  generalize task.dependsOnDag = wait at waits same
  generalize task.http = http at request same
  subst same
  rw [taskOf_type] at plain
  refine parseTask_eq_ok.mpr ⟨?id, checkShape_resaveTask plain shape, follows.checkPlacement placement, follows.parseDependsOnDag waits,
    follows.checkRetries written retries, parseHTTP_resaveTask plain request, ?conn, ?same⟩
  case id =>
    simp only [checkTaskID, bind_eq_ok, require_eq_ok, exists_and_left, exists_const] at id ⊢
    exact id
  case conn =>
    have trimmed : (resaveTask raw (taskOf y t wait http)).conn = trimSpace t.conn := rfl
    rw [typeOf_resaveTask, trimmed, trimSpace_trimSpace]
    exact conn
  case same =>
    exact follows.kept_taskOf plain (checkShape_subdag plain shape) written

/-- Tasks other than sub-workflows are accepted again, one after the other. -/
theorem Follows.parseTasks (follows : Follows y y') {ts : List TaskYAML} {seen : List String} {total : Nat} {tasks : List ParsedTask}
    (ok : parseTasks lib y seen total ts = .ok tasks) (plain : ∀ task ∈ tasks, task.type ≠ "subdag")
    (written : ∀ t ∈ ts, raw t.id = (t.retries, t.retryDelay)) :
    parseTasks lib y' seen total (tasks.map (resaveTask raw)) = .ok (tasks.map (kept raw)) := by
  induction ts generalizing seen total tasks with
  | nil =>
    cases ok
    rfl
  | cons t ts ih =>
    simp only [Parser.parseTasks, bind_eq_ok, pure_eq_ok] at ok
    obtain ⟨task, parsed, rest, others, rfl⟩ := ok
    obtain ⟨first, later⟩ := List.forall_mem_cons.mp plain
    obtain ⟨here, there⟩ := List.forall_mem_cons.mp written
    obtain ⟨id, deps⟩ := parseTask_id parsed
    simp only [List.map_cons, Parser.parseTasks, bind_eq_ok, pure_eq_ok]
    refine ⟨_, follows.parseTask parsed first here, _, ?_, rfl⟩
    change Parser.parseTasks lib y' (task.id :: seen) (total + task.deps.length) (rest.map (resaveTask raw)) = .ok (rest.map (kept raw))
    rw [id, deps]
    exact ih others later there

/-- Whether a task is the same after a save. -/
theorem kept_eq_self {seen : List String} {total : Nat} {task : ParsedTask} (ok : parseTask y t lib seen total = .ok task)
    (written : raw t.id = (t.retries, t.retryDelay)) :
    kept raw task = task ↔ trimSpace t.when_ = "" ∧ (t.retryDelay = none → y.defaultRetryDelay = 0) := by
  have same := (parseTask_eq_ok.mp ok).2.2.2.2.2.2.2
  have condition : task.when_ = trimSpace t.when_ := by rw [same]; rfl
  have delay : task.retryDelay = t.retryDelay.getD y.defaultRetryDelay := by rw [same]; rfl
  have explicit : (raw task.id).2 = t.retryDelay := by rw [(parseTask_id ok).1, written]
  have fields : kept raw task = task ↔ task.when_ = "" ∧ task.retryDelay = t.retryDelay.getD 0 := by
    rw [kept, explicit]
    constructor
    · intro unchanged
      exact ⟨(congrArg ParsedTask.when_ unchanged).symm, (congrArg ParsedTask.retryDelay unchanged).symm⟩
    · rintro ⟨empty, zero⟩
      rw [← empty, ← zero]
  rw [fields, condition, delay]
  cases t.retryDelay <;> simp

/-- The retries that the view shows are the ones that are written. -/
theorem rawByID_listed {ts : List TaskYAML} (unique : (ts.map (·.id)).Nodup) (listed : t ∈ ts) :
    rawByID ts t.id = (t.retries, t.retryDelay) := by
  unfold rawByID
  cases found : ts.reverse.find? (·.id = t.id) with
  | none =>
    have missing := List.find?_eq_none.mp found t (List.mem_reverse.mpr listed)
    simp at missing
  | some u =>
    have member : u ∈ ts := List.mem_reverse.mp (List.mem_of_find?_eq_some found)
    have id : u.id = t.id := by simpa using List.find?_some found
    rw [List.inj_on_of_nodup_map unique member listed id]

end Tasks

/-! ### A definition that is saved as it is -/

theorem storedDate_eq_self {t : Time} : storedDate t = t ↔ FourDigits t := by
  have zero : FourDigits zeroTime := by decide +kernel
  unfold storedDate
  split
  · rename_i read
    exact ⟨fun _ => read, fun _ => rfl⟩
  · exact ⟨fun same => same ▸ zero, fun read => absurd read ‹_›⟩

theorem rfc3339Nano_ne_empty (t : Time) : Calendar.rfc3339Nano t ≠ "" := by
  intro empty
  have bytes := congrArg String.utf8ByteSize empty
  simp only [Calendar.rfc3339Nano, String.utf8ByteSize_append] at bytes
  have last : "Z".utf8ByteSize = 1 := by decide +kernel
  rw [last] at bytes
  exact absurd bytes (Nat.succ_ne_zero _)

theorem canonicalPolicy_again (policy : String) : trimSpace (canonicalPolicy (trimSpace policy)) = canonicalPolicy (trimSpace policy) ∧
    canonicalPolicy (canonicalPolicy (trimSpace policy)) = canonicalPolicy (trimSpace policy) := by
  unfold canonicalPolicy
  split
  · exact ⟨trimSpace_empty, if_neg (by decide)⟩
  · exact ⟨trimSpace_trimSpace policy, rfl⟩

theorem validExecutionPolicy_canonicalPolicy {policy : String} (valid : validExecutionPolicy policy = true) :
    validExecutionPolicy (canonicalPolicy policy) = true := by
  unfold canonicalPolicy
  split
  · rfl
  · exact valid

theorem activeRuns_activeRuns (n : Int) : activeRuns (activeRuns n) = activeRuns n := by
  unfold activeRuns
  split <;> simp_all

theorem activeRuns_within {n : Int} (valid : Within maxActiveRuns n) : Within maxActiveRuns (activeRuns n) := by
  unfold activeRuns
  split
  · exact ⟨by decide, by decide⟩
  · exact valid

/-- The settings that are rendered only with a URL or a group. -/
theorem notifyOut_eq {n : Notify} (notifies : Notifies n) : notifyOut n = if n.url = "" ∧ n.group = "" then none else some n := by
  have listed : n.on.filter isNotifyEvent = n.on := List.filter_eq_self.mpr notifies.on
  unfold notifyOut
  simp only [notifies.url, notifies.group, listed]
  by_cases idle : n.url = "" ∧ n.group = ""
  · rw [if_pos idle, if_neg (by simp [idle.1, idle.2])]
  · rw [if_neg idle, if_pos (by tauto)]

/-- What an editor keeps when nothing is edited. -/
structure Survives (y : DagYAML) (d : ParsedDAG) : Prop where
  timezone : d.timezone = ""
  startDate : FourDigits d.startDate
  maxActiveTasks : d.maxActiveTasks = 0
  triggerOnEvent : d.triggerOnEvent = []
  notify : d.notify.url = "" ∧ d.notify.group = "" → d.notify.on = [] ∧ d.notify.format = ""
  plain : ∀ t ∈ y.tasks, typeOf t ≠ "subdag"
  tasks : ∀ t ∈ y.tasks, trimSpace t.when_ = "" ∧ (t.retryDelay = none → y.defaultRetryDelay = 0)

/-- Two definitions that differ in their text alone. -/
def SameDAG (d d' : ParsedDAG) : Prop := d' = { d with definitionYAML := d'.definitionYAML }

theorem noNotify : Notifies {} := ⟨trimSpace_empty, by decide, by simp, .inl rfl, by decide, trimSpace_empty, by decide⟩

section Definition

variable {lib : Library} {now seen later : Time} {text : String} {y : DagYAML} {d : ParsedDAG}

theorem resave_eq (read : lib.decode text = some y) (plain : ∀ t ∈ y.tasks, t.foreach = []) (ok : parse lib now text = .ok d) :
    resave lib seen d = {
      dagID := d.dagID
      schedule := d.schedule
      startDate := Calendar.rfc3339Nano (storedDate d.startDate)
      catchup := d.catchup
      maxActiveRuns := d.maxActiveRuns
      executionPolicy := d.executionPolicy
      defaultRetries := d.defaultRetries
      sla := d.sla
      dagrunTimeout := d.dagrunTimeout
      tasks := d.tasks.map fun task => taskOut (editTask (rawByID y.tasks) task).submit
      triggerAfter := d.triggerAfter.filter (· ≠ "")
      notify := notifyOut d.notify } := by
  obtain ⟨written, short, built⟩ := (parse_eq_ok read).mp ok
  have accepted := (build_eq_ok plain).mp built
  obtain ⟨start, again⟩ := accepted.at_time seen
  have reparsed : parse lib seen text = .ok { d with startDate := start } :=
    (parse_eq_ok read).mpr ⟨written, short, (build_eq_ok plain).mpr again⟩
  have row : (rowOf d).definitionYAML = text := by
    rw [accepted.same]
    rfl
  unfold resave getDAG
  rw [row, reparsed, read]
  simp only [specToYAML, DagDetail.submit, rowOf, List.map_map, Option.elim_some]
  rfl

/-- The document that is read back after a save. -/
def resaved (y : DagYAML) (d : ParsedDAG) : DagYAML where
  dagID := d.dagID
  schedule := d.schedule
  startDate := Calendar.rfc3339Nano (storedDate d.startDate)
  catchup := d.catchup
  maxActiveRuns := d.maxActiveRuns
  executionPolicy := d.executionPolicy
  defaultRetries := d.defaultRetries
  sla := d.sla
  dagrunTimeout := d.dagrunTimeout
  tasks := d.tasks.map (resaveTask (rawByID y.tasks))
  triggerAfter := d.triggerAfter.filter (· ≠ "")
  notify := (notifyOut d.notify).getD {}

theorem resave_document (read : lib.decode text = some y) (plain : ∀ t ∈ y.tasks, t.foreach = []) (ok : parse lib now text = .ok d) :
    (resave lib seen d).document = resaved y d := by
  rw [resave_eq read plain ok, DagOut.document, resaved, List.map_map]
  rfl

/-- No sub-workflow is accepted again. -/
theorem resaved_plain {tasks : List ParsedTask} (ok : parseTasks lib (resaved y d) [] 0 (resaved y d).tasks = .ok tasks) :
    ∀ task ∈ d.tasks, task.type ≠ "subdag" := by
  intro task listed subdag
  have type : typeOf (resaveTask (rawByID y.tasks) task) = "subdag" := by
    change orDefault (trimSpace task.type) "shell" = "subdag"
    rw [subdag]
    decide +kernel
  have command : (resaveTask (rawByID y.tasks) task).command = "" := by rw [resaveTask_command, if_pos subdag]
  have every : ∀ u ∈ (resaved y d).tasks, ¬ (typeOf u = "subdag" ∧ u.command = "") := by
    refine (forall_mem_of_forall₂ (Q := fun _ => True) (parseTasks_forall ok) fun u _ ⟨_, _, accepted⟩ => ?_).mpr fun _ _ => trivial
    refine iff_of_true ?_ trivial
    intro ⟨subdag, empty⟩
    exact parseHTTP_subdag subdag empty _ (parseTask_eq_ok.mp accepted).2.2.2.2.2.1
  exact every _ (List.mem_map_of_mem listed) ⟨type, command⟩

variable (accepted : Accepted lib now text y d)
include accepted

theorem resaved_follows : Follows y (resaved y d) where
  dagID := by rw [resaved, accepted.same]; rfl
  workerGroup := rfl
  defaultRetries := by rw [resaved, accepted.same]; rfl
  defaultRetryDelay := rfl

theorem resaved_triggerAfter : (resaved y d).triggerAfter = d.triggerAfter := by
  change d.triggerAfter.filter (· ≠ "") = d.triggerAfter
  rw [collect_eq accepted.triggerAfter, List.filter_filter]
  simp

theorem resaved_parseTriggerAfter : parseTriggerAfter (resaved y d) = .ok d.triggerAfter := by
  unfold parseTriggerAfter
  rw [resaved_triggerAfter accepted, (resaved_follows accepted).dagID]
  exact collect_again accepted.triggerAfter

theorem resaved_parseNotify :
    parseNotify d.dagID (resaved y d).notify = .ok (if d.notify.url = "" ∧ d.notify.group = "" then {} else d.notify) := by
  have notifies := parseNotify_ok accepted.notify
  have settings : (resaved y d).notify = (notifyOut d.notify).getD {} := rfl
  rw [settings, notifyOut_eq notifies]
  split
  · exact noNotify.again _
  · exact notifies.again _

theorem resaved_written : ∀ t ∈ y.tasks, rawByID y.tasks t.id = (t.retries, t.retryDelay) := fun _ listed =>
  rawByID_listed (parseTasks_nodup accepted.tasks).1 listed

theorem plain_iff : (∀ t ∈ y.tasks, typeOf t ≠ "subdag") ↔ ∀ task ∈ d.tasks, task.type ≠ "subdag" := by
  refine forall_mem_of_forall₂ (parseTasks_forall accepted.tasks) fun t task ⟨_, _, ok⟩ => ?_
  rw [(parseTask_eq_ok.mp ok).2.2.2.2.2.2.2]
  rfl

theorem kept_iff : (∀ t ∈ y.tasks, trimSpace t.when_ = "" ∧ (t.retryDelay = none → y.defaultRetryDelay = 0)) ↔
    d.tasks.map (kept (rawByID y.tasks)) = d.tasks := by
  have written := (List.forall₂_and_left _ _).mpr ⟨resaved_written accepted, parseTasks_forall accepted.tasks⟩
  rw [forall_mem_of_forall₂ written fun t task ⟨raw, _, _, ok⟩ => (kept_eq_self ok raw).symm]
  conv_rhs => rhs; rw [← List.map_id d.tasks]
  rw [List.map_inj_left]
  rfl

theorem resaved_header (timezone : d.timezone = "") : Header lib (resaved y d) := by
  have header := accepted.header
  have follows := resaved_follows accepted
  have utc : trimSpace y.timezone = "" := by
    rw [accepted.same] at timezone
    exact timezone
  have schedule : (resaved y d).schedule = y.schedule := by rw [resaved, accepted.same]; rfl
  have runs : (resaved y d).maxActiveRuns = activeRuns y.maxActiveRuns := by rw [resaved, accepted.same]; rfl
  have policy : (resaved y d).executionPolicy = canonicalPolicy (trimSpace y.executionPolicy) := by rw [resaved, accepted.same]; rfl
  have deadlines : (resaved y d).sla = y.sla ∧ (resaved y d).dagrunTimeout = y.dagrunTimeout := by
    rw [resaved, accepted.same]
    exact ⟨rfl, rfl⟩
  constructor
  case dagID => exact follows.dagID ▸ header.dagID
  case short => exact follows.dagID ▸ header.short
  case pattern => exact follows.dagID ▸ header.pattern
  case timezone => exact .inl trimSpace_empty
  case schedule =>
    have valid := header.schedule
    rw [utc] at valid
    have dropped : (resaved y d).timezone = "" := rfl
    rw [schedule, dropped, trimSpace_empty]
    exact valid
  case maxActiveRuns => exact runs ▸ activeRuns_within header.maxActiveRuns
  case maxActiveTasks => exact (by decide : Within maxTasks 0)
  case executionPolicy =>
    rw [policy, (canonicalPolicy_again _).1]
    exact validExecutionPolicy_canonicalPolicy header.executionPolicy
  case defaultRetries => exact follows.defaultRetries ▸ header.defaultRetries
  case defaultRetryDelay => exact (by decide : Within maxDurationSeconds 0)
  case deadlines =>
    rw [deadlines.1, deadlines.2]
    exact header.deadlines
  case tasks =>
    have length : (resaved y d).tasks.length = y.tasks.length := by
      rw [(parseTasks_forall accepted.tasks).length_eq]
      exact List.length_map _
    exact length ▸ header.tasks
  case triggerAfter =>
    rw [resaved_triggerAfter accepted, collect_eq accepted.triggerAfter]
    exact (List.length_filter_le _ _).trans header.triggerAfter

theorem resaved_parseTasks (plain : ∀ task ∈ d.tasks, task.type ≠ "subdag") :
    parseTasks lib (resaved y d) [] 0 (resaved y d).tasks = .ok (d.tasks.map (kept (rawByID y.tasks))) :=
  (resaved_follows accepted).parseTasks accepted.tasks plain (resaved_written accepted)

variable {saved : String} (dates : lib.parseDate (Calendar.rfc3339Nano (storedDate d.startDate)) "" = some (storedDate d.startDate))
include dates

omit accepted in
theorem resaved_startDate :
    parseStartDate lib later (resaved y d).startDate (trimSpace (resaved y d).timezone) = some (storedDate d.startDate) := by
  change parseStartDate lib later (Calendar.rfc3339Nano (storedDate d.startDate)) (trimSpace "") = _
  rw [parseStartDate, if_neg (rfc3339Nano_ne_empty _), trimSpace_empty]
  exact dates

/-- What is lost differs in the saved definition, or has it refused. -/
theorem survives_of_accepted (again : Accepted lib later saved (resaved y d) { d with definitionYAML := saved }) : Survives y d where
  timezone := (congrArg ParsedDAG.timezone again.same).trans trimSpace_empty
  startDate := storedDate_eq_self.mp (Option.some.inj ((resaved_startDate dates).symm.trans again.startDate))
  maxActiveTasks := congrArg ParsedDAG.maxActiveTasks again.same
  triggerOnEvent := (Except.ok.inj again.triggerOnEvent).symm
  notify := by
    intro idle
    have same := Except.ok.inj (again.notify.symm.trans (resaved_parseNotify accepted))
    rw [if_pos idle] at same
    exact ⟨congrArg Notify.on same, congrArg Notify.format same⟩
  plain := (plain_iff accepted).mpr (resaved_plain again.tasks)
  tasks := (kept_iff accepted).mpr (Except.ok.inj ((resaved_parseTasks accepted (resaved_plain again.tasks)).symm.trans again.tasks))

/-- A definition that loses nothing is accepted as it was. -/
theorem accepted_of_survives (survives : Survives y d) : Accepted lib later saved (resaved y d) { d with definitionYAML := saved } where
  header := resaved_header accepted survives.timezone
  startDate := (resaved_startDate dates).trans (congrArg some (storedDate_eq_self.mpr survives.startDate))
  triggerAfter := resaved_parseTriggerAfter accepted
  triggerOnEvent := by
    change _ = Except.ok d.triggerOnEvent
    rw [survives.triggerOnEvent]
    rfl
  notify := by
    refine (resaved_parseNotify accepted).trans (congrArg Except.ok ?_)
    split
    · rename_i idle
      obtain ⟨on, format⟩ := survives.notify idle
      change (⟨"", [], "", ""⟩ : Notify) = ⟨d.notify.url, d.notify.on, d.notify.format, d.notify.group⟩
      rw [idle.1, idle.2, on, format]
    · rfl
  tasks := by
    rw [resaved_parseTasks accepted ((plain_iff accepted).mp survives.plain), (kept_iff accepted).mp survives.tasks]
  graph := by
    rw [(resaved_follows accepted).dagID]
    exact accepted.graph
  same := by
    have runs : activeRuns d.maxActiveRuns = d.maxActiveRuns := by
      rw [accepted.same]
      exact activeRuns_activeRuns y.maxActiveRuns
    have policy : canonicalPolicy (trimSpace d.executionPolicy) = d.executionPolicy := by
      rw [accepted.same]
      change canonicalPolicy (trimSpace (canonicalPolicy (trimSpace y.executionPolicy))) = canonicalPolicy (trimSpace y.executionPolicy)
      rw [(canonicalPolicy_again _).1, (canonicalPolicy_again _).2]
    change ({ d with definitionYAML := saved } : ParsedDAG) =
      { d with
        definitionYAML := saved
        timezone := trimSpace ""
        maxActiveRuns := activeRuns d.maxActiveRuns
        maxActiveTasks := 0
        executionPolicy := canonicalPolicy (trimSpace d.executionPolicy) }
    rw [trimSpace_empty, runs, policy, ← survives.timezone, ← survives.maxActiveTasks]

end Definition

/-- The YAML of a definition is read back as what it was written from. -/
structure Rendered (lib : Library) (marshal : DagOut → String) (out : DagOut) : Prop where
  decodes : lib.decode (marshal out) = some out.document
  written : marshal out ≠ ""

/-- Loading a definition and saving it as it is gives the same DAG exactly when the definition has
none of what the editor drops, and its text does not grow beyond the limit. -/
theorem resave_same_iff (lib : Library) (marshal : DagOut → String) (now seen later : Time) (text : String) (y : DagYAML) (d : ParsedDAG)
    (read : lib.decode text = some y) (plain : ∀ t ∈ y.tasks, t.foreach = []) (ok : parse lib now text = .ok d)
    (rendered : Rendered lib marshal (resave lib seen d))
    (dates : lib.parseDate (Calendar.rfc3339Nano (storedDate d.startDate)) "" = some (storedDate d.startDate)) :
    (∃ d', parse lib later (marshal (resave lib seen d)) = .ok d' ∧ SameDAG d d') ↔
      Survives y d ∧ (marshal (resave lib seen d)).utf8ByteSize ≤ maxDefinitionBytes := by
  have accepted := (build_eq_ok plain).mp ((parse_eq_ok read).mp ok).2.2
  have document : lib.decode (marshal (resave lib seen d)) = some (resaved y d) := by
    rw [rendered.decodes, resave_document read plain ok]
  have noFanOut : ∀ t ∈ (resaved y d).tasks, t.foreach = [] := by
    intro t listed
    obtain ⟨task, _, rfl⟩ := List.mem_map.mp listed
    rfl
  constructor
  · rintro ⟨d', parsed, same⟩
    obtain ⟨_, short, built⟩ := (parse_eq_ok document).mp parsed
    have again := (build_eq_ok noFanOut).mp built
    have saved : d'.definitionYAML = marshal (resave lib seen d) := congrArg ParsedDAG.definitionYAML again.same
    rw [same, saved] at again
    exact ⟨survives_of_accepted accepted dates again, short⟩
  · rintro ⟨survives, short⟩
    have again : Accepted lib later (marshal (resave lib seen d)) (resaved y d) { d with definitionYAML := marshal (resave lib seen d) } :=
      accepted_of_survives accepted dates survives
    exact ⟨_, (parse_eq_ok document).mpr ⟨rendered.written, short, (build_eq_ok noFanOut).mpr again⟩, rfl⟩

/-! ### A nightly run -/

def nightlyText : String := "dag_id: nightly\nschedule: '0 2 * * *'\ntimezone: Asia/Shanghai\nstart_date: '2026-03-01'\ntasks:\n  - id: load\n    command: make load\n"

/-- At two in the morning in Shanghai. -/
def nightly : DagYAML where
  dagID := "nightly"
  schedule := "0 2 * * *"
  timezone := "Asia/Shanghai"
  startDate := "2026-03-01"
  tasks := [{ id := "load", command := "make load" }]

def savedText : String :=
  "dag_id: nightly\nschedule: 0 2 * * *\nstart_date: \"2026-02-28T16:00:00Z\"\ncatchup: false\nmax_active_runs: 1\ntasks:\n    - id: load\n      type: shell\n      command: make load\n      pool: default\n      trigger_rule: all_success\n"

/-- At two in the morning in UTC. -/
def savedNightly : DagYAML where
  dagID := "nightly"
  schedule := "0 2 * * *"
  startDate := "2026-02-28T16:00:00Z"
  maxActiveRuns := 1
  tasks := [{ id := "load", type := "shell", command := "make load", pool := "default", triggerRule := "all_success" }]

def nightlyStart : Time := 20513 * Calendar.day - 8 * 3600 * Calendar.second

def nightlyLibrary : Library where
  decode text := if text = nightlyText then some nightly else if text = savedText then some savedNightly else none
  loadLocation zone := zone == "Asia/Shanghai"
  parseSchedule spec _ := spec == "0 2 * * *"
  parseDate date zone :=
    if date = "2026-03-01" ∧ zone = "Asia/Shanghai" then some nightlyStart
    else if date = "2026-02-28T16:00:00Z" then some nightlyStart else none
  validOffset offset := offset == ""
  fill _ _ text := text

def loadTask : ParsedTask where
  id := "load"
  type := "shell"
  command := "make load"
  deps := []
  pool := "default"
  priority := 0
  retries := 0
  retryDelay := 0
  retryBackoff := ""
  retryDelayMax := 0
  timeout := 0
  sla := 0
  triggerRule := "all_success"
  workerGroup := ""
  dependsOnDag := none
  subdag := ""
  when_ := ""
  http := none
  conn := ""
  project := ""

def nightlyDAG (timezone text : String) : ParsedDAG where
  dagID := "nightly"
  schedule := "0 2 * * *"
  timezone
  startDate := nightlyStart
  catchup := false
  maxActiveRuns := 1
  maxActiveTasks := 0
  executionPolicy := ""
  defaultRetries := 0
  sla := 0
  dagrunTimeout := 0
  definitionYAML := text
  triggerAfter := []
  triggerOnEvent := []
  notify := {}
  tasks := [loadTask]

theorem nightly_parses : parse nightlyLibrary 0 nightlyText = .ok (nightlyDAG "Asia/Shanghai" nightlyText) := by decide +kernel

theorem savedNightly_parses : parse nightlyLibrary 0 savedText = .ok (nightlyDAG "" savedText) := by decide +kernel

theorem nightly_rendered : Rendered nightlyLibrary (fun _ => savedText) (resave nightlyLibrary 0 (nightlyDAG "Asia/Shanghai" nightlyText)) where
  decodes := by decide +kernel
  written := by decide +kernel

theorem savedNightly_rendered : Rendered nightlyLibrary (fun _ => savedText) (resave nightlyLibrary 0 (nightlyDAG "" savedText)) where
  decodes := by decide +kernel
  written := by decide +kernel

theorem savedNightly_survives : Survives savedNightly (nightlyDAG "" savedText) where
  timezone := rfl
  startDate := by decide +kernel
  maxActiveTasks := rfl
  triggerOnEvent := rfl
  notify _ := ⟨rfl, rfl⟩
  plain := by decide +kernel
  tasks := by decide +kernel

/-- The definition that the editor has written is kept as it is from then on. -/
theorem savedNightly_stays :
    ∃ d', parse nightlyLibrary 0 savedText = .ok d' ∧ SameDAG (nightlyDAG "" savedText) d' :=
  (resave_same_iff nightlyLibrary (fun _ => savedText) 0 0 0 savedText savedNightly (nightlyDAG "" savedText) (by decide +kernel)
    (by decide +kernel) savedNightly_parses savedNightly_rendered (by decide +kernel)).mpr ⟨savedNightly_survives, by decide +kernel⟩

/-- Saved as it is, the nightly run moves from Shanghai's two o'clock to UTC's. -/
theorem resave_loses_timezone : ¬ ∀ (lib : Library) (marshal : DagOut → String) (now seen later : Time) (text : String) (y : DagYAML)
    (d : ParsedDAG), lib.decode text = some y → (∀ t ∈ y.tasks, t.foreach = []) → parse lib now text = .ok d →
      Rendered lib marshal (resave lib seen d) →
      lib.parseDate (Calendar.rfc3339Nano (storedDate d.startDate)) "" = some (storedDate d.startDate) →
      ∃ d', parse lib later (marshal (resave lib seen d)) = .ok d' ∧ SameDAG d d' := by
  intro preserves
  obtain ⟨d', parsed, same⟩ := preserves nightlyLibrary (fun _ => savedText) 0 0 0 nightlyText nightly
    (nightlyDAG "Asia/Shanghai" nightlyText) (by decide +kernel) (by decide +kernel) nightly_parses nightly_rendered (by decide +kernel)
  have moved : nightlyDAG "" savedText = d' := Except.ok.inj (savedNightly_parses.symm.trans parsed)
  have zone : "" = "Asia/Shanghai" := congrArg ParsedDAG.timezone (moved.trans same)
  exact absurd zone (by decide)

end Cronova.Api
