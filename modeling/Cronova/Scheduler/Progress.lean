import Cronova.Parser.Dependencies
import Cronova.Scheduler.Run

/-! Deadlock freedom of the trigger rules: when the block propagation of `processRun` has
ended and no attempt is in flight, the run is over or some task is ready. -/

set_option autoImplicit false

namespace Cronova.Scheduler

open Model Store Process
open Calendar (Time)

/-- The task waits for its trigger rule. -/
def waiting (byTask : ByTask) (t : Task) : Bool := (byTask.get t.id).any (·.state == .scheduled)

/-- No waiting task is blocked: the fixpoint of the block propagation. -/
def Settled (tasks : List Task) (byTask : ByTask) : Prop :=
  ∀ t ∈ tasks, waiting byTask t = true → (taskGate t byTask).blocked = false

/-- Every task has its instance. -/
def Covers (tasks : List Task) (byTask : ByTask) : Prop := ∀ t ∈ tasks, (byTask.get t.id).isSome

theorem Covers.set {tasks : List Task} {byTask : ByTask} (covers : Covers tasks byTask) (ti : TaskInstance) :
    Covers tasks (byTask.set ti) := by
  intro t member
  rw [ByTask.get_set]
  split
  · simpa using covers t member
  · exact covers t member

/-- What one task of a round can do: nothing, or take the task out of `scheduled`. -/
inductive Blocks (acc : ByTask × Bool) (t : Task) : ByTask × Bool → Prop where
  | passes (unblocked : waiting acc.1 t = true → (taskGate t acc.1).blocked = false) : Blocks acc t acc
  | blocks {ti : TaskInstance} (now : Time) (found : acc.1.get t.id = some ti) (scheduled : ti.state = .scheduled)
      (blocked : (taskGate t acc.1).blocked = true) :
      Blocks acc t (acc.1.set { ti with state := .upstreamFailed, finishedAt := some now }, true)

theorem blockTask_safe (acc : ByTask × Bool) (t : Task) :
    (blockTask acc t).Safe (Prog.blind fun _ => True) (fun r _ => ∀ after, r = .ok after → Blocks acc t after) () := by
  unfold blockTask
  split
  · rename_i absent
    rintro after ⟨rfl⟩
    exact .passes (by simp [waiting, absent])
  · rename_i ti found
    split
    · rename_i moved
      rintro after ⟨rfl⟩
      exact .passes (by simp [waiting, found, moved])
    · rename_i scheduled
      split
      · rename_i blocked
        intro _ _ _
        refine ⟨trivial, fun now _ _ _ => ?_⟩
        intro _ _ _
        refine ⟨trivial, fun reply _ _ _ => ?_⟩
        cases reply with
        | error e => rintro after ⟨⟩
        | ok u =>
          rintro after ⟨rfl⟩
          exact .blocks now found (not_not.mp scheduled) blocked
      · rename_i unblocked
        rintro after ⟨rfl⟩
        exact .passes fun _ => by simpa using unblocked

/-- The number of tasks that still wait: the measure of the block propagation. -/
def waitingCount (tasks : List Task) (byTask : ByTask) : Nat := tasks.countP (waiting byTask)

theorem waiting_set {byTask : ByTask} {ti : TaskInstance} {state : TaskState} {now : Time} {task : TaskID}
    (found : byTask.get task = some ti) (left : state ≠ .scheduled) (u : Task) :
    waiting (byTask.set { ti with state, finishedAt := some now }) u = (waiting byTask u && u.id != task) := by
  obtain rfl := (ByTask.get_some found).2
  unfold waiting
  rw [ByTask.get_set]
  by_cases same : u.id = ti.taskID
  · simp [same, found, left]
  · simp [same]

/-- The measure drops with every task that is blocked. -/
theorem waitingCount_set {tasks : List Task} {byTask : ByTask} {ti : TaskInstance} (now : Time) {t : Task}
    (member : t ∈ tasks) (found : byTask.get t.id = some ti) (scheduled : ti.state = .scheduled) :
    waitingCount tasks (byTask.set { ti with state := .upstreamFailed, finishedAt := some now }) <
      waitingCount tasks byTask := by
  have here : waiting byTask t = true := by simp [waiting, found, scheduled]
  have gone : waiting (byTask.set { ti with state := .upstreamFailed, finishedAt := some now }) t = false := by
    simp [waiting_set found]
  have fewer : ∀ u ∈ tasks, waiting (byTask.set { ti with state := .upstreamFailed, finishedAt := some now }) u = true →
      waiting byTask u = true := by
    intro u _ still
    rw [waiting_set found (by decide)] at still
    exact (Bool.and_eq_true_iff.mp still).1
  unfold waitingCount
  obtain ⟨before, after, rfl⟩ := List.append_of_mem member
  simp only [List.countP_append, List.countP_cons, here, gone]
  have left := List.countP_mono_left (l := before) fun u inside => fewer u (List.mem_append_left _ inside)
  have right := List.countP_mono_left (l := after)
    fun u inside => fewer u (List.mem_append_right _ (List.mem_cons_of_mem _ inside))
  simp only [if_true]
  simp
  omega

/-- One round: either it changed nothing and everything is settled, or the measure dropped. -/
theorem round_safe (tasks : List Task) (byTask : ByTask) :
    (Prog.fold blockTask tasks (byTask, false)).Safe (Prog.blind fun _ => True)
      (fun r _ => ∀ after, r = .ok after → (after = (byTask, false) ∧ Settled tasks byTask) ∨
        (after.2 = true ∧ waitingCount tasks after.1 < waitingCount tasks byTask)) () := by
  -- of the tasks already passed: nothing changed and none is blocked, or the measure dropped
  refine Prog.Safe.fold (fun rest acc _ => ∃ passed, tasks = passed ++ rest ∧
      ((acc = (byTask, false) ∧ Settled passed byTask) ∨
        (acc.2 = true ∧ waitingCount tasks acc.1 < waitingCount tasks byTask)))
    ⟨[], rfl, .inl ⟨rfl, by simp [Settled]⟩⟩ ?_ ?_
  · rintro t rest acc _ ⟨passed, rfl, progress⟩
    refine (blockTask_safe acc t).mono fun r _ outcome => ?_
    cases r with
    | error e => rintro after ⟨⟩
    | ok after =>
      refine ⟨passed ++ [t], by simp, ?_⟩
      cases outcome after rfl with
      | passes unblocked =>
        rcases progress with ⟨rfl, settled⟩ | dropped
        · refine .inl ⟨rfl, fun u member => ?_⟩
          rcases List.mem_append.mp member with old | new
          · exact settled u old
          · obtain rfl := List.mem_singleton.mp new
            exact unblocked
        · exact .inr dropped
      | blocks now found scheduled blocked =>
        have drop := waitingCount_set now (show t ∈ passed ++ t :: rest by simp) found scheduled
        rcases progress with ⟨rfl, _⟩ | ⟨_, dropped⟩
        · exact .inr ⟨rfl, drop⟩
        · exact .inr ⟨rfl, drop.trans dropped⟩
  · rintro acc _ ⟨passed, rfl, progress⟩
    rintro after ⟨rfl⟩
    rw [List.append_nil] at progress ⊢
    exact progress

/-- The loop ends at its fixpoint: it has one round more than there are tasks that wait. -/
theorem propagateBlocks_settles {tasks : List Task} {rounds : Nat} {byTask : ByTask}
    (enough : waitingCount tasks byTask < rounds) :
    (propagateBlocks tasks rounds byTask).Safe (Prog.blind fun _ => True)
      (fun r _ => ∀ after, r = .ok after → Settled tasks after) () := by
  induction rounds generalizing byTask with
  | zero => exact absurd enough (Nat.not_lt_zero _)
  | succ rounds ih =>
    refine Prog.Safe.bind _ (round_safe tasks byTask) ?_ (by rintro e _ _ after ⟨⟩)
    rintro ⟨after, changed⟩ _ outcome
    rcases outcome _ rfl with ⟨same, settled⟩ | ⟨rfl, dropped⟩
    · obtain ⟨rfl, rfl⟩ := Prod.mk.inj same
      rintro final ⟨rfl⟩
      exact settled
    · exact ih (by simp only at dropped; omega)

/-- What every change of a task keeps, the propagation keeps. -/
theorem propagateBlocks_keeps {tasks : List Task} (keep : ByTask → Prop)
    (round : ∀ t ∈ tasks, ∀ acc after, keep acc.1 → Blocks acc t after → keep after.1) (rounds : Nat) {byTask : ByTask}
    (start : keep byTask) :
    (propagateBlocks tasks rounds byTask).Safe (Prog.blind fun _ => True)
      (fun r _ => ∀ after, r = .ok after → keep after) () := by
  induction rounds generalizing byTask with
  | zero =>
    rintro after ⟨rfl⟩
    exact start
  | succ rounds ih =>
    refine Prog.Safe.bind (fun r _ => ∀ after, r = .ok after → keep after.1) ?_ ?_ (by rintro e _ _ after ⟨⟩)
    · refine Prog.Safe.fold (fun rest acc _ => (∀ t ∈ rest, t ∈ tasks) ∧ keep acc.1) ⟨fun _ member => member, start⟩ ?_ ?_
      · rintro t rest acc _ ⟨among, kept⟩
        refine (blockTask_safe acc t).mono fun r _ outcome => ?_
        cases r with
        | error e => rintro after ⟨⟩
        | ok after => exact ⟨fun u member => among u (.tail _ member), round t (among t (.head _)) acc after kept (outcome after rfl)⟩
      · rintro acc _ ⟨_, kept⟩ after ⟨rfl⟩
        exact kept
    · rintro ⟨after, changed⟩ _ kept
      cases changed with
      | true => exact ih (kept _ rfl)
      | false =>
        rintro final ⟨rfl⟩
        exact kept _ rfl

theorem Covers.blocks {tasks : List Task} {acc after : ByTask × Bool} {t : Task} (covers : Covers tasks acc.1)
    (blocks : Blocks acc t after) : Covers tasks after.1 := by
  cases blocks with
  | passes _ => exact covers
  | blocks now found scheduled blocked => exact covers.set _

theorem waitingCount_le (tasks : List Task) (byTask : ByTask) : waitingCount tasks byTask ≤ tasks.length :=
  List.countP_le_length

/-- At the fixpoint a waiting task leads, along its unfinished dependencies, to a ready one. -/
theorem exists_ready {tasks : List Task} {byTask : ByTask} (formed : Parser.WellFormed tasks)
    (covers : Covers tasks byTask) (settled : Settled tasks byTask)
    (quiet : ∀ t ∈ tasks, ∀ ti, byTask.get t.id = some ti → ti.state.isPending = false)
    {t : Task} (member : t ∈ tasks) (waits : waiting byTask t = true) :
    ∃ u ∈ tasks, waiting byTask u = true ∧ (taskGate u byTask).ready = true := by
  -- the induction follows the dependencies downwards, which detectCycle made well-founded
  have acc := formed.acyclic t member
  generalize named : t.id = id at acc
  induction acc generalizing t with
  | intro id _ ih =>
    subst named
    by_cases finished : ∀ d ∈ t.deps.map fun dep => (byTask.get dep).map (·.state), d.any (·.isTerminal) = true
    · rcases evalTriggerRule_settled t.triggerRule finished with ready | blocked
      · exact ⟨t, member, waits, ready⟩
      · exact absurd blocked (by simpa [taskGate] using settled t member waits)
    · simp only [List.mem_map, not_forall] at finished
      obtain ⟨_, ⟨dep, listed, rfl⟩, unfinished⟩ := finished
      obtain ⟨u, known, rfl⟩ := List.mem_map.mp (formed.known t member dep listed)
      obtain ⟨ti, found⟩ := Option.isSome_iff_exists.mp (covers u known)
      have scheduled : ti.state = .scheduled := by
        rcases TaskState.scheduled_or_terminal (quiet u known ti found) with scheduled | terminal
        · exact scheduled
        · simp [found, terminal] at unfinished
      exact ih u.id (by rw [formed.adjacency_eq member]; exact listed) known
        (by simp [waiting, found, scheduled]) rfl

/-- A run cannot get stuck: after the block propagation, with no attempt in flight and no
retry pending, every task is terminal or some scheduled task is ready. The store may answer
the writes of the loop in any way. -/
theorem run_never_stuck {S : Type} {tasks : List Task} (accepted : Parser.checkTasks tasks = .ok ()) {byTask : ByTask}
    (covers : Covers tasks byTask) (store : Handler statements S) (s : S) {after : ByTask}
    (ran : ((propagateBlocks tasks (tasks.length + 1) byTask).run store s).1 = .ok after)
    (quiet : ∀ t ∈ tasks, ∀ ti, after.get t.id = some ti → ti.state.isPending = false) :
    (∀ t ∈ tasks, ∀ ti, after.get t.id = some ti → ti.state.isTerminal = true) ∨
      ∃ t ∈ tasks, ∃ ti, after.get t.id = some ti ∧ ti.state = .scheduled ∧ (taskGate t after).ready = true := by
  have enough := Nat.lt_succ_of_le (waitingCount_le tasks byTask)
  have settled := (propagateBlocks_settles enough).run store s after ran
  have covered := (propagateBlocks_keeps (Covers tasks) (fun _ _ _ _ => Covers.blocks) _ covers).run store s after ran
  by_cases waits : ∃ t ∈ tasks, waiting after t = true
  · obtain ⟨t, member, waits⟩ := waits
    obtain ⟨u, known, still, ready⟩ :=
      exists_ready (Parser.checkTasks_wellFormed accepted) covered settled quiet member waits
    obtain ⟨ti, found, scheduled⟩ := (Option.any_eq_true _ _).mp still
    exact .inr ⟨u, known, ti, found, by simpa using scheduled, ready⟩
  · refine .inl fun t member ti found => ?_
    rcases TaskState.scheduled_or_terminal (quiet t member ti found) with scheduled | terminal
    · exact absurd ⟨t, member, by simp [waiting, found, scheduled]⟩ waits
    · exact terminal

section Witness

/-- A failed extraction, a load that waits for its success and a cleanup that runs in any case. -/
def sampleTasks : List Task :=
  [{ id := "extract" }, { id := "load", deps := ["extract"] },
    { id := "cleanup", deps := ["load"], triggerRule := .allDone }]

def sampleInstances : ByTask :=
  [{ runID := .manual "etl" 0, taskID := "extract", state := .failed },
    { runID := .manual "etl" 0, taskID := "load" }, { runID := .manual "etl" 0, taskID := "cleanup" }]

def sampleWorld : World :=
  { db := { DB.empty with taskInstances := ⟨sampleInstances, by decide⟩ } }

def blockedLoad : TaskInstance :=
  { runID := .manual "etl" 0, taskID := "load", state := .upstreamFailed, finishedAt := some 0 }

/-- The load is blocked by the failed extraction and leaves the cleanup ready. -/
theorem sample_run_goes_on :
    ((propagateBlocks sampleTasks (sampleTasks.length + 1) sampleInstances).run (World.respond {}) sampleWorld).1 =
      .ok (sampleInstances.set blockedLoad) ∧
    ((∀ t ∈ sampleTasks, ∀ ti, (sampleInstances.set blockedLoad).get t.id = some ti → ti.state.isTerminal = true) ∨
      ∃ t ∈ sampleTasks, ∃ ti, (sampleInstances.set blockedLoad).get t.id = some ti ∧ ti.state = .scheduled ∧
        (taskGate t (sampleInstances.set blockedLoad)).ready = true) := by
  have ran : ((propagateBlocks sampleTasks (sampleTasks.length + 1) sampleInstances).run (World.respond {})
      sampleWorld).1 = .ok (sampleInstances.set blockedLoad) := by rfl
  have quiet : ∀ t ∈ sampleTasks,
      ((sampleInstances.set blockedLoad).get t.id).all (fun ti => !ti.state.isPending) = true := by decide
  refine ⟨ran, run_never_stuck ?_ ?_ _ _ ran fun t member ti found => ?_⟩
  · rfl
  · unfold Covers; decide
  · simpa [found] using quiet t member

end Witness

end Cronova.Scheduler
