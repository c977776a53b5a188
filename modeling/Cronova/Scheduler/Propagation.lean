import Cronova.Model.Verdict
import Cronova.Scheduler.Progress
import Mathlib.Logic.Relation

/-! The block propagation as a rewriting of task states.

One step takes a scheduled task whose gate is blocked to `upstream_failed`. Steps at different
tasks commute, since a blocked gate stays blocked, so all orders end in the same states. -/

set_option autoImplicit false

namespace Cronova.Scheduler

open Model Store Process
open Calendar (Time)
open Relation (ReflTransGen ReflGen)

/-! ### Normal forms -/

section Normal

variable {S : Type} {r : S → S → Prop}

/-- No step leads away. -/
def Normal (r : S → S → Prop) (s : S) : Prop := ∀ t, ¬ r s t

theorem Normal.stays {s t : S} (normal : Normal r s) (reached : ReflTransGen r s t) : s = t := by
  rcases reached.cases_head with same | ⟨next, first, _⟩
  · exact same
  · exact absurd first (normal next)

/-- If any two steps can be brought together by one step each, all normal forms of a state are equal. -/
theorem Normal.unique (diamond : ∀ a b c, r a b → r a c → ∃ d, ReflGen r b d ∧ ReflTransGen r c d) {s t u : S}
    (left : ReflTransGen r s t) (right : ReflTransGen r s u) (normal : Normal r t) (normal' : Normal r u) : t = u := by
  obtain ⟨v, fromLeft, fromRight⟩ := Relation.church_rosser diamond left right
  rw [normal.stays fromLeft, normal'.stays fromRight]

end Normal

/-! ### Blocking as a rewriting -/

section Rewriting

/-- The states that the rules read; a task without an instance has none. -/
def ByTask.states (byTask : ByTask) (task : TaskID) : Option TaskState := (byTask.get task).map (·.state)

/-- What the rule of a task says in these states. -/
def gateIn (t : Task) (states : TaskID → Option TaskState) : Gate := evalTriggerRule t.triggerRule (t.deps.map states)

theorem taskGate_eq (t : Task) (byTask : ByTask) : taskGate t byTask = gateIn t byTask.states := rfl

/-- A scheduled task whose gate is blocked fails with its upstreams. -/
inductive BlockStep (tasks : List Task) (states : TaskID → Option TaskState) : (TaskID → Option TaskState) → Prop where
  | block {t : Task} (member : t ∈ tasks) (scheduled : states t.id = some .scheduled)
      (blocked : (gateIn t states).blocked = true) :
      BlockStep tasks states (Function.update states t.id (some .upstreamFailed))

variable {tasks : List Task} {states : TaskID → Option TaskState}

/-- A gate that is blocked stays blocked while another task fails. -/
theorem gateIn_update {t : Task} {id : TaskID} (scheduled : states id = some .scheduled)
    (blocked : (gateIn t states).blocked = true) :
    (gateIn t (Function.update states id (some .upstreamFailed))).blocked = true := by
  have resolves : Resolves (t.deps.map states) (t.deps.map (Function.update states id (some .upstreamFailed))) := by
    apply List.forall₂_map_left_iff.mpr
    apply List.forall₂_map_right_iff.mpr
    apply List.forall₂_same.mpr
    intro dep _
    by_cases own : dep = id
    · subst own
      rw [Function.update_self, scheduled]
      exact .inr ⟨rfl, rfl⟩
    · rw [Function.update_of_ne own]
      exact .inl rfl
  rw [gateIn, evalTriggerRule_stable resolves (.inr blocked)]
  exact blocked

/-- Two steps from the same states come together. -/
theorem BlockStep.diamond {s t u : TaskID → Option TaskState} (left : BlockStep tasks s t) (right : BlockStep tasks s u) :
    ∃ v, ReflGen (BlockStep tasks) t v ∧ ReflTransGen (BlockStep tasks) u v := by
  cases left with
  | @block a member scheduled blocked =>
    cases right with
    | @block b member' scheduled' blocked' =>
      by_cases same : a.id = b.id
      · rw [same]
        exact ⟨_, .refl, .refl⟩
      · -- each of the two tasks can still be blocked after the other
        have first : BlockStep tasks (Function.update s b.id (some .upstreamFailed)) _ :=
          .block member (by rw [Function.update_of_ne same]; exact scheduled) (gateIn_update scheduled' blocked)
        have second : BlockStep tasks (Function.update s a.id (some .upstreamFailed)) _ :=
          .block member' (by rw [Function.update_of_ne (Ne.symm same)]; exact scheduled') (gateIn_update scheduled blocked')
        rw [Function.update_comm (Ne.symm same)] at first
        exact ⟨_, .single second, .single first⟩

/-- The steps do not depend on how the tasks are listed. -/
theorem BlockStep.perm {tasks' : List Task} {s t : TaskID → Option TaskState} (perm : tasks'.Perm tasks)
    (step : BlockStep tasks' s t) : BlockStep tasks s t := by
  cases step with
  | block member scheduled blocked => exact .block (perm.mem_iff.mp member) scheduled blocked

end Rewriting

/-! ### The loop -/

section Loop

variable {tasks : List Task} {byTask : ByTask}

theorem states_set {ti : TaskInstance} {task : TaskID} {state : TaskState} {now : Time} (found : byTask.get task = some ti) :
    (byTask.set { ti with state, finishedAt := some now }).states = Function.update byTask.states task (some state) := by
  obtain rfl := (ByTask.get_some found).2
  funext id
  rw [ByTask.states, ByTask.get_set]
  by_cases own : id = ti.taskID
  · subst own
    simp [found]
  · rw [if_neg own, Function.update_of_ne own]
    rfl

/-- One task of the loop takes one step or none. -/
theorem Blocks.steps {acc after : ByTask × Bool} {t : Task} (member : t ∈ tasks) (blocks : Blocks acc t after) :
    ReflTransGen (BlockStep tasks) acc.1.states after.1.states := by
  cases blocks with
  | passes _ => exact .refl
  | blocks now found scheduled blocked =>
    rw [states_set found]
    refine .single (.block member ?_ blocked)
    rw [ByTask.states, found, Option.map_some, scheduled]

/-- An instance is what it was, or it was scheduled and has failed with its upstreams. -/
def Propagated (before after : ByTask) : Prop :=
  ∀ task, after.get task = before.get task ∨ ∃ ti now, before.get task = some ti ∧ ti.state = .scheduled ∧
    after.get task = some { ti with state := .upstreamFailed, finishedAt := some now }

theorem Propagated.blocks {acc after : ByTask × Bool} {t : Task} (propagated : Propagated byTask acc.1)
    (blocks : Blocks acc t after) : Propagated byTask after.1 := by
  cases blocks with
  | passes _ => exact propagated
  | @blocks ti now found scheduled blocked =>
    obtain own := (ByTask.get_some found).2
    intro task
    show ByTask.get (acc.1.set _) task = _ ∨ _
    rw [ByTask.get_set]
    split
    · rename_i same
      obtain rfl : task = t.id := same.trans own
      rw [found]
      rcases propagated t.id with kept | ⟨old, _, _, _, moved⟩
      · exact .inr ⟨ti, now, kept ▸ found, scheduled, rfl⟩
      · rw [found] at moved
        rw [Option.some.inj moved] at scheduled
        cases scheduled
    · exact propagated task

theorem settled_iff_normal : Settled tasks byTask ↔ Normal (BlockStep tasks) byTask.states := by
  constructor
  · intro settled states step
    cases step with
    | @block t member scheduled blocked =>
      have waits : waiting byTask t = true := by
        rw [ByTask.states, Option.map_eq_some_iff] at scheduled
        obtain ⟨ti, found, state⟩ := scheduled
        simp [waiting, found, state]
      have unblocked := settled t member waits
      rw [taskGate_eq, blocked] at unblocked
      cases unblocked
  · intro normal t member waits
    obtain ⟨ti, found, scheduled⟩ := (Option.any_eq_true _ _).mp waits
    by_contra blocked
    rw [taskGate_eq, Bool.not_eq_false] at blocked
    refine normal _ (.block member ?_ blocked)
    rw [ByTask.states, found, Option.map_some, beq_iff_eq.mp scheduled]

/-- Past the number of the tasks that wait, more rounds are never begun. -/
theorem propagateBlocks_rounds {rounds : Nat} (enough : waitingCount tasks byTask < rounds) :
    propagateBlocks tasks (rounds + 1) byTask = propagateBlocks tasks rounds byTask := by
  induction rounds generalizing byTask with
  | zero => exact absurd enough (Nat.not_lt_zero _)
  | succ rounds ih =>
    rw [propagateBlocks, propagateBlocks]
    refine Prog.Safe.bind_congr (round_safe tasks byTask) fun after _ outcome => ?_
    obtain ⟨final, changed⟩ := after
    cases changed with
    | false => rfl
    | true =>
      rcases outcome _ rfl with ⟨same, _⟩ | ⟨_, dropped⟩
      · cases (Prod.mk.inj same).2
      · exact ih (by simp only at dropped; omega)

theorem propagateBlocks_enough {rounds : Nat} (enough : tasks.length < rounds) :
    propagateBlocks tasks rounds byTask = propagateBlocks tasks (tasks.length + 1) byTask := by
  obtain ⟨more, rfl⟩ := Nat.exists_eq_add_of_le enough
  induction more with
  | zero => rfl
  | succ more ih =>
    have room : tasks.length < tasks.length.succ + more := by omega
    rw [← ih room]
    exact propagateBlocks_rounds (Nat.lt_of_le_of_lt (waitingCount_le tasks byTask) room)

variable {S : Type} {store : Handler statements S}

/-- The store takes every write. -/
def Accepts (store : Handler statements S) : Prop := ∀ ti s, (store (.updateTaskInstance ti) s).1 = .ok ()

theorem updateTaskInstance_runs (accepts : Accepts store) (ti : TaskInstance) (s : S) :
    (updateTaskInstance ti).run store s = (.ok (), (store (.updateTaskInstance ti) s).2) := by
  have ran := ask_run store (.updateTaskInstance ti) (fun reply => reply) s
  rw [accepts] at ran
  exact ran

theorem blockTask_runs (accepts : Accepts store) (acc : ByTask × Bool) (t : Task) (s : S) :
    ∃ after u, (blockTask acc t).run store s = (.ok after, u) := by
  unfold blockTask
  split
  · exact ⟨_, _, rfl⟩
  · split
    · exact ⟨_, _, rfl⟩
    · split
      · rename_i ti _ _ _
        show ∃ after u, Prog.run store (Prog.bind (updateTaskInstance _) _) _ = (.ok after, u)
        rw [Prog.run_bind, updateTaskInstance_runs accepts]
        exact ⟨_, _, rfl⟩
      · exact ⟨_, _, rfl⟩

theorem propagateBlocks_runs (accepts : Accepts store) (rounds : Nat) (byTask : ByTask) (s : S) :
    ∃ after u, (propagateBlocks tasks rounds byTask).run store s = (.ok after, u) := by
  induction rounds generalizing byTask s with
  | zero => exact ⟨_, _, rfl⟩
  | succ rounds ih =>
    obtain ⟨⟨after, changed⟩, u, ran, _⟩ := Prog.run_fold_ok store (fun _ _ => True) (fun _ => trivial) (fun _ _ _ _ _ => trivial)
      (fun t acc s => by
        obtain ⟨after, u, ran⟩ := blockTask_runs accepts acc t s
        exact ⟨after, u, ran, trivial⟩) tasks (byTask, false) s
    rw [propagateBlocks]
    show ∃ after u, Prog.run store (Prog.bind _ _) s = (.ok after, u)
    rw [Prog.run_bind, ran]
    cases changed with
    | true => exact ih after u
    | false => exact ⟨_, _, rfl⟩

/-- A run of the loop is a sequence of steps to a normal form. -/
theorem propagateBlocks_normalizes {s : S} {after : ByTask}
    (ran : ((propagateBlocks tasks (tasks.length + 1) byTask).run store s).1 = .ok after) :
    ReflTransGen (BlockStep tasks) byTask.states after.states ∧ Normal (BlockStep tasks) after.states := by
  have settled := (propagateBlocks_settles (Nat.lt_succ_of_le (waitingCount_le tasks byTask))).run store s after ran
  have steps := (propagateBlocks_keeps (fun now => ReflTransGen (BlockStep tasks) byTask.states now.states)
    (fun t member acc after kept blocks => kept.trans (blocks.steps member)) _ .refl).run store s after ran
  exact ⟨steps, settled_iff_normal.mp settled⟩

/-- Block propagation is a fixpoint that does not depend on the order: the loop ends of itself
within one round more than there are tasks, only scheduled tasks change and only to
`upstream_failed`, none is left blocked, and every listing of the tasks leads to the same states.
Only a write that the store refuses keeps it from its end. -/
theorem propagation_canonical (tasks : List Task) (byTask : ByTask) :
    (∀ rounds, tasks.length < rounds → propagateBlocks tasks rounds byTask = propagateBlocks tasks (tasks.length + 1) byTask) ∧
    ∀ {S : Type} (store : Handler statements S) (s : S),
      (Accepts store → ∃ after, ((propagateBlocks tasks (tasks.length + 1) byTask).run store s).1 = .ok after) ∧
      ∀ after, ((propagateBlocks tasks (tasks.length + 1) byTask).run store s).1 = .ok after →
        Propagated byTask after ∧ Settled tasks after ∧
        ∀ (tasks' : List Task) {S' : Type} (store' : Handler statements S') (s' : S') (after' : ByTask), tasks'.Perm tasks →
          ((propagateBlocks tasks' (tasks'.length + 1) byTask).run store' s').1 = .ok after' → after'.states = after.states := by
  refine ⟨fun rounds enough => propagateBlocks_enough enough, fun store s => ⟨fun accepts => ?_, fun after ran => ?_⟩⟩
  · obtain ⟨after, u, ran⟩ := propagateBlocks_runs accepts (tasks.length + 1) byTask s
    exact ⟨after, by rw [ran]⟩
  · have changed := (propagateBlocks_keeps (Propagated byTask)
      (fun _ _ _ _ kept blocks => kept.blocks blocks) _ (fun _ => .inl rfl)).run store s after ran
    obtain ⟨steps, normal⟩ := propagateBlocks_normalizes ran
    refine ⟨changed, settled_iff_normal.mpr normal, fun tasks' _ store' s' after' perm ran' => ?_⟩
    obtain ⟨steps', normal'⟩ := propagateBlocks_normalizes ran'
    have same : ReflTransGen (BlockStep tasks) byTask.states after'.states := steps'.lift id fun _ _ => BlockStep.perm perm
    have ended : Normal (BlockStep tasks) after'.states := fun t step => normal' t (step.perm perm.symm)
    exact Normal.unique (fun _ _ _ => BlockStep.diamond) same steps ended normal

end Loop

end Cronova.Scheduler
