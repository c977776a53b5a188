import Cronova.Scheduler.Conduct.Creation

/-! The operators' programs keep to their footprint. -/

set_option autoImplicit false

namespace Cronova.Scheduler

open Model Store Process
open Calendar (Time)

variable {env : Env} {v₀ v u : View}

/-! ### Cancellation -/

section Cancellation

/-- An operator reads instances only under the lock. -/
def Locked (v : View) : Prop := v.Operates → v.inside ≠ none

theorem Locked.onward (locked : Locked v) (onward : Onward v u) : Locked u := by
  intro operates
  rw [onward.inside]
  apply locked
  unfold View.Operates at operates ⊢
  rwa [onward.origin] at operates

/-- The cancellation of a run, as a part of any program that holds the lock. -/
def Cancels (env : Env) (cancelRun : RunID → Act Unit) : Prop :=
  ∀ id v, Locked v → (cancelRun id).Safe (footprint env) (Ends v fun _ _ => True) v

theorem cancelAttempt_safe {cancelRun : RunID → Act Unit} (child : Cancels env cancelRun) (ref : ExecutorRef) (locked : Locked v) :
    (cancelAttempt cancelRun ref).Safe (footprint env) (Ends v fun _ _ => True) v := by
  have kills : (perform (.cancel ref)).Safe (footprint env) (Ends v fun _ _ => True) v :=
    Prog.Safe.tracked trivial fun killed _ => .ok ((Onward.refl v).after (o := .cancel ref) rfl killed) trivial
  cases ref with
  | subdag id =>
    exact Ends.attempt (child id v locked) (fun _ _ onward _ => .ok onward trivial) fun _ _ onward => .ok onward trivial
  | none => exact kills
  | attempt run task tries => exact kills

/-- The write of a cancelled instance, from a copy in hand. -/
theorem cancelWrite_safe {ti : TaskInstance} (held : ti ∈ v.hand) (active : ti.state.isTerminal = false) (fin : Time) :
    (logged (updateTaskInstance { ti with state := .cancelled, finishedAt := some fin })).Safe (footprint env)
      (Ends v fun _ _ => True) v := by
  have permitted : Footprint env (.updateTaskInstance { ti with state := .cancelled, finishedAt := some fin }) v :=
    .cancels ti held active ⟨rfl, rfl, rfl, rfl⟩ rfl
  exact safe_attempt permitted (fun reply _ _ _ => .ok ((Onward.refl v).after rfl reply) trivial)
    fun reply _ _ _ => .ok ((Onward.refl v).after rfl reply) trivial

theorem cancelInstances_safe {cancelRun : RunID → Act Unit} (child : Cancels env cancelRun) (fin : Time)
    {tis : List TaskInstance} (held : ∀ ti ∈ tis, ti ∈ v.hand) (locked : Locked v) (onward : Onward v₀ v) :
    (cancelInstances cancelRun fin tis).Safe (footprint env) (Ends v₀ fun _ _ => True) v := by
  -- the copies stay in hand: the cascade of a child only adds to them
  have loops : (cancelInstances cancelRun fin tis).Safe (footprint env) (Ends v fun _ _ => True) v := by
    refine Ends.forEach (.refl v) fun ti member t onward => ?_
    dsimp only
    split
    · exact .ok onward trivial
    · rename_i active
      replace active : ti.state.isTerminal = false := by simpa using active
      split
      · refine Ends.bind (Ends.part onward (cancelAttempt_safe child ti.executorRef (locked.onward onward))) fun _ u later _ => ?_
        refine (Ends.part later (cancelWrite_safe (later.hand ti (held ti member)) active fin)).mono fun _ _ ended => ?_
        exact ⟨ended.1, fun _ _ => trivial⟩
      · refine (Ends.part onward (cancelWrite_safe (onward.hand ti (held ti member)) active fin)).mono fun _ _ ended => ?_
        exact ⟨ended.1, fun _ _ => trivial⟩
  exact (Ends.part onward loops).mono fun _ _ ended => ⟨ended.1, fun _ _ => trivial⟩

theorem cancelRunLocked_safe (depth : Nat) : Cancels env (cancelRunLocked depth) := by
  induction depth with
  | zero => exact fun id v _ => .error (.refl v)
  | succ depth ih =>
    intro id v locked
    refine Ends.call trivial rfl (.refl v) fun reply run _ _ onward => ?_
    split
    · exact .error onward
    · refine safe_perform trivial fun fin _ => ?_
      refine Ends.call trivial rfl (onward.after (o := .now) rfl fin) fun reply _ _ _ onward => ?_
      refine Ends.call (locked.onward onward) rfl onward fun reply tis _ read onward => ?_
      cases read
      exact cancelInstances_safe ih fin (fun ti member => List.mem_append_left _ member) (locked.onward onward) onward

theorem cascade_safe : Cancels env cascade := by
  intro id v locked
  refine safe_perform trivial fun runs _ => ?_
  have counted := (Onward.refl v).after (o := .census) rfl runs
  exact (Ends.part counted (cancelRunLocked_safe (runs + 1) id _ (locked.onward counted))).mono fun _ _ ended =>
    ⟨ended.1, fun _ _ => trivial⟩

/-- A section: the lock, a body that stays inside, the unlock. -/
theorem locked_conduct {A : Type} {what : Section} {body : Act A} {post : Except Failure A → View → Prop}
    (free : v.inside = none) (enters : v.Enters what)
    (safe : body.Safe (footprint env) (fun r u => u.inside = some what ∧ post r (u.after .unlock ()))
      (v.after (.lock what) ())) : (locked what body).Safe (footprint env) post v := by
  refine safe_perform ⟨free, enters⟩ fun _ _ => ?_
  refine Prog.Safe.andThen (fun result (u : View) => u.inside = some what ∧ post result (u.after .unlock ()))
    (Prog.Safe.attempt (safe.mono fun _ _ ended => ended)) fun result u ended => ?_
  refine safe_perform (by simp [Footprint, ended.1]) fun _ _ => ?_
  cases result with
  | ok a => exact ended.2
  | error e => exact ended.2

/-- The section of an operator's request. -/
theorem section_conduct {A : Type} {what : Section} {body : Act A} {g : A → View → Prop} (free : v.inside = none)
    (enters : v.Enters what) (safe : body.Safe (footprint env) (Ends (v.after (.lock what) ()) g) (v.after (.lock what) ())) :
    (locked what body).Safe (footprint env) (fun _ _ => True) v :=
  locked_conduct free enters (safe.mono fun _ _ ended => ⟨ended.1.inside, trivial⟩)

theorem cancelRun_conduct (run : RunID) (free : v.inside = none) (origin : v.origin = .cancelRun run) :
    (cancelRun run).Safe (footprint env) (fun _ _ => True) v :=
  section_conduct free origin (cascade_safe run _ fun _ => Option.some_ne_none _)

end Cancellation

/-! ### Retry -/

section Retry

variable {id : RunID} {run : DagRun} {c : CachedDAG} {byTask : ByTask}

theorem View.Retries.onward (retries : v.Retries id) (onward : Onward v u) : u.Retries id := by
  cases retries with
  | task task origin inside => exact .task task (onward.origin.trans origin) (onward.inside.trans inside)
  | run origin inside => exact .run (onward.origin.trans origin) (onward.inside.trans inside)
  | child parent c origin inside held scheduled ref =>
    exact .child parent c (onward.origin.trans origin) (onward.inside.trans inside) (onward.hand c held) scheduled ref

theorem View.Retries.locked (retries : v.Retries id) : Locked v := by
  intro _
  cases retries with
  | task task origin inside => simp [inside]
  | run origin inside => simp [inside]
  | child parent c origin inside held scheduled ref => simp [inside]

/-- A retry that has read its run and the definition that the run will adopt. -/
structure Retrying (id : RunID) (run : DagRun) (c : CachedDAG) (v : View) : Prop where
  retries : v.Retries id
  read : v.runs id = some run
  ended : run.state.isTerminal = true
  known : (run.dagID, some c) ∈ v.entries

/-- A retry whose run has adopted the definition and is still over. -/
structure Resetting (id : RunID) (v : View) : Prop where
  retries : v.Retries id
  adopted : id ∈ v.adopted
  ended : ∃ run, v.runs id = some run ∧ run.state.isTerminal = true

theorem Resetting.after (resetting : Resetting id v) {o : Op} (quiet : o.quiet = true) (reply : o.Reply)
    (same : (v.after o reply).runs = v.runs) : Resetting id (v.after o reply) where
  retries := resetting.retries.onward ((Onward.refl v).after quiet reply)
  adopted := ((Onward.refl v).after quiet reply).adopted id resetting.adopted
  ended := by
    rw [same]
    exact resetting.ended

/-- The instances in memory are copies in hand, up to the columns of the definition. -/
def Copied (id : RunID) (byTask : ByTask) (v : View) : Prop :=
  ∀ ti ∈ byTask, ti.runID = id ∧ ∃ c ∈ v.hand, ti.key = c.key ∧ ti.tryNumber = c.tryNumber

theorem Copied.onward (copied : Copied id byTask v) (onward : Onward v u) : Copied id byTask u := by
  intro ti member
  obtain ⟨own, c, held, same⟩ := copied ti member
  exact ⟨own, c, onward.hand c held, same⟩

theorem retryContext_conduct (retries : v.Retries id) :
    (retryContext id).Safe (footprint env) (Ends v fun context u =>
      ∃ c, context.2.1 = c.dag ∧ Retrying id context.1 c u ∧ Copied id context.2.2 u) v := by
  refine Ends.call trivial rfl (.refl v) fun reply run honest read onward => ?_
  cases read
  split
  · exact .error onward
  · rename_i idle
    have ended : run.state.isTerminal = true := by
      cases state : run.state <;> simp_all [RunState.isTerminal]
    refine safe_perform trivial fun entry _ => ?_
    have looked := onward.after (o := .cachedDAG run.dagID) rfl entry
    cases entry with
    | none => exact .error looked
    | some c =>
      refine Ends.call ((retries.onward looked).locked) rfl looked fun reply tis honest read onward => ?_
      cases read
      refine .ok onward ⟨c, rfl, ⟨retries.onward onward, ?_, ended, ?_⟩, fun ti member => ?_⟩
      · exact Function.update_self id (some run) v.runs
      · exact List.mem_cons_self
      · exact ⟨honest ti member, ti, List.mem_append_left _ member, rfl, rfl⟩

theorem adoptTask_conduct (hash : String) (reset : List TaskID) (t : Task) (onward : Onward v₀ v)
    (resetting : Resetting id v) (copied : Copied id byTask v) :
    (adoptTask id hash reset byTask t).Safe (footprint env)
      (Ends v₀ fun byTask u => Resetting id u ∧ Copied id byTask u) v := by
  unfold adoptTask
  cases found : byTask.get t.id with
  | none =>
    refine Ends.call ⟨rfl, rfl, rfl, .inr ⟨resetting.retries, resetting.adopted⟩⟩ rfl onward fun reply _ _ read later => ?_
    cases read
    have created := (Onward.refl v).after (o := .createTaskInstance (newInstance id t hash)) rfl (.ok ())
    refine .ok later ⟨resetting.after rfl _ rfl, fun ti member => ?_⟩
    rcases List.mem_append.mp member with old | new
    · exact copied.onward created ti old
    · obtain rfl := List.mem_singleton.mp new
      exact ⟨rfl, _, List.mem_cons_self, rfl, rfl⟩
  | some ti =>
    dsimp only
    split
    · refine .ok onward ⟨resetting, fun row member => ?_⟩
      obtain ⟨old, stored, same⟩ := List.mem_map.mp member
      split at same
      · subst same
        obtain ⟨own, copy⟩ := copied ti (ByTask.get_some found).1
        exact ⟨own, copy⟩
      · subst same
        exact copied old stored
    · exact .ok onward ⟨resetting, copied⟩

theorem prepareRetryDefinition_conduct (reset : List TaskID) (retrying : Retrying id run c v) (copied : Copied id byTask v)
    (onward : Onward v₀ v) : (prepareRetryDefinition env id c.dag byTask reset).Safe (footprint env)
      (Ends v₀ fun byTask u => Resetting id u ∧ Copied id byTask u) v := by
  have adopts : v.Adopts env id c.dag.definitionYAML (env.hash c.dag.definitionYAML) :=
    ⟨rfl, .inr ⟨retrying.retries, run, c, retrying.read, retrying.ended, retrying.known, rfl⟩⟩
  refine Ends.call adopts rfl onward fun reply _ _ read later => ?_
  cases read
  have adopted := (Onward.refl v).after
    (o := .updateDagRunDefinition id c.dag.definitionYAML (env.hash c.dag.definitionYAML)) rfl (.ok ())
  have resetting : Resetting id
      (v.after (.updateDagRunDefinition id c.dag.definitionYAML (env.hash c.dag.definitionYAML)) (.ok ())) := by
    let row := DB.setDefinition c.dag.definitionYAML (env.hash c.dag.definitionYAML) run
    refine ⟨retrying.retries.onward adopted, List.mem_cons_self, row, ?_, retrying.ended⟩
    simp [View.after, View.learns, View.rerun, retrying.read, row]
  refine Ends.fold (fun byTask u => Resetting id u ∧ Copied id byTask u) later ⟨resetting, copied.onward adopted⟩ ?_
  exact fun t _ byTask u onward kept => adoptTask_conduct _ _ t onward kept.1 kept.2

/-- The write that makes a run running is a promotion only for the tick that starts it. -/
theorem Onward.unpromoted (other : v.promotion id = none) (started finished : Option Time)
    (reply : (Op.updateDagRunState id .running started finished).Reply) :
    Onward v (v.after (.updateDagRunState id .running started finished) reply) := by
  refine { Onward.refl v with runs := fun x known => ?_, seen := ?_ }
  · exact (v.rerun_isSome id _ reply x).trans known
  · cases reply with
    | error e => rfl
    | ok _ => simp [View.after, View.learns, other]

/-- A run that was read before is not promoted by the write that makes it running. -/
theorem Onward.reactivates (onward : Onward v₀ v) (read : (v.runs id).isSome = true) (started finished : Option Time)
    (reply : (Op.updateDagRunState id .running started finished).Reply) :
    Onward v₀ (v.after (.updateDagRunState id .running started finished) reply) := by
  have known : (v.runs id).isNone = false := by simpa using read
  refine onward.trans (Onward.unpromoted ?_ started finished reply)
  unfold View.promotion
  split
  · simp [known]
  · rfl

/-- The reset of one task, whose copy is in hand. -/
theorem resetTask_conduct (task : TaskID) (resetting : Resetting id v) (copied : Copied id byTask v) (onward : Onward v₀ v) :
    (match byTask.get task with
      | none => pure ()
      | some ti => updateTaskInstance (TaskInstance.reset ti) : Act Unit).Safe (footprint env)
      (Ends v₀ fun _ u => Resetting id u ∧ Copied id byTask u) v := by
  cases found : byTask.get task with
  | none => exact .ok onward ⟨resetting, copied⟩
  | some ti =>
    obtain ⟨own, copy, held, key, tries⟩ := copied ti (ByTask.get_some found).1
    have ofRun : copy.runID = id := (congrArg InstanceKey.run key).symm.trans own
    have permitted : Footprint env (.updateTaskInstance (TaskInstance.reset ti)) v :=
      .resets copy held (ofRun ▸ resetting.retries) key tries rfl rfl
    exact Ends.last permitted rfl onward fun reply _ _ =>
      ⟨resetting.after rfl reply rfl, copied.onward ((Onward.refl v).after rfl reply)⟩

theorem clearAndReactivate_conduct (ids : List TaskID) (resetting : Resetting id v) (copied : Copied id byTask v)
    (onward : Onward v₀ v) :
    (clearAndReactivate id byTask ids).Safe (footprint env) (Ends v₀ fun _ _ => True) v := by
  refine safe_perform trivial fun ids _ => ?_
  have ordered := (Onward.refl v).after (o := .order _) rfl ids
  refine Ends.bind (m := fun _ u => Resetting id u ∧ Copied id byTask u) ?_ fun _ u later kept => ?_
  · exact Ends.fold (fun _ u => Resetting id u ∧ Copied id byTask u) (onward.trans ordered)
      ⟨resetting.after (o := .order _) rfl ids rfl, copied.onward ordered⟩
      fun task _ _ u onward kept => resetTask_conduct task kept.1 kept.2 onward
  · refine safe_perform trivial fun now _ => ?_
    have timed := kept.1.after (o := .now) rfl now rfl
    obtain ⟨run, read, _⟩ := timed.ended
    have permitted : Footprint env (.updateDagRunState id .running (some now) none) (u.after .now now) :=
      .inr (.inl ⟨timed.retries, timed.adopted, timed.ended⟩)
    refine Prog.Safe.tracked permitted fun reply _ => ?_
    have ended := (later.after (o := .now) rfl now).reactivates (Option.isSome_iff_exists.mpr ⟨run, read⟩) (some now) none reply
    cases reply with
    | ok _ => exact .ok ended trivial
    | error e => exact .error ended

/-- The two retries of an operator, and the retry of a child run. -/
theorem retryBody_conduct (ids : List TaskID) (retrying : Retrying id run c v) (copied : Copied id byTask v)
    (onward : Onward v₀ v) :
    (do
      let byTask ← prepareRetryDefinition env id c.dag byTask ids
      clearAndReactivate id byTask ids : Act Unit).Safe (footprint env) (Ends v₀ fun _ _ => True) v :=
  Ends.bind (prepareRetryDefinition_conduct ids retrying copied onward) fun _ _ later kept =>
    clearAndReactivate_conduct ids kept.1 kept.2 later

theorem retryRunLocked_conduct (retries : v.Retries id) :
    (retryRunLocked env id).Safe (footprint env) (Ends v fun _ _ => True) v := by
  refine Ends.bind (retryContext_conduct retries) fun context u onward read => ?_
  obtain ⟨run, d, byTask⟩ := context
  obtain ⟨c, rfl, retrying, copied⟩ := read
  dsimp only
  split
  · exact .error onward
  · exact retryBody_conduct _ retrying copied onward

theorem retryRun_conduct (run : RunID) (free : v.inside = none) (origin : v.origin = .retryRun run) :
    (retryRun env run).Safe (footprint env) (fun _ _ => True) v :=
  section_conduct free origin (retryRunLocked_conduct (.run origin rfl))

theorem retryTask_conduct (run : RunID) (task : TaskID) (free : v.inside = none) (origin : v.origin = .retryTask run task) :
    (retryTask env run task).Safe (footprint env) (fun _ _ => True) v := by
  refine section_conduct (g := fun _ _ => True) free origin ?_
  refine Ends.bind (retryContext_conduct (.task task origin rfl)) fun context u onward read => ?_
  obtain ⟨run, d, byTask⟩ := context
  obtain ⟨c, rfl, retrying, copied⟩ := read
  dsimp only
  split
  · exact .error onward
  · exact retryBody_conduct _ retrying copied onward

end Retry

/-! ### Mark -/

section Mark

variable {id : RunID} {task : TaskID} {target : TaskState} {run : DagRun} {byTask : ByTask}

theorem View.FirstUse.after (first : v.FirstUse id) {o : Op} (quiet : o.quiet = true) (reply : o.Reply)
    (same : (v.after o reply).runs = v.runs) (none : (v.after o reply).adopted = v.adopted) : (v.after o reply).FirstUse id := by
  have onward := (Onward.refl v).after quiet reply
  unfold View.FirstUse at first ⊢
  rw [onward.origin, onward.inside, same, none]
  exact first

/-- What `dagForRun` leaves: the run with a snapshot, and the definition which that is of. -/
structure Snapshot (env : Env) (run : DagRun) (v : View) (result : DAG × DagRun) (u : View) : Prop where
  source : u.Source env result.2 result.1
  own : result.2.runID = run.runID
  state : result.2.state = run.state
  taken : run.definitionYAML ≠ "" ∨ run.runID ∈ u.adopted
  unread : ∀ id, v.runs id = none → u.runs id = none

theorem parseDefinition_conduct (yaml : String) (onward : Onward v₀ v) :
    (parseDefinition env yaml).Safe (footprint env) (Ends v₀ fun d u => env.parse yaml = some d ∧ u = v) v := by
  unfold parseDefinition
  cases parsed : env.parse yaml with
  | none => exact .error onward
  | some d => exact .ok onward ⟨rfl, rfl⟩

/-- The snapshot that a run without one takes. -/
theorem takeSnapshot_conduct {d : DAG} (first : v.FirstUse run.runID) (known : v.Known env d) (onward : Onward v₀ v)
    (same : v.runs = v₀.runs) :
    (do
      updateDagRunDefinition run.runID d.definitionYAML (env.hash d.definitionYAML)
      pure (d, snapshotRun env run d) : Act (DAG × DagRun)).Safe (footprint env) (Ends v₀ (Snapshot env run v₀)) v := by
  refine Ends.call ⟨rfl, .inl ⟨first, d, known, rfl⟩⟩ rfl onward fun reply _ _ read later => ?_
  cases read
  refine .ok later ⟨.inr ⟨known, rfl⟩, rfl, rfl, .inr List.mem_cons_self, fun id none => ?_⟩
  rw [← Option.isNone_iff_eq_none, ← Option.not_isSome] at none ⊢
  rw [← same] at none
  exact (congrArg not (v.rerun_isSome run.runID (DB.setDefinition d.definitionYAML (env.hash d.definitionYAML)) (.ok ()) id)).trans none

theorem dagForRun_conduct (first : run.definitionYAML = "" → v.FirstUse run.runID) :
    (dagForRun env run).Safe (footprint env) (Ends v (Snapshot env run v)) v := by
  unfold dagForRun
  split
  · rename_i own
    refine Ends.bind (parseDefinition_conduct _ (.refl v)) fun d u onward parsed => ?_
    obtain ⟨parsed, rfl⟩ := parsed
    exact .ok onward ⟨.inl parsed, rfl, rfl, .inl own, fun _ none => none⟩
  · rename_i legacy
    replace first := first (by simpa using legacy)
    refine safe_perform trivial fun entry _ => ?_
    have looked := (Onward.refl v).after (o := .cachedDAG run.dagID) rfl entry
    replace first := first.after (o := .cachedDAG run.dagID) rfl entry rfl rfl
    cases entry with
    | some c => exact takeSnapshot_conduct first (.inl ⟨run.dagID, c, List.mem_cons_self, rfl⟩) looked rfl
    | none =>
      refine Ends.call trivial rfl looked fun reply stored _ _ onward => ?_
      replace first := first.after (o := .getDAG run.dagID) rfl reply rfl rfl
      refine Ends.bind (parseDefinition_conduct _ onward) fun d u onward parsed => ?_
      obtain ⟨parsed, rfl⟩ := parsed
      exact takeSnapshot_conduct first (.inr ⟨_, parsed⟩) onward rfl

/-- A mark of a task, under the lock. -/
structure Marking (id : RunID) (task : TaskID) (target : TaskState) (v : View) : Prop where
  origin : v.origin = .markTask id task target
  inside : v.inside = some (.markTask id task target)
  markable : markableTask target = true

theorem Marking.onward (marking : Marking id task target v) (onward : Onward v u) : Marking id task target u :=
  ⟨onward.origin.trans marking.origin, onward.inside.trans marking.inside, marking.markable⟩

theorem releaseDownstream_conduct (ids : List TaskID) (marking : Marking id task target v)
    (held : ∀ ti ∈ byTask, ti.runID = id ∧ ti ∈ v.hand) (onward : Onward v₀ v) :
    (releaseDownstream byTask task ids).Safe (footprint env) (Ends v₀ fun _ u => Onward v u) v := by
  refine Ends.fold (fun _ u => Onward v u) onward (.refl v) fun other _ _ u onward kept => ?_
  dsimp only
  cases found : byTask.get other with
  | none => exact .ok onward kept
  | some ti =>
    dsimp only
    split
    · exact .ok onward kept
    · rename_i blocked
      have own := held ti (ByTask.get_some found).1
      have marking := own.1 ▸ marking.onward kept
      have permitted : Footprint env (.updateTaskInstance (TaskInstance.reset ti)) u :=
        .releases ti task target (kept.hand ti own.2) marking.origin marking.inside (by simpa using (not_or.mp blocked).2) rfl
      exact Ends.last permitted rfl onward fun reply _ _ => kept.after rfl reply

/-- The marked task is the one of the request, and its copy is in hand. -/
structure Marked (id : RunID) (task : TaskID) (target : TaskState) (ti : TaskInstance) (v : View) : Prop extends
    Marking id task target v where
  key : ti.key = ⟨id, task⟩
  held : ti ∈ v.hand

variable {ti : TaskInstance} {now : Time} {ended : Bool}

theorem Marked.onward (marked : Marked id task target ti v) (onward : Onward v u) : Marked id task target ti u :=
  { marked.toMarking.onward onward with key := marked.key, held := onward.hand ti marked.held }

theorem markWrite_conduct (marked : Marked id task target ti v) (onward : Onward v₀ v) :
    (do
      updateTaskInstance { ti with state := target, finishedAt := some now }
      if ended then updateDagRunState id .running (some now) none : Act Unit).Safe (footprint env)
      (Ends v₀ fun _ _ => True) v := by
  obtain ⟨⟨origin, inside, markable⟩, key, held⟩ := marked
  cases key
  have permitted : Footprint env (.updateTaskInstance { ti with state := target, finishedAt := some now }) v :=
    .marks ti held origin inside markable ⟨rfl, rfl, rfl, rfl⟩
  have quiet : (Op.updateTaskInstance { ti with state := target, finishedAt := some now }).quiet = true := by
    cases target with
    | success | failed | skipped => rfl
    | _ => cases markable
  refine Ends.call permitted quiet onward fun reply _ _ _ later => ?_
  have written := (Onward.refl v).after quiet reply
  split
  · refine Prog.Safe.tracked (.inr (.inr ⟨_, _, written.origin.trans origin, written.inside.trans inside⟩)) fun reply _ => ?_
    have unpromoted : ∀ w : View, w.inside = some (.markTask ti.runID ti.taskID target) → w.promotion ti.runID = none := by
      intro w inside
      simp [View.promotion, inside]
    have reactivated := later.trans (Onward.unpromoted (unpromoted _ (written.inside.trans inside)) (some now) none reply)
    cases reply with
    | ok _ => exact .ok reactivated trivial
    | error e => exact .error reactivated
  · exact .ok later trivial

theorem markRelease_conduct (marked : Marked id task target ti v) (held : ∀ ti ∈ byTask, ti.runID = id ∧ ti ∈ v.hand)
    (ids : List TaskID) (onward : Onward v₀ v) :
    (do
      if target = .success ∨ target = .skipped then
        let ids ← perform (.order ids)
        releaseDownstream byTask task ids
      updateTaskInstance { ti with state := target, finishedAt := some now }
      if ended then updateDagRunState id .running (some now) none : Act Unit).Safe (footprint env)
      (Ends v₀ fun _ _ => True) v := by
  dsimp only
  split
  · refine safe_perform trivial fun ids _ => ?_
    have ordered := (Onward.refl v).after (o := .order _) rfl ids
    have copies := fun row member => (held row member).imp_right (ordered.hand row)
    refine Ends.bind (releaseDownstream_conduct ids (marked.toMarking.onward ordered) copies (onward.trans ordered)) ?_
    intro _ u later released
    exact markWrite_conduct (marked.onward (ordered.trans released)) later
  · exact markWrite_conduct marked onward

theorem markTaskLocked_conduct (marking : Marking id task target v) :
    (markTaskLocked env id task target).Safe (footprint env) (Ends v fun _ _ => True) v := by
  refine Ends.call trivial rfl (.refl v) fun reply run honest read onward => ?_
  cases read
  obtain rfl : run.runID = id := honest run rfl
  have marking₁ := marking.onward onward
  refine Ends.bind (Ends.part onward (dagForRun_conduct fun legacy => ?_)) fun d u later _ => ?_
  · exact .inr ⟨task, target, run, marking₁.origin, marking₁.inside, Function.update_self _ _ _, legacy⟩
  have locked : Locked u := fun _ => by simp [(marking.onward later).inside]
  refine Ends.call locked rfl later fun reply tis honest read later => ?_
  cases read
  dsimp only
  cases found : ByTask.get tis task with
  | none => exact .error later
  | some ti =>
    dsimp only
    split
    · exact .error later
    · refine safe_perform trivial fun now _ => ?_
      replace later := later.after (o := .now) rfl now
      have own := ByTask.get_some found
      have copies : ∀ ti ∈ tis, ti.runID = run.runID ∧ ti ∈ tis ++ u.hand := fun ti member =>
        ⟨honest ti member, List.mem_append_left _ member⟩
      have marked : Marked run.runID task target ti ((u.after (.listTaskInstances run.runID) (.ok tis)).after .now now) :=
        { marking.onward later with
          key := by simp [TaskInstance.key, honest ti own.1, own.2]
          held := List.mem_append_left _ own.1 }
      split
      · have locked : Locked ((u.after (.listTaskInstances run.runID) (.ok tis)).after .now now) := fun _ => by
          simp [marked.inside]
        refine Ends.bind (Ends.part later (cancelAttempt_safe cascade_safe ti.executorRef locked)) fun _ w ended killed => ?_
        exact markRelease_conduct (marked.onward killed.1) (fun ti member => (copies ti member).imp_right (killed.1.hand ti)) _ ended
      · exact markRelease_conduct marked copies _ later

theorem markTask_conduct (run : RunID) (task : TaskID) (target : TaskState) (free : v.inside = none)
    (origin : v.origin = .markTask run task target) : (markTask env run task target).Safe (footprint env) (fun _ _ => True) v := by
  unfold markTask
  split
  · trivial
  · rename_i markable
    exact section_conduct free origin (markTaskLocked_conduct ⟨origin, rfl, by simpa using markable⟩)

/-- The write of the final state, and the events that a success leaves. -/
theorem markRunWrite_conduct {target : RunState} {started finished : Option Time} (origin : v.origin = .markRun id target)
    (inside : v.inside = some (.markRun id target)) (markable : markableRun target = true) (stays : Stays v₀ v) :
    (if target = .success then do
        updateDagRunSuccess id started finished
        processPendingDependencyEvents env
      else updateDagRunState id target started finished : Act Unit).Safe (footprint env) (fun _ u => Stays v₀ u) v := by
  have finishes : v.Finishes id := .inr ⟨target, origin, inside⟩
  split
  · refine safe_call finishes (fun reply _ _ _ => ?_) fun _ _ _ _ => stays.trans ⟨rfl, rfl⟩
    exact (processPendingDependencyEvents_safe _).mono fun _ _ after => stays.trans after
  · rename_i other
    have permitted : Footprint env (.updateDagRunState id target started finished) v := by
      cases target with
      | failed => exact finishes
      | success => exact absurd rfl other
      | _ => cases markable
    refine Prog.Safe.tracked permitted fun reply _ => ?_
    cases reply with
    | ok _ => exact stays.trans ⟨rfl, rfl⟩
    | error e => exact stays.trans ⟨rfl, rfl⟩

theorem markRun_conduct (run : RunID) (target : RunState) (free : v.inside = none) (origin : v.origin = .markRun run target) :
    (markRun env run target).Safe (footprint env) (fun _ _ => True) v := by
  unfold markRun
  split
  · trivial
  · rename_i markable
    replace markable : markableRun target = true := by simpa using markable
    refine locked_conduct free origin (Prog.Safe.mono (q := fun _ u => Stays (v.after (.lock (.markRun run target)) ()) u)
      ?_ fun _ _ stays => ⟨stays.2, trivial⟩)
    refine safe_call trivial (fun reply row _ _ => ?_) fun _ _ _ _ => ⟨rfl, rfl⟩
    split
    · exact ⟨rfl, rfl⟩
    · split
      · exact ⟨rfl, rfl⟩
      · cases row.finishedAt with
        | some fin => exact markRunWrite_conduct origin rfl markable ⟨rfl, rfl⟩
        | none => exact safe_perform trivial fun now _ => markRunWrite_conduct origin rfl markable ⟨rfl, rfl⟩

end Mark

end Cronova.Scheduler
