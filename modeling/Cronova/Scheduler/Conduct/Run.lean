import Cronova.Scheduler.Conduct.Attempt
import Cronova.Scheduler.Conduct.Operator

/-! `processRun` keeps to its footprint. -/

set_option autoImplicit false

namespace Cronova.Scheduler

open Model Store Process
open Calendar (Time)

variable {env : Env} {v₀ v u : View}

/-- The tick is inside the section that processes the run, and has its definition. -/
structure Processing (snapshot : DagRun) (v : View) : Prop where
  origin : v.origin = .tick
  inside : v.inside = some (.process snapshot)
  taken : snapshot.definitionYAML ≠ "" ∨ snapshot.runID ∈ v.adopted

/-- The tick has just entered the section. -/
structure Entered (snapshot : DagRun) (v : View) : Prop where
  origin : v.origin = .tick
  inside : v.inside = some (.process snapshot)
  unread : v.runs snapshot.runID = none
  unadopted : v.adopted = []

/-- The instances in memory are the copies in hand. -/
def Held (id : RunID) (byTask : ByTask) (v : View) : Prop := ∀ ti ∈ byTask, ti.runID = id ∧ ti ∈ v.hand

section Section

variable {snapshot : DagRun} {byTask : ByTask} {ti : TaskInstance}

theorem Processing.onward (processing : Processing snapshot v) (onward : Onward v u) : Processing snapshot u :=
  ⟨onward.origin.trans processing.origin, onward.inside.trans processing.inside, processing.taken.imp_right (onward.adopted _)⟩

theorem Processing.processes (processing : Processing snapshot v) : v.Processes snapshot.runID :=
  ⟨snapshot, processing.origin, processing.inside, rfl, processing.taken⟩

theorem Processing.locked (processing : Processing snapshot v) : Locked v := fun _ => by simp [processing.inside]

theorem Processing.shared (processing : Processing snapshot v) (task : Goroutine) (epoch : Nat) :
    v.origin ≠ .goroutine task epoch := by
  simp [processing.origin]

theorem Processing.writable (processing : Processing snapshot v) (held : ti ∈ v.hand) : Writable v ti ti where
  base := .of_tick held processing.origin
  same := .refl ti
  unspent task epoch origin := absurd origin (processing.shared task epoch)

theorem Held.onward {id : RunID} (held : Held id byTask v) (onward : Onward v u) : Held id byTask u :=
  fun ti member => (held ti member).imp_right (onward.hand ti)

theorem Held.set {id : RunID} (held : Held id byTask v) (own : ti.runID = id) (copy : ti ∈ v.hand) : Held id (byTask.set ti) v := by
  intro row member
  obtain ⟨old, stored, same⟩ := List.mem_map.mp member
  split at same
  · subst same
    exact ⟨own, copy⟩
  · subst same
    exact held old stored

/-- An unguarded write that is not a dispatch; a copy of what was written is in hand. -/
theorem Ends.writes {A : Type} {k : Unit → Act A} {good : A → View → Prop} (rewrites : v.Rewrites env ti)
    (waits : ti.state ≠ .queued) (onward : Onward v₀ v)
    (next : ∀ u, Onward v₀ u → Onward v u → ti ∈ u.hand → (k ()).Safe (footprint env) (Ends v₀ good) u) :
    (updateTaskInstance ti >>= k).Safe (footprint env) (Ends v₀ good) v := by
  have quiet : (Op.updateTaskInstance ti).quiet = true := by simpa [Op.quiet] using waits
  refine Ends.call rewrites quiet onward fun reply _ _ read later => ?_
  refine next _ later ((Onward.refl v).after quiet reply) ?_
  cases reply with
  | ok _ => simp [View.after, View.learns, View.rewritten]
  | error e => cases read

end Section

/-! ### Expansion and start -/

section Expansion

variable {snapshot run : DagRun} {d : DAG}

theorem expandRun_conduct (tis : List TaskInstance) (own : run.runID = snapshot.runID) (processing : Processing snapshot v)
    (same : v.runs = v₀.runs) (onward : Onward v₀ v) :
    (expandRun run d tis).Safe (footprint env) (Ends v₀ fun _ u => Processing snapshot u ∧ u.runs = v₀.runs) v := by
  refine Ends.fold (fun _ u => Processing snapshot u ∧ u.runs = v₀.runs) onward ⟨processing, same⟩ fun t _ _ u onward kept => ?_
  dsimp only
  split
  · exact .ok onward kept
  · have permitted : Footprint env (.createTaskInstance (newInstance run.runID t run.definitionHash)) u :=
      ⟨rfl, rfl, rfl, .inl (own ▸ kept.1.processes)⟩
    have created (reply : Except StoreError Unit) := (Onward.refl u).after
      (o := .createTaskInstance (newInstance run.runID t run.definitionHash)) rfl reply
    refine safe_attempt permitted (fun reply _ _ _ => ?_) fun reply e _ _ => ?_
    · exact .ok (onward.trans (created reply)) ⟨kept.1.onward (created reply), kept.2⟩
    · cases e with
      | alreadyExists => exact .ok (onward.trans (created reply)) ⟨kept.1.onward (created reply), kept.2⟩
      | _ => exact .error (onward.trans (created reply))

/-- The definition, the run with its snapshot and the instances that `processRun` works with. -/
structure Expanded (env : Env) (snapshot : DagRun) (result : DAG × DagRun × List TaskInstance) (u : View) : Prop where
  source : u.Source env result.2.1 result.1
  own : result.2.1.runID = snapshot.runID
  state : result.2.1.state = snapshot.state
  held : Held snapshot.runID result.2.2 u
  processing : Processing snapshot u
  unread : u.runs snapshot.runID = none

theorem View.Source.onward (source : v.Source env run d) (onward : Onward v u) : u.Source env run d := by
  rcases source with parsed | ⟨⟨dag, c, known, same⟩ | parsed, yaml⟩
  · exact .inl parsed
  · exact .inr ⟨.inl ⟨dag, c, onward.entries _ known, same⟩, yaml⟩
  · exact .inr ⟨.inr parsed, yaml⟩

theorem expandedRun_conduct (entered : Entered snapshot v) :
    (expandedRun env snapshot).Safe (footprint env) (Ends v (Expanded env snapshot)) v := by
  refine Ends.bind (dagForRun_conduct fun legacy => ?_) fun result u onward took => ?_
  · exact .inl ⟨snapshot, entered.origin, entered.inside, rfl, legacy, by simp [entered.unadopted]⟩
  obtain ⟨d, run⟩ := result
  obtain ⟨source, own, state, taken, unread⟩ := took
  have processing : Processing snapshot u := ⟨onward.origin.trans entered.origin, onward.inside.trans entered.inside, taken⟩
  replace unread : u.runs snapshot.runID = none := unread _ entered.unread
  refine Ends.call processing.locked rfl onward fun reply tis honest read later => ?_
  cases read
  have listed := (Onward.refl u).after (o := .listTaskInstances run.runID) rfl (.ok tis)
  have copied {w : View} {tis : List TaskInstance} (honest : (Op.listTaskInstances run.runID).honest (.ok tis)) :
      Held snapshot.runID tis (w.after (.listTaskInstances run.runID) (.ok tis)) :=
    fun ti member => ⟨(honest ti member).trans own, List.mem_append_left _ member⟩
  split
  · refine Ends.bind (Ends.part later (expandRun_conduct tis own (processing.onward listed) rfl (.refl _))) fun _ w later kept => ?_
    obtain ⟨expanded, processing, same⟩ := kept
    refine Ends.call processing.locked rfl later fun reply tis honest read later => ?_
    cases read
    have again := (Onward.refl w).after (o := .listTaskInstances run.runID) rfl (.ok tis)
    refine .ok later ⟨source.onward ((listed.trans expanded).trans again), own, state, copied honest, processing.onward again, ?_⟩
    exact (congrFun same _).trans unread
  · exact .ok later ⟨source.onward listed, own, state, copied honest, processing.onward listed, unread⟩

theorem failEmptyRun_conduct (own : run.runID = snapshot.runID) (processing : Processing snapshot v) (onward : Onward v₀ v) :
    (failEmptyRun run).Safe (footprint env) (Ends v₀ fun _ _ => True) v := by
  refine safe_perform trivial fun fin _ => ?_
  have timed := (Onward.refl v).after (o := .now) rfl fin
  exact Ends.last (.inl (own ▸ (processing.onward timed).processes)) rfl (onward.trans timed) fun _ _ _ => trivial

/-- The gate that a queued run has passed before it is processed. -/
def Gated (snapshot : DagRun) (v : View) : Prop :=
  snapshot.state = .queued → v.promoting = true ∧
    ∃ entry, (snapshot.dagID, entry) ∈ v.entries ∧ (View.serial entry → snapshot.dagID ∉ v.seen)

theorem Gated.onward (gated : Gated snapshot v) (onward : Onward v u) : Gated snapshot u := by
  intro queued
  obtain ⟨promoting, entry, known, fresh⟩ := gated queued
  exact ⟨onward.promoting.trans promoting, entry, onward.entries _ known, by rwa [onward.seen]⟩

/-- What the processing of a run leaves of the tick's view. -/
structure Advances (dag : DagID) (v u : View) : Prop where
  origin : u.origin = v.origin
  inside : u.inside = v.inside
  entries : ∀ entry ∈ v.entries, entry ∈ u.entries
  listed : u.listed = v.listed
  promoting : u.promoting = v.promoting
  seen : ∀ other ∈ u.seen, other ∈ v.seen ∨ other = dag
  attached : u.attached = v.attached

theorem Onward.advances (onward : Onward v u) (dag : DagID) : Advances dag v u :=
  { onward with seen := fun _ member => .inl (onward.seen ▸ member) }

theorem Advances.onward {w : View} {dag : DagID} (advances : Advances dag v u) (onward : Onward u w) : Advances dag v w where
  origin := onward.origin.trans advances.origin
  inside := onward.inside.trans advances.inside
  entries entry known := onward.entries entry (advances.entries entry known)
  listed := onward.listed.trans advances.listed
  promoting := onward.promoting.trans advances.promoting
  seen other member := advances.seen other (onward.seen ▸ member)
  attached := onward.attached.trans advances.attached

theorem Onward.thenAdvances {w : View} {dag : DagID} (onward : Onward v u) (advances : Advances dag u w) : Advances dag v w where
  origin := advances.origin.trans onward.origin
  inside := advances.inside.trans onward.inside
  entries entry known := advances.entries entry (onward.entries entry known)
  listed := advances.listed.trans onward.listed
  promoting := advances.promoting.trans onward.promoting
  seen other member := onward.seen ▸ advances.seen other member
  attached := advances.attached.trans onward.attached

/-- Only the DAGs seen running and the last statement differ after the start of a run. -/
structure Started (snapshot run : DagRun) (v : View) (result : Except Failure DagRun) (u : View) : Prop where
  advances : Advances snapshot.dagID v u
  hand : u.hand = v.hand
  entries : u.entries = v.entries
  adopted : u.adopted = v.adopted
  run : ∀ started, result = .ok started → started.runID = run.runID ∧ started.definitionYAML = run.definitionYAML

theorem startRun_conduct (own : run.runID = snapshot.runID) (state : run.state = snapshot.state)
    (processing : Processing snapshot v) (unread : v.runs snapshot.runID = none) (gated : Gated snapshot v) :
    (startRun run).Safe (footprint env) (Started snapshot run v) v := by
  unfold startRun
  split
  · rename_i queued
    rw [state] at queued
    refine safe_perform trivial fun now _ => ?_
    have timed := (Onward.refl v).after (o := .now) rfl now
    have promotion : (v.after .now now).promotion run.runID = some snapshot := by
      have inside : (v.after .now now).inside = some (.process snapshot) := processing.inside
      have fresh : (v.after .now now).runs snapshot.runID = none := unread
      simp [View.promotion, inside, own, queued, fresh]
    obtain ⟨promoting, entry, known, fresh⟩ := gated queued
    have permitted : Footprint env (.updateDagRunState run.runID .running (some now) none) (v.after .now now) :=
      .inl ⟨snapshot, promotion, own ▸ (processing.onward timed).processes, promoting, entry, known, fresh⟩
    have advances (reply : Except StoreError Unit) : Advances snapshot.dagID v
        ((v.after .now now).after (.updateDagRunState run.runID .running (some now) none) reply) := by
      refine { timed.advances snapshot.dagID with seen := fun other member => ?_ }
      rcases View.seen_updateDagRunState member with old | ⟨promoted, same, rfl⟩
      · exact .inl old
      · obtain rfl := Option.some.inj (promotion.symm.trans same)
        exact .inr rfl
    refine safe_call permitted (fun reply _ _ _ => ?_) fun reply e _ _ => ?_
    · exact ⟨advances reply, rfl, rfl, rfl, fun started same => by cases same; exact ⟨rfl, rfl⟩⟩
    · exact ⟨advances reply, rfl, rfl, rfl, by rintro _ ⟨⟩⟩
  · exact ⟨(Onward.refl v).advances _, rfl, rfl, rfl, fun started same => by cases same; exact ⟨rfl, rfl⟩⟩

end Expansion

/-! ### Propagation and retries -/

section Propagation

variable {snapshot : DagRun} {byTask : ByTask} {ti : TaskInstance}

/-- The tick processes the run and holds copies of its instances. -/
structure Working (snapshot : DagRun) (byTask : ByTask) (v : View) : Prop extends Processing snapshot v where
  held : Held snapshot.runID byTask v

theorem Working.onward (working : Working snapshot byTask v) (onward : Onward v u) : Working snapshot byTask u :=
  { working.toProcessing.onward onward with held := working.held.onward onward }

/-- The task that the map finds, with what a write of it may rely on. -/
theorem Working.found (working : Working snapshot byTask v) {task : TaskID} (found : byTask.get task = some ti) :
    ti ∈ v.hand ∧ ti.runID = snapshot.runID ∧ ti.taskID = task ∧ v.Processes ti.runID := by
  have own := working.held ti (ByTask.get_some found).1
  exact ⟨own.2, own.1, (ByTask.get_some found).2, own.1 ▸ working.processes⟩

/-- A write of an instance of the run, through the pointer that the map holds. -/
theorem Working.writes {A : Type} {k : Unit → Act A} {good : A → View → Prop} (working : Working snapshot byTask v)
    (own : ti.runID = snapshot.runID) (rewrites : v.Rewrites env ti) (waits : ti.state ≠ .queued) (onward : Onward v₀ v)
    (next : ∀ u, Onward v₀ u → Working snapshot (byTask.set ti) u → (k ()).Safe (footprint env) (Ends v₀ good) u) :
    (updateTaskInstance ti >>= k).Safe (footprint env) (Ends v₀ good) v := by
  refine Ends.writes rewrites waits onward fun u later step copy => next u later ?_
  exact { working.toProcessing.onward step with held := (working.held.onward step).set own copy }

theorem blockTask_conduct (acc : ByTask × Bool) (t : Task) (working : Working snapshot acc.1 v) (onward : Onward v₀ v) :
    (blockTask acc t).Safe (footprint env) (Ends v₀ fun acc u => Working snapshot acc.1 u) v := by
  unfold blockTask
  cases found : acc.1.get t.id with
  | none => exact .ok onward working
  | some ti =>
    dsimp only
    split
    · exact .ok onward working
    · rename_i scheduled
      split
      · refine safe_perform trivial fun now _ => ?_
        have timed := (Onward.refl v).after (o := .now) rfl now
        obtain ⟨held, own, _, processes⟩ := (working.onward timed).found found
        have settles : (v.after .now now).Rewrites env { ti with state := .upstreamFailed, finishedAt := some now } :=
          .settles ti held processes (by simpa using scheduled) ⟨rfl, rfl, rfl, rfl⟩ rfl
        exact (working.onward timed).writes own settles (by simp) (onward.trans timed) fun u later working => .ok later working
      · exact .ok onward working

theorem propagateBlocks_conduct (tasks : List Task) (rounds : Nat) (working : Working snapshot byTask v) (onward : Onward v₀ v) :
    (propagateBlocks tasks rounds byTask).Safe (footprint env) (Ends v₀ fun byTask u => Working snapshot byTask u) v := by
  induction rounds generalizing byTask v with
  | zero => exact .ok onward working
  | succ rounds ih =>
    refine Ends.bind (m := fun acc u => Working snapshot acc.1 u) ?_ fun acc u onward working => ?_
    · exact Ends.fold (a := (byTask, false)) (fun acc u => Working snapshot acc.1 u) onward working fun t _ acc u onward working =>
        blockTask_conduct acc t working onward
    · dsimp only
      split
      · exact ih working onward
      · exact .ok onward working

theorem requeueTask_conduct (now : Time) (t : Task) (working : Working snapshot byTask v) (onward : Onward v₀ v) :
    (requeueTask now byTask t).Safe (footprint env) (Ends v₀ fun byTask u => Working snapshot byTask u) v := by
  unfold requeueTask
  cases found : byTask.get t.id with
  | none => exact .ok onward working
  | some ti =>
    dsimp only
    split
    · exact .ok onward working
    · rename_i waits
      split
      · exact .ok onward working
      · obtain ⟨held, own, _, processes⟩ := working.found found
        have requeues : v.Rewrites env (TaskInstance.reset ti) := .requeues ti held processes (by simpa using waits) rfl
        exact working.writes own requeues (by simp [TaskInstance.reset]) onward fun u later working => .ok later working

end Propagation

/-! ### Sub-workflows -/

section Subdag

variable {snapshot run : DagRun} {byTask : ByTask} {ti : TaskInstance}

theorem subdagDepthLoop_conduct (rounds depth : Nat) (cur : DagRun) (onward : Onward v₀ v) :
    (subdagDepthLoop rounds depth cur).Safe (footprint env) (Ends v₀ fun _ _ => True) v := by
  induction rounds generalizing depth cur v with
  | zero => exact .ok onward trivial
  | succ rounds ih =>
    unfold subdagDepthLoop
    cases cur.parentRunID with
    | none => exact .ok onward trivial
    | some parent =>
      refine safe_attempt trivial (fun reply run _ _ => ?_) fun reply e _ _ => ?_
      · exact ih (depth + 1) run (onward.after (o := .getDagRun parent) rfl reply)
      · exact .ok (onward.after (o := .getDagRun parent) rfl reply) trivial

/-- A child run is retried, or attached again, by the scheduled task whose reference it is. -/
theorem previousChild_conduct (processing : Processing snapshot v) (held : ti ∈ v.hand) (scheduled : ti.state = .scheduled)
    (onward : Onward v₀ v) : (previousChild env ti.executorRef).Safe (footprint env)
      (Ends v₀ fun found u => Onward v u ∧ ∀ child, found = some child → ti.executorRef = .subdag child) v := by
  have missing {ref : ExecutorRef} {u : View} (later : Onward v u) : Ends v₀ (fun found u => Onward v u ∧
      ∀ child, found = some child → ref = .subdag child) (.ok none) u :=
    .ok (onward.trans later) ⟨later, fun _ same => nomatch same⟩
  cases ref : ti.executorRef with
  | none => exact missing (.refl v)
  | attempt run task tries => exact missing (.refl v)
  | subdag child =>
    have finds {u : View} (later : Onward v u) : Ends v₀ (fun found u => Onward v u ∧
        ∀ other, found = some other → ExecutorRef.subdag child = .subdag other) (.ok (some child)) u :=
      .ok (onward.trans later) ⟨later, fun _ same => congrArg _ (Option.some.inj same)⟩
    have read (reply : Except StoreError DagRun) := (Onward.refl v).after (o := .getDagRun child) rfl reply
    refine safe_attempt trivial (fun reply run _ _ => ?_) fun reply e _ _ => missing (read reply)
    dsimp only
    split
    · have processing := processing.onward (read reply)
      have retries : (v.after (.getDagRun child) reply).Retries child :=
        .child snapshot ti processing.origin processing.inside ((read reply).hand ti held) scheduled ref
      have retried := fun t (later : Onward (v.after (.getDagRun child) reply) t) => (read reply).trans later
      exact Ends.attempt (retryRunLocked_conduct retries) (fun _ t later _ => finds (retried t later))
        fun _ t later => missing (retried t later)
    · exact finds (read reply)

/-- The task was attached to a child, refused, or left as it was. -/
theorem launchSubdag_conduct (t : Task) (now : Time) (processing : Processing snapshot v) (own : ti.runID = snapshot.runID)
    (held : ti ∈ v.hand) (scheduled : ti.state = .scheduled) (onward : Onward v₀ v) :
    (launchSubdag env run t ti now).Safe (footprint env)
      (Ends v₀ fun ti u => ti.runID = snapshot.runID ∧ ti ∈ u.hand ∧ Onward v u) v := by
  have refuses {w : View} (later : Onward v₀ w) (step : Onward v w) :
      (do
        updateTaskInstance { ti with tryNumber := ti.tryNumber + 1, state := .failed, startedAt := some now, finishedAt := some now }
        pure { ti with tryNumber := ti.tryNumber + 1, state := .failed, startedAt := some now, finishedAt := some now } :
        Act TaskInstance).Safe (footprint env) (Ends v₀ fun ti u => ti.runID = snapshot.runID ∧ ti ∈ u.hand ∧ Onward v u) w :=
    Ends.writes (.refuses ti (some now) (step.hand ti held) (own ▸ (processing.onward step).processes) scheduled rfl) (by simp)
      later fun u later written copy => .ok later ⟨own, copy, step.trans written⟩
  have attaches {w : View} (child : RunID) (later : Onward v₀ w) (step : Onward v w)
      (origin : ti.executorRef = .subdag child ∨
        ∃ run global, w.last = some ⟨.createDagRunBounded run global, .ok ()⟩ ∧ run.runID = child) :
      (do
        updateTaskInstance { ti with
          tryNumber := ti.tryNumber + 1, state := .running, startedAt := some now, executorRef := .subdag child }
        pure { ti with
          tryNumber := ti.tryNumber + 1, state := .running, startedAt := some now, executorRef := .subdag child } :
        Act TaskInstance).Safe (footprint env) (Ends v₀ fun ti u => ti.runID = snapshot.runID ∧ ti ∈ u.hand ∧ Onward v u) w :=
    Ends.writes (.attaches ti child (some now) (step.hand ti held) (own ▸ (processing.onward step).processes) scheduled origin rfl)
      (by simp) later fun u later written copy => .ok later ⟨own, copy, step.trans written⟩
  unfold launchSubdag
  refine Ends.bind (Ends.part onward (subdagDepthLoop_conduct _ _ _ (.refl v))) fun depth w later counted => ?_
  dsimp only
  split
  · exact refuses later counted.1
  · refine safe_perform trivial fun entry _ => ?_
    have looked := (Onward.refl w).after (o := .cachedDAG t.subdag) rfl entry
    have step := counted.1.trans looked
    cases entry with
    | none => exact refuses (later.trans looked) step
    | some c =>
      refine Ends.bind (previousChild_conduct (processing.onward step) (step.hand ti held) scheduled (later.trans looked)) ?_
      intro child u later tried
      cases child with
      | some child => exact attaches child later (step.trans tried.1) (.inl (tried.2 child rfl))
      | none =>
        have creates : Footprint env (.createDagRunBounded (childRun run t now) env.maxQueuedRunsGlobal) u :=
          ⟨rfl, .inl ⟨rfl, rfl⟩⟩
        have created (reply : Except StoreError Unit) := (Onward.refl u).after
          (o := .createDagRunBounded (childRun run t now) env.maxQueuedRunsGlobal) rfl reply
        refine safe_attempt creates (fun reply _ _ read => ?_) fun reply e _ _ => ?_
        · cases read
          exact attaches _ (later.trans (created _)) ((step.trans tried.1).trans (created _)) (.inr ⟨_, _, rfl, rfl⟩)
        · have whole := (step.trans tried.1).trans (created reply)
          cases e with
          | queueFull => exact .ok (later.trans (created reply)) ⟨own, whole.hand ti held, whole⟩
          | _ => exact .error (later.trans (created reply))

theorem mirrorSubdag_conduct (now : Time) (processing : Processing snapshot v) (own : ti.runID = snapshot.runID)
    (held : ti ∈ v.hand) (onward : Onward v₀ v) :
    (mirrorSubdag ti now).Safe (footprint env) (Ends v₀ fun ti u => ti.runID = snapshot.runID ∧ ti ∈ u.hand ∧ Onward v u) v := by
  have fails {w : View} (later : Onward v₀ w) (step : Onward v w) : (recordFailure ti).Safe (footprint env)
      (Ends v₀ fun ti u => ti.runID = snapshot.runID ∧ ti ∈ u.hand ∧ Onward v u) w := by
    refine (recordFailure_safe ((processing.onward step).writable (step.hand ti held)) (.refl w)).mono fun r u ended => ?_
    refine ⟨later.trans ended.1, fun row same => ?_⟩
    obtain ⟨copy, carries⟩ := ended.2 row same
    exact ⟨(congrArg InstanceKey.run carries.key).trans own, copy, step.trans ended.1⟩
  unfold mirrorSubdag
  split
  · rename_i child _
    have read (reply : Except StoreError DagRun) := (Onward.refl v).after (o := .getDagRun child) rfl reply
    refine safe_attempt trivial (fun reply run _ _ => ?_) fun reply e _ _ => fails (onward.trans (read reply)) (read reply)
    dsimp only
    split
    · have writable := (processing.onward (read reply)).writable ((read reply).hand ti held)
      have same : Carries ti { ti with state := .success, finishedAt := some now } := ⟨rfl, rfl, rfl, rfl⟩
      have concludes : (v.after (.getDagRun child) reply).Concludes ti { ti with state := .success, finishedAt := some now } :=
        .succeeds same (.inl rfl)
      refine Prog.Safe.andThen _ (finalizeWrite_safe ⟨writable.base, same, writable.unspent⟩ concludes) fun _ u written => ?_
      obtain ⟨wrote, rfl⟩ := written
      exact .ok ((onward.trans (read reply)).after rfl wrote) ⟨own, List.mem_cons_self, (read reply).after rfl wrote⟩
    · exact fails (onward.trans (read reply)) (read reply)
    · exact fails (onward.trans (read reply)) (read reply)
    · exact fails (onward.trans (read reply)) (read reply)
    · exact .ok (onward.trans (read reply)) ⟨own, (read reply).hand ti held, read reply⟩
    · exact .ok (onward.trans (read reply)) ⟨own, (read reply).hand ti held, read reply⟩
  · exact fails onward (.refl v)

theorem advanceSubdag_conduct (t : Task) (processing : Processing snapshot v) (own : ti.runID = snapshot.runID)
    (held : ti ∈ v.hand) (onward : Onward v₀ v) :
    (advanceSubdag env run t ti).Safe (footprint env)
      (Ends v₀ fun ti u => ti.runID = snapshot.runID ∧ ti ∈ u.hand ∧ Onward v u) v := by
  refine safe_perform trivial fun now _ => ?_
  have timed := (Onward.refl v).after (o := .now) rfl now
  have whole {r : Except Failure TaskInstance} {w : View}
      (ended : Ends v₀ (fun ti u => ti.runID = snapshot.runID ∧ ti ∈ u.hand ∧ Onward (v.after .now now) u) r w) :
      Ends v₀ (fun ti u => ti.runID = snapshot.runID ∧ ti ∈ u.hand ∧ Onward v u) r w :=
    ⟨ended.1, fun row same => ⟨(ended.2 row same).1, (ended.2 row same).2.1, timed.trans (ended.2 row same).2.2⟩⟩
  split
  · rename_i scheduled
    exact (launchSubdag_conduct t now (processing.onward timed) own (timed.hand ti held) scheduled (onward.trans timed)).mono
      fun _ _ => whole
  · exact (mirrorSubdag_conduct now (processing.onward timed) own (timed.hand ti held) (onward.trans timed)).mono fun _ _ => whole

end Subdag

/-! ### Collection -/

section Collection

variable {snapshot run : DagRun} {d : DAG} {byTask : ByTask} {ti : TaskInstance}

theorem dependentReady_waiting_conduct (dep : DependsOnDag) (onward : Onward v₀ v) :
    (dependentReady.waiting run dep).Safe (footprint env) (Ends v₀ fun _ u => Onward v u) v := by
  unfold dependentReady.waiting
  split
  · refine safe_perform trivial fun now _ => ?_
    have timed := (Onward.refl v).after (o := .now) rfl now
    exact .ok (onward.trans timed) timed
  · exact .ok onward (.refl v)

theorem dependentReady_conduct (dep : DependsOnDag) (onward : Onward v₀ v) :
    (dependentReady env run d dep).Safe (footprint env) (Ends v₀ fun _ u => Onward v u) v := by
  unfold dependentReady
  split
  · exact .ok onward (.refl v)
  · rename_i date _
    have read (reply : Except StoreError DagRun) := (Onward.refl v).after (o := .getDagRunByLogicalDate dep.dag date) rfl reply
    have waits (reply : Except StoreError DagRun) : (dependentReady.waiting run dep).Safe (footprint env)
        (Ends v₀ fun _ u => Onward v u) (v.after (.getDagRunByLogicalDate dep.dag date) reply) :=
      (dependentReady_waiting_conduct dep (onward.trans (read reply))).mono fun _ _ ended =>
        ⟨ended.1, fun a same => (read reply).trans (ended.2 a same)⟩
    refine safe_attempt trivial (fun reply target _ _ => ?_) fun reply e _ _ => waits reply
    dsimp only
    split
    · exact .ok (onward.trans (read reply)) (read reply)
    · exact waits reply

/-- The gate lets the task pass, keeps it waiting, or ends it by its timeout. -/
theorem dependencyGate_conduct (t : Task) (working : Working snapshot byTask v) (found : byTask.get t.id = some ti)
    (scheduled : ti.state = .scheduled) (onward : Onward v₀ v) :
    (dependencyGate env run d t ti).Safe (footprint env)
      (Ends v₀ fun gate u => Onward v u ∧ ∀ resolved, gate = some (some resolved) → Working snapshot (byTask.set resolved) u) v := by
  unfold dependencyGate
  split
  · exact .ok onward ⟨.refl v, fun _ same => nomatch same⟩
  · rename_i dep _
    refine Ends.bind (dependentReady_conduct dep onward) fun ready u later step => ?_
    dsimp only
    split
    · exact .ok later ⟨step, fun _ same => nomatch same⟩
    · split
      · exact .ok later ⟨step, fun _ same => nomatch same⟩
      · refine safe_perform trivial fun now _ => ?_
        have timed := (Onward.refl u).after (o := .now) rfl now
        have working := working.onward (step.trans timed)
        obtain ⟨held, own, _, processes⟩ := working.found found
        split
        · have settles : (u.after .now now).Rewrites env { ti with state := .skipped, finishedAt := some now } :=
            .settles ti held processes scheduled ⟨rfl, rfl, rfl, rfl⟩ rfl
          refine Ends.writes settles (by simp) (later.trans timed) fun w later written copy => .ok later ⟨?_, ?_⟩
          · exact (step.trans timed).trans written
          · rintro resolved ⟨⟩
            exact { working.toProcessing.onward written with held := (working.held.onward written).set own copy }
        · have settles : (u.after .now now).Rewrites env
              { ti with state := .failed, startedAt := some now, finishedAt := some now } :=
            .settles ti held processes scheduled ⟨rfl, rfl, rfl, rfl⟩ rfl
          refine Ends.writes settles (by simp) (later.trans timed) fun w later written copy => .ok later ⟨?_, ?_⟩
          · exact (step.trans timed).trans written
          · rintro resolved ⟨⟩
            exact { working.toProcessing.onward written with held := (working.held.onward written).set own copy }

/-- A ready task names its own instance, and its run defines it. -/
def Readied (env : Env) (v : View) (rt : ReadyTask) : Prop :=
  v.Defines env rt.run rt.t ∧ rt.ti.key = ⟨rt.run.runID, rt.t.id⟩

theorem View.Defines.mono {t : Task} (defines : v.Defines env run t) (known : ∀ entry ∈ v.entries, entry ∈ u.entries) :
    u.Defines env run t := by
  obtain ⟨d, member, parsed | ⟨⟨dag, c, entry, same⟩ | parsed, yaml⟩⟩ := defines
  · exact ⟨d, member, .inl parsed⟩
  · exact ⟨d, member, .inr ⟨.inl ⟨dag, c, known _ entry, same⟩, yaml⟩⟩
  · exact ⟨d, member, .inr ⟨.inr parsed, yaml⟩⟩

/-- What the collection loop keeps. -/
structure Collecting (env : Env) (snapshot run : DagRun) (d : DAG) (c : Collected) (v : View) : Prop where
  working : Working snapshot c.byTask v
  source : v.Source env run d
  ready : ∀ rt ∈ c.ready, Readied env v rt

theorem Collecting.onward {c : Collected} (collecting : Collecting env snapshot run d c v) (onward : Onward v u) :
    Collecting env snapshot run d c u where
  working := collecting.working.onward onward
  source := collecting.source.onward onward
  ready rt member := (collecting.ready rt member).imp_left fun defines => defines.mono onward.entries

theorem Collecting.set {c : Collected} (collecting : Collecting env snapshot run d c v) (onward : Onward v u)
    (working : Working snapshot (c.byTask.set ti) u) : Collecting env snapshot run d { c with byTask := c.byTask.set ti } u :=
  { collecting.onward onward with working }

/-- The last step of the collection: the task is ready, or its condition skips it. -/
theorem collectWhen_conduct (c : Collected) {t : Task} (runs : Bool) (member : t ∈ d.tasks) (own : run.runID = snapshot.runID)
    (found : c.byTask.get t.id = some ti) (scheduled : ti.state = .scheduled) (collecting : Collecting env snapshot run d c v)
    (onward : Onward v₀ v) :
    (if runs then pure { c with ready := c.ready ++ [⟨run, t, ti, d.maxActiveTasks⟩] } else do
      let now ← timeNow
      let ti := { ti with state := .skipped, finishedAt := some now }
      updateTaskInstance ti
      pure { c with byTask := c.byTask.set ti } : Act Collected).Safe (footprint env) (Ends v₀ (Collecting env snapshot run d)) v := by
  split
  · refine .ok onward { collecting with ready := fun rt among => ?_ }
    rcases List.mem_append.mp among with old | new
    · exact collecting.ready rt old
    · obtain rfl := List.mem_singleton.mp new
      obtain ⟨_, ofRun, ofTask, _⟩ := collecting.working.found found
      refine ⟨⟨d, member, collecting.source⟩, ?_⟩
      simp [TaskInstance.key, ofRun, ofTask, own]
  · refine safe_perform trivial fun now _ => ?_
    have timed := (Onward.refl v).after (o := .now) rfl now
    have working := collecting.working.onward timed
    obtain ⟨held, ofRun, _, processes⟩ := working.found found
    have settles : (v.after .now now).Rewrites env { ti with state := .skipped, finishedAt := some now } :=
      .settles ti held processes scheduled ⟨rfl, rfl, rfl, rfl⟩ rfl
    refine Ends.writes settles (by simp) (onward.trans timed) fun u later written copy => .ok later ?_
    refine collecting.set (timed.trans written) ?_
    exact { working.toProcessing.onward written with held := (working.held.onward written).set ofRun copy }

theorem collectTask_conduct (c : Collected) {t : Task} (member : t ∈ d.tasks) (own : run.runID = snapshot.runID)
    (collecting : Collecting env snapshot run d c v) (onward : Onward v₀ v) :
    (collectTask env run d c t).Safe (footprint env) (Ends v₀ (Collecting env snapshot run d)) v := by
  unfold collectTask
  cases found : c.byTask.get t.id with
  | none => exact .ok onward collecting
  | some ti =>
    obtain ⟨held, ofRun, ofTask, _⟩ := collecting.working.found found
    dsimp only
    split
    · split
      · exact .ok onward collecting
      · refine Ends.bind (advanceSubdag_conduct t collecting.working.toProcessing ofRun held onward) ?_
        rintro row u later ⟨own, copy, step⟩
        refine .ok later (collecting.set step ?_)
        exact { collecting.working.toProcessing.onward step with held := (collecting.working.held.onward step).set own copy }
    · split
      · exact .ok onward collecting
      · rename_i scheduled
        replace scheduled : ti.state = .scheduled := by simpa using scheduled
        split
        · exact .ok onward collecting
        · refine Ends.bind (dependencyGate_conduct t collecting.working found scheduled onward) ?_
          rintro gate u later ⟨step, resolves⟩
          match gate, resolves with
          | none, _ => exact .ok later (collecting.onward step)
          | some (some resolved), resolves => exact .ok later (collecting.set step (resolves resolved rfl))
          | some none, _ =>
            have collecting := collecting.onward step
            dsimp only
            split
            · exact collectWhen_conduct c true member own found scheduled collecting later
            · refine safe_perform trivial fun runs _ => ?_
              have asked := (Onward.refl u).after (o := .evalWhen run t (ti.tryNumber + 1)) rfl runs
              exact collectWhen_conduct c runs member own found scheduled (collecting.onward asked) (later.trans asked)

theorem collectReady_conduct (own : run.runID = snapshot.runID) (working : Working snapshot byTask v) (source : v.Source env run d) :
    (collectReady env run d byTask).Safe (footprint env)
      (Prog.returns fun c u => Onward v u ∧ Collecting env snapshot run d c u) v := by
  apply Prog.Safe.fold fun rest c u => (∀ t ∈ rest, t ∈ d.tasks) ∧ Onward v u ∧ Collecting env snapshot run d c u
  · exact ⟨fun _ member => member, .refl v, working, source, fun _ none => nomatch none⟩
  · rintro t rest c u ⟨defined, onward, collecting⟩
    have later : ∀ t ∈ rest, t ∈ d.tasks := fun t member => defined t (.tail _ member)
    split
    · exact ⟨later, onward, collecting⟩
    · -- an error ends the loop with what was collected before it
      have collected := collectTask_conduct c (defined t (.head _)) own collecting (.refl u)
      refine Ends.attempt collected (fun c w step kept => ⟨later, onward.trans step, kept⟩) fun e w step => ?_
      exact ⟨later, onward.trans step, { collecting.onward step with }⟩
  · exact fun c u kept => kept.2

end Collection

/-! ### Finalization -/

section Finalization

variable {snapshot run : DagRun} {d : DAG} {byTask : ByTask}

theorem timeoutInstances_conduct (fin : Time) {tis : List TaskInstance} (working : Working snapshot tis v) (onward : Onward v₀ v) :
    (timeoutInstances fin tis).Safe (footprint env) (Ends v₀ fun _ _ => True) v := by
  have loops : (timeoutInstances fin tis).Safe (footprint env) (Ends v fun _ _ => True) v := by
    refine Ends.forEach (.refl v) fun ti member t onward => ?_
    have expires {u : View} (onward : Onward v u) : (do
        let _ ← (updateTaskInstanceGuarded { ti with state := .timedOut, finishedAt := some fin } ti.executorRef).attempt
        pure () : Act Unit).Safe (footprint env) (Ends v fun _ _ => True) u := by
      have working := working.onward onward
      have own := working.held ti member
      have writable := working.writable own.2
      have permitted : Footprint env
          (.updateTaskInstanceGuarded { ti with state := .timedOut, finishedAt := some fin } ti.executorRef) u :=
        ⟨writable.unspent, ti, writable.base, rfl, .timesOut (own.1 ▸ working.processes) ⟨rfl, rfl, rfl, rfl⟩ rfl⟩
      exact safe_attempt permitted (fun reply _ _ _ => .ok (onward.after rfl reply) trivial)
        fun reply _ _ _ => .ok (onward.after rfl reply) trivial
    dsimp only
    split
    · exact .ok onward trivial
    · split
      · exact Ends.bind (Ends.part onward (cancelAttempt_safe cascade_safe ti.executorRef (working.onward onward).locked))
          fun _ u later _ => expires later
      · exact expires onward
  exact (Ends.part onward loops).mono fun _ _ ended => ⟨ended.1, fun _ _ => trivial⟩

theorem timeoutRun_conduct (own : run.runID = snapshot.runID) {tis : List TaskInstance} (working : Working snapshot tis v)
    (onward : Onward v₀ v) : (timeoutRun run tis).Safe (footprint env) (Ends v₀ fun _ _ => True) v := by
  refine safe_perform trivial fun fin _ => ?_
  have timed := (Onward.refl v).after (o := .now) rfl fin
  have finishes : (v.after .now fin).Finishes run.runID := .inl (own ▸ (working.onward timed).processes)
  have written (reply : Except StoreError Unit) := timed.after
    (o := .updateDagRunState run.runID .timedOut run.startedAt (some fin)) rfl reply
  refine safe_attempt finishes (fun reply _ _ _ => ?_) fun reply _ _ _ => .ok (onward.trans (written reply)) trivial
  exact timeoutInstances_conduct fin (working.onward (written reply)) (onward.trans (written reply))

theorem enforceDeadlines_conduct (own : run.runID = snapshot.runID) {tis : List TaskInstance} (working : Working snapshot tis v)
    (onward : Onward v₀ v) : (enforceDeadlines d run tis).Safe (footprint env) (Ends v₀ fun _ _ => True) v := by
  unfold enforceDeadlines
  split
  · exact .ok onward trivial
  · refine safe_perform trivial fun now _ => ?_
    have timed := (Onward.refl v).after (o := .now) rfl now
    split
    · exact timeoutRun_conduct own (working.onward timed) (onward.trans timed)
    · exact .ok (onward.trans timed) trivial

theorem finalState_some {final : RunState} (ended : finalState d byTask = some final) :
    final = .failed ∨ final = .cancelled ∨ final = .success := by
  unfold finalState at ended
  dsimp only at ended
  split at ended
  · split at ended
    · cases ended
      exact .inl rfl
    · split at ended
      · cases ended
        exact .inr (.inl rfl)
      · cases ended
        exact .inr (.inr rfl)
  · cases ended

theorem finalizeRun_conduct (own : run.runID = snapshot.runID) (processing : Processing snapshot v) (onward : Onward v₀ v) :
    (finalizeRun run d).Safe (footprint env) (Ends v₀ fun _ _ => True) v := by
  refine Ends.call processing.locked rfl onward fun reply tis honest read later => ?_
  cases read
  have listed := (Onward.refl v).after (o := .listTaskInstances run.runID) rfl (.ok tis)
  have working : Working snapshot tis (v.after (.listTaskInstances run.runID) (.ok tis)) :=
    { processing.onward listed with held := fun ti member => ⟨(honest ti member).trans own, List.mem_append_left _ member⟩ }
  cases ended : finalState d tis with
  | none => exact enforceDeadlines_conduct own working later
  | some final =>
    refine safe_perform trivial fun fin _ => ?_
    replace later := later.after (o := .now) rfl fin
    have timed := (Onward.refl (v.after (.listTaskInstances run.runID) (.ok tis))).after (o := .now) rfl fin
    have finishes : ((v.after (.listTaskInstances run.runID) (.ok tis)).after .now fin).Finishes run.runID :=
      .inl (own ▸ (working.onward timed).processes)
    split
    · exact Ends.last finishes rfl later fun _ _ _ => trivial
    · rename_i other
      have permitted : Footprint env (.updateDagRunState run.runID final run.startedAt (some fin))
          ((v.after (.listTaskInstances run.runID) (.ok tis)).after .now fin) ∧
          (Op.updateDagRunState run.runID final run.startedAt (some fin)).quiet = true := by
        rcases finalState_some ended with rfl | rfl | rfl
        · exact ⟨finishes, rfl⟩
        · exact ⟨trivial, rfl⟩
        · exact absurd rfl other
      exact Ends.last permitted.1 permitted.2 later fun _ _ _ => trivial

end Finalization

/-! ### The run as a whole -/

section Process

variable {snapshot run : DagRun} {d : DAG} {byTask : ByTask}

/-- What the collection starts with. -/
structure Prepared (env : Env) (snapshot run : DagRun) (d : DAG) (byTask : ByTask) (v : View) : Prop where
  own : run.runID = snapshot.runID
  working : Working snapshot byTask v
  source : v.Source env run d

theorem settleRun_conduct (prepared : Prepared env snapshot run d byTask v) :
    (do
      let byTask ← propagateBlocks d.tasks (d.tasks.length + 1) byTask
      let now ← timeNow
      let byTask ← Prog.fold (requeueTask now) d.tasks byTask
      if run.held then pure none else pure (some (run, d, byTask)) : Act (Option (DagRun × DAG × ByTask))).Safe (footprint env)
      (Ends v fun result u => ∀ run d byTask, result = some (run, d, byTask) → Prepared env snapshot run d byTask u) v := by
  refine Ends.bind (propagateBlocks_conduct _ _ prepared.working (.refl v)) fun byTask u onward working => ?_
  refine safe_perform trivial fun now _ => ?_
  have timed := (Onward.refl u).after (o := .now) rfl now
  refine Ends.bind (m := fun byTask u => Working snapshot byTask u) ?_ fun byTask w onward working => ?_
  · exact Ends.fold (fun byTask u => Working snapshot byTask u) (onward.trans timed) (working.onward timed)
      fun t _ byTask u onward working => requeueTask_conduct now t working onward
  · split
    · exact .ok onward fun _ _ _ same => nomatch same
    · refine .ok onward fun _ _ _ same => ?_
      cases same
      exact ⟨prepared.own, working, prepared.source.onward onward⟩

theorem prepareRun_conduct (entered : Entered snapshot v) (gated : Gated snapshot v) :
    (prepareRun env snapshot).Safe (footprint env) (fun result u => Advances snapshot.dagID v u ∧
      ∀ run d byTask, result = .ok (some (run, d, byTask)) → Prepared env snapshot run d byTask u) v := by
  refine Prog.Safe.bind _ (expandedRun_conduct entered) (fun expanded u ended => ?_) fun e u ended => ?_
  · obtain ⟨d, run, tis⟩ := expanded
    obtain ⟨onward, ended⟩ := ended
    obtain ⟨source, own, state, held, processing, unread⟩ := ended _ rfl
    dsimp only
    split
    · refine Prog.Safe.bind _ (failEmptyRun_conduct own processing onward) (fun _ w ended => ?_) fun e w ended => ?_
      · exact ⟨ended.1.advances _, fun _ _ _ same => nomatch same⟩
      · exact ⟨ended.1.advances _, fun _ _ _ same => nomatch same⟩
    · refine Prog.Safe.bind _ (startRun_conduct own state processing unread (gated.onward onward)) (fun started w began => ?_)
        fun e w began => ⟨onward.thenAdvances began.advances, fun _ _ _ same => nomatch same⟩
      obtain ⟨advances, hand, entries, adopted, same⟩ := began
      obtain ⟨sameID, sameYAML⟩ := same started rfl
      have prepared : Prepared env snapshot started d tis w := by
        refine ⟨sameID.trans own, ⟨⟨advances.origin.trans processing.origin, advances.inside.trans processing.inside, ?_⟩, ?_⟩, ?_⟩
        · rw [adopted]
          exact processing.taken
        · intro ti member
          rw [hand]
          exact held ti member
        · unfold View.Source View.Known at source ⊢
          rw [entries, sameYAML]
          exact source
      refine (settleRun_conduct prepared).mono fun r t ended => ⟨(onward.thenAdvances advances).onward ended.1, ?_⟩
      exact fun run d byTask same => ended.2 _ same run d byTask rfl
  · exact ⟨ended.1.advances _, fun _ _ _ same => nomatch same⟩

theorem advanceRun_conduct (entered : Entered snapshot v) (gated : Gated snapshot v) :
    (advanceRun env snapshot).Safe (footprint env) (Prog.returns fun ready u => Advances snapshot.dagID v u ∧
      ∀ rt ∈ ready, Readied env u rt) v := by
  refine Prog.Safe.andThen (fun result u => Advances snapshot.dagID v u ∧
    ∀ run d byTask, result = .ok (some (run, d, byTask)) → Prepared env snapshot run d byTask u)
    (Prog.Safe.attempt (prepareRun_conduct entered gated)) fun result u prepared => ?_
  obtain ⟨advances, prepared⟩ := prepared
  match result, prepared with
  | .error e, _ => exact ⟨advances, fun _ none => nomatch none⟩
  | .ok none, _ => exact ⟨advances, fun _ none => nomatch none⟩
  | .ok (some (run, d, byTask)), prepared =>
    obtain ⟨own, working, source⟩ := prepared run d byTask rfl
    refine Prog.Safe.andThen (fun c w => Onward u w ∧ Collecting env snapshot run d c w) ?_ fun c w collected => ?_
    · exact collectReady_conduct own working source
    · obtain ⟨onward, collecting⟩ := collected
      have ended (w' : View) (later : Onward w w') : Advances snapshot.dagID v w' ∧ ∀ rt ∈ c.ready, Readied env w' rt :=
        ⟨advances.onward (onward.trans later), (collecting.onward later).ready⟩
      dsimp only
      split
      · refine Prog.Safe.andThen _ (Ends.logged (finalizeRun_conduct own collecting.working.toProcessing (.refl w))) ?_
        exact fun _ w' later => ended w' later
      · exact ended w (.refl w)

theorem processRun_conduct (free : v.inside = none) (origin : v.origin = .tick) (listed : snapshot ∈ v.listed)
    (gated : Gated snapshot v) :
    (processRun env snapshot).Safe (footprint env) (Prog.returns fun ready u => Advances snapshot.dagID v u ∧
      ∀ rt ∈ ready, Readied env u rt) v := by
  refine locked_conduct free ⟨origin, listed⟩ ?_
  refine (advanceRun_conduct (v := v.after (.lock (.process snapshot)) ()) ⟨origin, rfl, rfl, rfl⟩ gated).mono fun result u ended => ?_
  cases result with
  | error e => exact ended.elim
  | ok ready =>
    obtain ⟨advances, readied⟩ := ended
    exact ⟨advances.inside, { advances with inside := free.symm }, readied⟩

end Process

end Cronova.Scheduler
