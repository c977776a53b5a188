import Cronova.Scheduler.Conduct.Run

/-! The tick keeps to its footprint, and with it every program that the process serves. -/

set_option autoImplicit false

namespace Cronova.Scheduler

open Model Store Process
open Calendar (Time)

variable {env : Env} {v₀ v u : View}

/-! ### Admission -/

section Admission

/-- The tick admits the tasks that it has collected. -/
structure Admitting (env : Env) (ready : List ReadyTask) (v : View) : Prop where
  origin : v.origin = .tick
  inside : v.inside = some .admission
  readied : ∀ rt ∈ ready, Readied env v rt

variable {ready : List ReadyTask} {rt : ReadyTask}

theorem Admitting.onward (admitting : Admitting env ready v) (onward : Onward v u) : Admitting env ready u where
  origin := onward.origin.trans admitting.origin
  inside := onward.inside.trans admitting.inside
  readied rt member := (admitting.readied rt member).imp_left fun defines => defines.mono onward.entries

theorem Admitting.after (admitting : Admitting env ready v) {o : Op} (quiet : o.quiet = true) (reply : o.Reply) :
    Admitting env ready (v.after o reply) :=
  admitting.onward ((Onward.refl v).after quiet reply)

theorem groupUp_conduct (b : Budgets) (group : String) (admitting : Admitting env ready v) :
    (groupUp b group).Safe (footprint env) (Prog.returns fun _ u => Admitting env ready u) v := by
  unfold groupUp
  split
  · exact admitting
  · split
    · exact admitting
    · exact safe_perform trivial fun up _ => admitting.after (o := .groupAvailable group) rfl up

theorem dagBudget_conduct (b : Budgets) (rt : ReadyTask) (admitting : Admitting env ready v) :
    (dagBudget b rt).Safe (footprint env) (Prog.returns fun _ u => Admitting env ready u) v := by
  unfold dagBudget
  split
  · exact admitting
  · split
    · exact admitting
    · exact safe_attempt trivial (fun reply _ _ _ => admitting.after (o := .countActiveTasksForDag rt.run.dagID) rfl reply)
        fun reply _ _ _ => admitting.after (o := .countActiveTasksForDag rt.run.dagID) rfl reply

theorem poolSlots_conduct (name : String) (admitting : Admitting env ready v) :
    (poolSlots name).Safe (footprint env) (Prog.returns fun _ u => Admitting env ready u) v :=
  safe_attempt trivial (fun reply _ _ _ => admitting.after (o := .getPool name) rfl reply)
    fun reply _ _ _ => admitting.after (o := .getPool name) rfl reply

theorem poolBudget_conduct (b : Budgets) (pool : String) (admitting : Admitting env ready v) :
    (poolBudget b pool).Safe (footprint env) (Prog.returns fun _ u => Admitting env ready u) v := by
  unfold poolBudget
  split
  · exact admitting
  · refine safe_attempt trivial (fun reply used _ _ => ?_) fun reply _ _ _ => admitting.after rfl reply
    have counted := admitting.after (o := .countRunningInPool pool) rfl reply
    exact Prog.Safe.andThen _ (poolSlots_conduct pool counted) fun _ _ admitting => admitting

/-- The queued write and the goroutine that is started after it. -/
theorem dispatch_conduct {cur : TaskInstance} (admitting : Admitting env ready v) (member : rt ∈ ready) (held : cur ∈ v.hand)
    (key : cur.key = rt.ti.key) (scheduled : cur.state = .scheduled) :
    (dispatch rt.run rt.t cur).Safe (footprint env) (fun _ u => Admitting env ready u) v := by
  obtain ⟨defines, names⟩ := admitting.readied rt member
  have own : cur.key = ⟨rt.run.runID, rt.t.id⟩ := key.trans names
  have ofRun : rt.run.runID = cur.runID := (congrArg InstanceKey.run own).symm
  have ofTask : rt.t.id = cur.taskID := (congrArg InstanceKey.task own).symm
  rw [dispatch_eq]
  have permitted : Footprint env (.updateTaskInstance (dispatched rt.run rt.t cur)) v :=
    .dispatches cur rt.run rt.t held admitting.origin admitting.inside scheduled ofRun ofTask defines rfl
  refine safe_call permitted (fun reply _ _ read => ?_) fun reply _ _ _ => ⟨admitting.origin, admitting.inside, admitting.readied⟩
  cases read
  refine Prog.Safe.tracked ⟨admitting.origin, admitting.inside, rfl, defines, cur, rfl, ofRun, ofTask⟩ fun _ _ => ?_
  exact ⟨admitting.origin, admitting.inside, admitting.readied⟩

theorem admitTask_conduct (admitting : Admitting env ready v) (member : rt ∈ ready) :
    (admitTask rt).Safe (footprint env) (Prog.returns fun _ u => Admitting env ready u) v := by
  have permitted : Footprint env (.getTaskInstance rt.ti.key) v := fun operates => by
    simp [View.Operates, admitting.origin] at operates
  refine safe_attempt permitted (fun reply cur honest read => ?_) fun reply _ _ _ => admitting.after rfl reply
  cases read
  have looked := admitting.after (o := .getTaskInstance rt.ti.key) rfl (.ok cur)
  dsimp only
  split
  · exact looked
  · rename_i scheduled
    refine Prog.Safe.andThen (fun _ u => Admitting env ready u) (Prog.Safe.attempt ?_) fun result u kept => ?_
    · exact dispatch_conduct looked member List.mem_cons_self (honest cur rfl) (by simpa using scheduled)
    · cases result with
      | ok _ => exact kept
      | error e => exact kept

theorem admitRound_conduct (b : Budgets) (admitting : Admitting env ready v) (member : rt ∈ ready) :
    (admitRound b rt).Safe (footprint env) (Prog.returns fun _ u => Admitting env ready u) v := by
  unfold admitRound
  split
  · exact admitting
  · refine Prog.Safe.andThen _ (groupUp_conduct b rt.t.workerGroup admitting) fun group u admitting => ?_
    obtain ⟨b, up⟩ := group
    show Prog.Safe _ (if _ then _ else _) _ _
    split
    · exact admitting
    · refine Prog.Safe.andThen _ (dagBudget_conduct b rt admitting) fun budget u admitting => ?_
      obtain ⟨b, within⟩ := budget
      show Prog.Safe _ (if _ then _ else _) _ _
      split
      · exact admitting
      · refine Prog.Safe.andThen _ (poolBudget_conduct b rt.ti.pool admitting) fun slots u admitting => ?_
        cases slots with
        | none => exact admitting
        | some rem =>
          dsimp only
          split
          · exact admitting
          · refine Prog.Safe.andThen _ (admitTask_conduct admitting member) fun launched u admitting => ?_
            cases launched with
            | true => exact admitting
            | false => exact admitting

theorem admitReady_conduct (free : v.inside = none) (origin : v.origin = .tick) (readied : ∀ rt ∈ ready, Readied env v rt) :
    (admitReady env ready).Safe (footprint env) (Prog.returns fun _ u => Stays v u) v := by
  unfold admitReady
  split
  · exact ⟨rfl, rfl⟩
  · have admits : (locked .admission do
        let active ← countActiveTaskInstances
        let _ ← Prog.fold admitRound (ready.insertionSort fun a b => a.before b) { global := env.maxConcurrentTasks - active }
        pure () : Act Unit).Safe (footprint env) (fun _ u => Stays v u) v := by
      refine locked_conduct free origin ?_
      have entered : Admitting env ready (v.after (.lock .admission) ()) := ⟨origin, rfl, readied⟩
      have stays {t : View} (admitting : Admitting env ready t) : t.inside = some .admission ∧ Stays v (t.after .unlock ()) :=
        ⟨admitting.inside, admitting.origin.trans origin.symm, free.symm⟩
      refine safe_call trivial (fun reply active _ _ => ?_) fun reply _ _ _ => stays (entered.after rfl reply)
      refine Prog.Safe.andThen (fun _ u => Admitting env ready u) ?_ fun _ u admitting => stays admitting
      apply Prog.Safe.fold fun rest _ u => (∀ rt ∈ rest, rt ∈ ready) ∧ Admitting env ready u
      · exact ⟨fun rt member => (List.mem_insertionSort _).mp member, entered.after rfl reply⟩
      · rintro rt rest b u ⟨among, admitting⟩
        refine (admitRound_conduct b admitting (among rt (.head _))).mono fun result w kept => ?_
        cases result with
        | ok b => exact ⟨fun rt member => among rt (.tail _ member), kept⟩
        | error e => exact kept.elim
      · exact fun _ u kept => kept.2
    refine Prog.Safe.andThen (fun _ u => Stays v u) (Prog.Safe.attempt (admits.mono fun _ _ stays => stays)) ?_
    exact fun _ _ stays => stays

end Admission

/-! ### Promotion -/

section Promotion

variable {run : DagRun} {p : Promotion}

theorem discardRun_conduct (run : DagRun) (origin : v.origin = .tick) :
    (discardRun run).Safe (footprint env) (Prog.returns fun _ u => Onward v u) v := by
  refine safe_perform trivial fun now _ => ?_
  have timed := (Onward.refl v).after (o := .now) rfl now
  have cancelled (reply : Except StoreError Unit) := timed.after
    (o := .updateDagRunState run.runID .cancelled (run.startedAt.or (some now)) (some now)) rfl reply
  refine safe_attempt trivial (fun reply _ _ _ => ?_) fun reply _ _ _ => cancelled reply
  have unlocked : Footprint env (.listTaskInstances run.runID) ((v.after .now now).after
      (.updateDagRunState run.runID .cancelled (run.startedAt.or (some now)) (some now)) reply) := fun operates => by
    simp [View.Operates, (cancelled reply).origin, origin] at operates
  refine safe_attempt unlocked (fun listed tis _ read => ?_) fun listed _ _ _ => (cancelled reply).after rfl listed
  cases read
  apply Prog.Safe.forEach fun rest u => (∀ ti ∈ rest, ti ∈ u.hand) ∧ Onward v u
  · exact ⟨fun ti member => List.mem_append_left _ member, (cancelled reply).after (o := .listTaskInstances run.runID) rfl (.ok tis)⟩
  · rintro ti rest u ⟨held, onward⟩
    split
    · exact ⟨fun ti member => held ti (.tail _ member), onward⟩
    · rename_i active
      have cancels : u.Rewrites env { ti with state := .cancelled, finishedAt := some now } :=
        .cancels ti (held ti (.head _)) (by simpa using active) ⟨rfl, rfl, rfl, rfl⟩ rfl
      have permitted : Footprint env (.updateTaskInstance { ti with state := .cancelled, finishedAt := some now }) u := cancels
      refine (Ends.logged (Ends.last permitted rfl (.refl u) fun _ _ _ => trivial)).mono fun result w ended => ?_
      cases result with
      | ok _ => exact ⟨fun ti member => ended.hand ti (held ti (.tail _ member)), onward.trans ended⟩
      | error e => exact ended.elim
  · exact fun u kept => kept.2

theorem mem_refill {queue : List DagRun} {sorted : DagID → List DagRun} (member : run ∈ refill queue sorted) :
    ∃ dag, run ∈ sorted dag := by
  induction queue generalizing sorted with
  | nil => cases member
  | cons r rest ih =>
    rw [refill] at member
    split at member
    · exact ih member
    · rename_i next later slot
      rcases List.mem_cons.mp member with rfl | among
      · exact ⟨r.dagID, by simp [slot]⟩
      · obtain ⟨dag, among⟩ := ih among
        by_cases same : dag = r.dagID
        · subst same
          rw [Function.update_self] at among
          exact ⟨r.dagID, by simp [slot, among]⟩
        · rw [Function.update_of_ne same] at among
          exact ⟨dag, among⟩

/-- The order of the drain is one of the queued runs. -/
theorem mem_reorderPriorityQueues {priority : DagID → Bool} {queued : List DagRun}
    (member : run ∈ reorderPriorityQueues priority queued) : run ∈ queued := by
  obtain ⟨dag, among⟩ := mem_refill member
  dsimp only at among
  split at among
  · exact (List.mem_filter.mp ((List.mem_insertionSort _).mp among)).1
  · exact (List.mem_filter.mp among).1

/-- What the promotion loop keeps: every DAG seen running is counted. -/
structure Promoting (env : Env) (p : Promotion) (v : View) : Prop where
  origin : v.origin = .tick
  free : v.inside = none
  promoting : v.promoting = true
  counted : ∀ dag ∈ v.seen, 1 ≤ p.running dag
  positive : ∀ dag, 0 ≤ p.running dag
  readied : ∀ rt ∈ p.ready, Readied env v rt

theorem Promoting.onward (promoting : Promoting env p v) (onward : Onward v u) : Promoting env p u where
  origin := onward.origin.trans promoting.origin
  free := onward.inside.trans promoting.free
  promoting := onward.promoting.trans promoting.promoting
  counted dag member := promoting.counted dag (onward.seen ▸ member)
  positive := promoting.positive
  readied rt member := (promoting.readied rt member).imp_left fun defines => defines.mono onward.entries

/-- A run that was processed counts as running. -/
theorem Promoting.processed {collected : List ReadyTask} (promoting : Promoting env p v) (advances : Advances run.dagID v u)
    (readied : ∀ rt ∈ collected, Readied env u rt) :
    Promoting env ⟨Function.update p.running run.dagID (p.running run.dagID + 1), p.globalRunning + 1, p.ready ++ collected⟩ u := by
  refine ⟨advances.origin.trans promoting.origin, advances.inside.trans promoting.free,
    advances.promoting.trans promoting.promoting, fun dag member => ?_, fun dag => ?_, fun rt member => ?_⟩
  · have own := promoting.positive run.dagID
    dsimp only
    by_cases same : dag = run.dagID
    · subst same
      rw [Function.update_self]
      omega
    · rw [Function.update_of_ne same]
      exact promoting.counted dag ((advances.seen dag member).resolve_right same)
  · have own := promoting.positive dag
    dsimp only
    by_cases same : dag = run.dagID
    · subst same
      rw [Function.update_self]
      omega
    · rw [Function.update_of_ne same]
      exact own
  · rcases List.mem_append.mp member with old | new
    · exact (promoting.readied rt old).imp_left fun defines => defines.mono advances.entries
    · exact readied rt new

/-- The gate: a DAG that may have one active run only is not among those seen running. -/
theorem promotionGate_conduct {entry : Option CachedDAG} {maxActive : Int} {discards : Prop} [Decidable discards]
    (one : View.serial entry → maxActive = 1) (known : (run.dagID, entry) ∈ v.entries) (listed : run ∈ v.listed)
    (promoting : Promoting env p v) :
    (if p.running run.dagID ≥ maxActive then do
        if discards then discardRun run
        pure p
      else do
        let collected ← processRun env run
        pure ⟨Function.update p.running run.dagID (p.running run.dagID + 1), p.globalRunning + 1, p.ready ++ collected⟩ :
      Act Promotion).Safe (footprint env) (Prog.returns fun p u => Promoting env p u ∧ u.listed = v.listed) v := by
  split
  · dsimp only
    split
    · refine Prog.Safe.andThen _ (discardRun_conduct run promoting.origin) fun _ u onward => ?_
      exact ⟨promoting.onward onward, onward.listed⟩
    · exact ⟨promoting, rfl⟩
  · rename_i below
    have gated : Gated run v := by
      refine fun _ => ⟨promoting.promoting, entry, known, fun serial seen => ?_⟩
      have counted := promoting.counted run.dagID seen
      have limit := one serial
      omega
    refine Prog.Safe.andThen _ (processRun_conduct promoting.free promoting.origin listed gated) fun collected u processed => ?_
    exact ⟨promoting.processed processed.1 processed.2, processed.1.listed⟩

theorem promoteRun_conduct (listed : run ∈ v.listed) (promoting : Promoting env p v) :
    (promoteRun env p run).Safe (footprint env) (Prog.returns fun p u => Promoting env p u ∧ u.listed = v.listed) v := by
  unfold promoteRun
  split
  · exact ⟨promoting, rfl⟩
  · refine safe_perform trivial fun entry _ => ?_
    have looked := (Onward.refl v).after (o := .cachedDAG run.dagID) rfl entry
    have known := mem_entries_cachedDAG v run.dagID entry
    refine promotionGate_conduct (v := v.after (.cachedDAG run.dagID) entry) ?_ known listed (promoting.onward looked)
    rintro ⟨c, rfl, serial⟩
    simp [serial]

theorem priorityDAGs_conduct (queued : List DagRun) :
    (priorityDAGs queued).Safe (footprint env) (Prog.returns fun _ u => Onward v u) v := by
  apply Prog.Safe.fold fun _ _ u => Onward v u
  · exact .refl v
  · intro dag rest known u onward
    exact safe_perform trivial fun entry _ => onward.after (o := .cachedDAG dag) rfl entry
  · exact fun _ u onward => onward

/-- What the loop over the running runs keeps. -/
structure Sweeping (env : Env) (running queued : List DagRun) (ready : List ReadyTask) (v : View) : Prop where
  origin : v.origin = .tick
  free : v.inside = none
  promoting : v.promoting = true
  listed : ∀ run ∈ running ++ queued, run ∈ v.listed
  seen : ∀ dag ∈ v.seen, ∃ run ∈ running, run.dagID = dag
  readied : ∀ rt ∈ ready, Readied env v rt

variable {running queued : List DagRun} {ready : List ReadyTask}

/-- A running run is processed whatever runs beside it. -/
theorem sweep_conduct (sweeping : Sweeping env running queued ready v) (states : ∀ run ∈ running, run.state = .running) :
    (Prog.fold (fun ready run => do
      let collected ← processRun env run
      pure (ready ++ collected)) running ready).Safe (footprint env)
      (Prog.returns fun ready u => Sweeping env running queued ready u) v := by
  apply Prog.Safe.fold fun rest ready u => (∀ run ∈ rest, run ∈ running) ∧ Sweeping env running queued ready u
  · exact ⟨fun _ member => member, sweeping⟩
  · rintro run rest ready u ⟨among, sweeping⟩
    have member := among run (.head _)
    have gated : Gated run u := fun queued => by simp [states run member] at queued
    have listed := sweeping.listed run (List.mem_append_left _ member)
    refine Prog.Safe.andThen _ (processRun_conduct sweeping.free sweeping.origin listed gated) fun collected w processed => ?_
    obtain ⟨advances, readied⟩ := processed
    refine ⟨fun run member => among run (.tail _ member), advances.origin.trans sweeping.origin,
      advances.inside.trans sweeping.free, advances.promoting.trans sweeping.promoting,
      fun run member => advances.listed ▸ sweeping.listed run member, fun dag seen => ?_, fun rt member => ?_⟩
    · rcases advances.seen dag seen with old | rfl
      · exact sweeping.seen dag old
      · exact ⟨run, member, rfl⟩
    · rcases List.mem_append.mp member with old | new
      · exact (sweeping.readied rt old).imp_left fun defines => defines.mono advances.entries
      · exact readied rt new
  · exact fun _ u kept => kept.2

/-- The queued runs are promoted against the count of the running ones. -/
theorem drain_conduct (sweeping : Sweeping env running queued ready v) :
    (do
      let priority ← priorityDAGs queued
      let promoted ← Prog.fold (promoteRun env) (reorderPriorityQueues priority queued)
        ⟨fun dag => running.countP (·.dagID == dag), running.length, ready⟩
      admitReady env promoted.ready : Act Unit).Safe (footprint env) (Prog.returns fun _ u => Stays v u) v := by
  refine Prog.Safe.andThen _ (priorityDAGs_conduct queued) fun priority u onward => ?_
  refine Prog.Safe.andThen (fun p w => Promoting env p w) ?_ fun p w promoting => ?_
  · apply Prog.Safe.fold fun rest p w => (∀ run ∈ rest, run ∈ w.listed) ∧ Promoting env p w
    · refine ⟨fun run member => ?_, onward.origin.trans sweeping.origin, onward.inside.trans sweeping.free,
        onward.promoting.trans sweeping.promoting, fun dag seen => ?_, fun dag => ?_, fun rt member => ?_⟩
      · rw [onward.listed]
        exact sweeping.listed run (List.mem_append_right _ (mem_reorderPriorityQueues member))
      · obtain ⟨run, member, rfl⟩ := sweeping.seen dag (onward.seen ▸ seen)
        have counted : 0 < running.countP (·.dagID == run.dagID) := List.countP_pos_iff.mpr ⟨run, member, by simp⟩
        show (1 : Int) ≤ (running.countP (·.dagID == run.dagID) : Nat)
        omega
      · exact Int.natCast_nonneg _
      · exact (sweeping.readied rt member).imp_left fun defines => defines.mono onward.entries
    · rintro run rest p w ⟨listed, promoting⟩
      refine (promoteRun_conduct (listed run (.head _)) promoting).mono fun result t kept => ?_
      cases result with
      | ok p => exact ⟨fun run member => kept.2 ▸ listed run (.tail _ member), kept.1⟩
      | error e => exact kept.elim
    · exact fun p w kept => kept.2
  · refine (admitReady_conduct promoting.free promoting.origin promoting.readied).mono fun result t kept => ?_
    cases result with
    | ok _ => exact ⟨kept.1.trans (promoting.origin.trans sweeping.origin.symm), kept.2.trans (promoting.free.trans sweeping.free.symm)⟩
    | error e => exact kept.elim

/-- What a tick does with its two listings. -/
theorem sweeps_conduct (origin : v.origin = .tick) (free : v.inside = none) (running queued : List DagRun)
    (states : ∀ run ∈ running, run.state = .running) (u : View)
    (sweeping : Sweeping env running queued [] u) (stays : Stays v u) : Prog.Safe (footprint env) (do
      let ready ← Prog.fold (fun ready run => do
        let collected ← processRun env run
        pure (ready ++ collected)) running []
      let priority ← priorityDAGs queued
      let promoted ← Prog.fold (promoteRun env) (reorderPriorityQueues priority queued)
        ⟨fun dag => running.countP (·.dagID == dag), running.length, ready⟩
      admitReady env promoted.ready) (Prog.returns fun _ u => Stays v u) u := by
  refine Prog.Safe.andThen _ (sweep_conduct sweeping states) fun ready w swept => ?_
  refine (drain_conduct swept).mono fun result t kept => ?_
  cases result with
  | ok _ => exact ⟨kept.1.trans (swept.origin.trans origin.symm), kept.2.trans (swept.free.trans free.symm)⟩
  | error e => exact kept.elim

/-- The listing of the running runs, and what follows it. Both listings may fail; the tick then goes on with none. -/
theorem lists_conduct (origin : v.origin = .tick) (free : v.inside = none) (queued : List DagRun) (u : View) (stays : Stays v u)
    (listed : ∀ run ∈ queued, run ∈ u.listed) :
    Prog.Safe (footprint env) (do
      let running ← match ← (listDagRunsByState .running).attempt with
        | .ok running => pure running
        | .error _ => pure []
      let ready ← Prog.fold (fun ready run => do
        let collected ← processRun env run
        pure (ready ++ collected)) running []
      let priority ← priorityDAGs queued
      let promoted ← Prog.fold (promoteRun env) (reorderPriorityQueues priority queued)
        ⟨fun dag => running.countP (·.dagID == dag), running.length, ready⟩
      admitReady env promoted.ready) (Prog.returns fun _ u => Stays v u) u := by
  have tick : u.origin = .tick := stays.1.trans origin
  have outside : u.inside = none := stays.2.trans free
  refine safe_attempt ⟨tick, rfl⟩ (fun reply running honest read => ?_) fun reply e _ read => ?_
  · cases read
    refine sweeps_conduct origin free running queued honest _
      ⟨tick, outside, rfl, fun run member => ?_, fun dag seen => ?_, by rintro _ ⟨⟩⟩ stays
    · rcases List.mem_append.mp member with new | old
      · exact List.mem_append_left _ new
      · exact List.mem_append_right _ (listed run old)
    · exact List.mem_map.mp seen
  · cases read
    exact sweeps_conduct origin free [] queued (by rintro _ ⟨⟩) _
      ⟨tick, outside, rfl, fun run member => listed run member, by rintro _ ⟨⟩, by rintro _ ⟨⟩⟩ stays

theorem processActiveRuns_conduct (free : v.inside = none) (origin : v.origin = .tick) :
    (processActiveRuns env).Safe (footprint env) (Prog.returns fun _ u => Stays v u) v := by
  refine safe_attempt trivial (fun reply queued _ read => ?_) fun reply e _ _ => ?_
  · cases read
    exact lists_conduct origin free queued _ ⟨rfl, rfl⟩ fun run member => List.mem_append_left _ member
  · exact lists_conduct origin free [] _ ⟨rfl, rfl⟩ (by rintro _ ⟨⟩)

end Promotion

/-! ### Every program of the process -/

theorem tickOnce_conduct (free : v.inside = none) (origin : v.origin = .tick) :
    (tickOnce env).Safe (footprint env) (fun _ _ => True) v := by
  refine safe_perform trivial fun now _ => ?_
  refine Prog.Safe.bind _ (processPendingDependencyEvents_safe _) (fun _ u stays => ?_) fun _ _ _ => trivial
  refine Prog.Safe.bind _ (processPendingExternalEvents_safe _) (fun _ w stays' => ?_) fun _ _ _ => trivial
  refine Prog.Safe.bind _ (createDueRuns_conduct now _) (fun _ t stays'' => ?_) fun _ _ _ => trivial
  have whole := (stays.trans stays').trans stays''
  refine Prog.Safe.andThen _ (processActiveRuns_conduct (whole.2.trans free) (whole.1.trans origin)) fun _ _ _ => ?_
  exact (processPendingDependencyEvents_safe _).mono fun _ _ _ => trivial

/-- Every statement of every program is in the footprint. -/
theorem serve_conduct (request : Request) : (serve env request).Safe (footprint env) (fun _ _ => True) (View.start request) := by
  cases request with
  | recover => exact recover_conduct rfl ⟨rfl, rfl, rfl⟩
  | tick => exact tickOnce_conduct rfl rfl
  | cancelRun run => exact cancelRun_conduct run rfl rfl
  | retryTask run task => exact retryTask_conduct run task rfl rfl
  | retryRun run => exact retryRun_conduct run rfl rfl
  | markTask run task target => exact markTask_conduct run task target rfl rfl
  | markRun run target => exact markRun_conduct run target rfl rfl
  | triggerManual dag params priority => exact triggerManual_conduct dag params priority _
  | backfill dag from_ until_ => exact backfill_conduct dag from_ until_ _
  | publishEvent key payload => exact publishExternalEvent_conduct key payload _
  | createDAG yaml => exact createDAG_conduct yaml rfl
  | loadDAGs files => exact loadDAGs_conduct files rfl
  | reloadDAGs files => exact reloadDAGs_conduct files rfl
  | deleteDAG dag => exact deleteDAG_conduct dag rfl
  | setPaused dag paused => exact setPaused_conduct dag paused rfl
  | goroutine task epoch =>
    cases task with
    | runTask run t ti => exact runTask_safe ⟨rfl, rfl⟩ rfl
    | awaitCompletion ti =>
      have writable : Writable (View.start (.goroutine (.awaitCompletion ti) epoch)) ti ti := ⟨rfl, .refl ti, fun _ _ _ => rfl⟩
      exact (awaitCompletion_safe writable (.refl _)).mono fun _ _ _ => trivial

end Cronova.Scheduler
