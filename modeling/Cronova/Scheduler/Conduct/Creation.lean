import Cronova.Scheduler.Footprint

/-! The programs that create runs and those that edit definitions keep to their footprint. -/

set_option autoImplicit false

namespace Cronova.Scheduler

open Model Store Process
open Calendar (Time)

variable {env : Env} {v₀ v u : View}

/-! ### Creation of runs -/

section Creation

/-- A read of the cache is known from then on. -/
theorem mem_entries_cachedDAG (v : View) (dag : DagID) (entry : Option CachedDAG) :
    (dag, entry) ∈ (v.after (.cachedDAG dag) entry).entries := List.mem_cons_self

theorem View.Creates.snapshot {dag : DagID} {c : CachedDAG} (known : (dag, some c) ∈ v.entries) (run : DagRun)
    (queued : run.state = .queued) : v.Creates env (snapshotRun env run c.dag) :=
  ⟨queued, .inr ⟨dag, c, known, rfl, rfl⟩⟩

theorem upstreamSucceeded_safe (date : Time) (up : DagID) (onward : Onward v₀ v) :
    (upstreamSucceeded date up).Safe (footprint env) (Ends v₀ fun _ _ => True) v := by
  refine safe_perform trivial fun entry _ => ?_
  have read : Onward v₀ (v.after (.cachedDAG up) entry) := onward.after rfl entry
  cases entry with
  | none => exact .ok read trivial
  | some c =>
    refine safe_attempt trivial (fun reply run _ _ => .ok (read.after rfl reply) trivial) fun reply e _ _ => ?_
    have later := read.after (o := .getDagRunByLogicalDate up date) rfl reply
    cases e with
    | notFound => exact .ok later trivial
    | _ => exact .error later

theorem allUpstreamsSucceeded_safe (date : Time) (ups : List DagID) (onward : Onward v₀ v) :
    (allUpstreamsSucceeded date ups).Safe (footprint env) (Ends v₀ fun _ _ => True) v := by
  induction ups generalizing v with
  | nil => exact .ok onward trivial
  | cons up ups ih =>
    refine Ends.bind (upstreamSucceeded_safe date up onward) fun satisfied t onward _ => ?_
    cases satisfied with
    | true => exact ih onward
    | false => exact .ok onward trivial

theorem triggerDownstream_safe (date : Time) (dn : DagID) (onward : Onward v₀ v) :
    (triggerDownstream env date dn).Safe (footprint env) (Ends v₀ fun _ _ => True) v := by
  refine Ends.call trivial rfl onward fun reply ups _ _ onward => ?_
  refine Ends.bind (allUpstreamsSucceeded_safe date ups onward) fun satisfied t onward _ => ?_
  cases satisfied with
  | false => exact .ok onward trivial
  | true =>
    refine safe_perform trivial fun entry _ => ?_
    have read : Onward v₀ (t.after (.cachedDAG dn) entry) := onward.after rfl entry
    have known := mem_entries_cachedDAG t dn entry
    cases entry with
    | none => exact .ok read trivial
    | some c =>
      show Prog.Safe _ (if c.dag.tasks.isEmpty = true then _ else _) _ _
      split
      · exact .ok read trivial
      · refine safe_attempt (View.Creates.snapshot known _ rfl) (fun reply _ _ _ => .ok (read.after rfl reply) trivial)
          fun reply e _ _ => ?_
        have later := read.after
          (o := .createDagRunBounded (dependencyRun env c.dag dn date) env.maxQueuedRunsGlobal) rfl reply
        cases e with
        | queueFull | alreadyExists | notFound => exact .ok later trivial
        | _ => exact .error later

theorem triggerDownstreams_safe (upstream : DagRun) (onward : Onward v₀ v) :
    (triggerDownstreams env upstream).Safe (footprint env) (Ends v₀ fun _ _ => True) v := by
  refine Ends.call trivial rfl onward fun reply downs _ _ onward => ?_
  refine Ends.fold _ onward trivial fun dn _ deferred t onward _ => ?_
  exact Ends.bind (triggerDownstream_safe _ dn onward) fun _ _ onward _ => .ok onward trivial

theorem deliverDependencyEvent_safe (event : Event) (run : RunID) (onward : Onward v₀ v) :
    (deliverDependencyEvent env event run).Safe (footprint env) (Ends v₀ fun _ _ => True) v := by
  have consumes (t : View) (onward : Onward v₀ t) :
      (logged (consumeEvent event.id)).Safe (footprint env) (Ends v₀ fun _ _ => True) t :=
    safe_attempt trivial (fun reply _ _ _ => .ok (onward.after rfl reply) trivial)
      fun reply _ _ _ => .ok (onward.after rfl reply) trivial
  refine safe_attempt trivial (fun reply upstream _ _ => ?_) fun reply e _ _ => ?_
  · have read := onward.after (o := .getDagRun run) rfl reply
    dsimp only
    split
    · split
      · exact consumes _ read
      · exact .ok read trivial
    · refine Ends.attempt (triggerDownstreams_safe upstream read) (fun deferred t onward _ => ?_)
        fun _ _ onward => .ok onward trivial
      cases deferred with
      | true => exact .ok onward trivial
      | false => exact consumes t onward
  · have read := onward.after (o := .getDagRun run) rfl reply
    cases e with
    | notFound => exact consumes _ read
    | _ => exact .ok read trivial

/-- The view of a program that stays in its section; its listings may have changed the rest. -/
def Stays (v u : View) : Prop := u.origin = v.origin ∧ u.inside = v.inside

theorem Onward.stays (onward : Onward v u) : Stays v u := ⟨onward.origin, onward.inside⟩

theorem Stays.trans {w : View} (first : Stays v u) (second : Stays u w) : Stays v w :=
  ⟨second.1.trans first.1, second.2.trans first.2⟩

/-- A loop over events that were just listed. -/
theorem deliverAll_safe {events : List Event} {body : Event → Act Unit}
    (round : ∀ event t, (body event).Safe (footprint env) (Ends t fun _ _ => True) t) (stays : Stays v u) :
    (Prog.forEach events body).Safe (footprint env) (fun _ t => Stays v t) u := by
  have safe : (Prog.forEach events body).Safe (footprint env) (Ends u fun _ _ => True) u :=
    Ends.forEach (.refl u) fun event _ t onward =>
      (round event t).mono fun r s ended => ⟨onward.trans ended.1, fun _ _ => trivial⟩
  exact safe.mono fun _ _ ended => stays.trans ended.1.stays

theorem processPendingDependencyEvents_safe (v : View) :
    (processPendingDependencyEvents env).Safe (footprint env) (fun _ u => Stays v u) v := by
  refine safe_attempt trivial (fun reply events _ _ => ?_) fun _ _ _ _ => ⟨rfl, rfl⟩
  refine deliverAll_safe (fun event t => ?_) ⟨rfl, rfl⟩
  split
  · exact deliverDependencyEvent_safe event _ (.refl t)
  · exact safe_attempt trivial (fun reply _ _ _ => .ok ((Onward.refl t).after rfl reply) trivial)
      fun reply _ _ _ => .ok ((Onward.refl t).after rfl reply) trivial

theorem triggerSubscriber_conduct (event : Event) (key : String) (dag : DagID) (onward : Onward v₀ v) :
    (triggerSubscriber env event key dag).Safe (footprint env) (Ends v₀ fun _ _ => True) v := by
  refine safe_perform trivial fun entry _ => ?_
  have read : Onward v₀ (v.after (.cachedDAG dag) entry) := onward.after rfl entry
  have known := mem_entries_cachedDAG v dag entry
  cases entry with
  | none => exact .ok read trivial
  | some c =>
    show Prog.Safe _ (if (c.dag.paused || c.dag.tasks.isEmpty) = true then _ else _) _ _
    split
    · exact .ok read trivial
    · refine safe_perform trivial fun date _ => ?_
      have timed := read.after (o := .now) rfl date
      refine safe_attempt (View.Creates.snapshot known _ rfl) (fun reply _ _ _ => .ok (timed.after rfl reply) trivial)
        fun reply e _ _ => ?_
      have later := timed.after
        (o := .createDagRunBounded (eventRun env c.dag event key date) env.maxQueuedRunsGlobal) rfl reply
      cases e <;> exact .ok later trivial

theorem deliverExternalEvent_conduct (dags : List DAG) (event : Event) (key : String) (onward : Onward v₀ v) :
    (deliverExternalEvent env dags event key).Safe (footprint env) (Ends v₀ fun _ _ => True) v := by
  refine Ends.bind (m := fun _ _ => True) ?_ fun deferred t onward _ => ?_
  · refine Ends.fold _ onward trivial fun dag _ deferred t onward _ => ?_
    exact Ends.bind (triggerSubscriber_conduct event key dag onward) fun _ _ onward _ => .ok onward trivial
  · cases deferred with
    | true => exact .ok onward trivial
    | false =>
      exact safe_attempt trivial (fun reply _ _ _ => .ok (onward.after rfl reply) trivial)
        fun reply _ _ _ => .ok (onward.after rfl reply) trivial

theorem processPendingExternalEvents_safe (v : View) :
    (processPendingExternalEvents env).Safe (footprint env) (fun _ u => Stays v u) v := by
  refine safe_attempt trivial (fun reply events _ _ => ?_) fun _ _ _ _ => ⟨rfl, rfl⟩
  cases events with
  | nil => exact ⟨rfl, rfl⟩
  | cons event events =>
    refine safe_perform trivial fun dags _ => ?_
    refine deliverAll_safe (fun event t => ?_) ⟨rfl, rfl⟩
    split
    · exact deliverExternalEvent_conduct dags event _ (.refl t)
    · exact deliverExternalEvent_conduct dags event _ (.refl t)

theorem scheduleAnchor_conduct (d : DAG) (onward : Onward v₀ v) :
    (scheduleAnchor d).Safe (footprint env) (Ends v₀ fun _ u => ∀ entry ∈ v.entries, entry ∈ u.entries) v := by
  refine safe_attempt trivial (fun reply run _ _ => .ok (onward.after rfl reply) fun _ known => known) fun reply e _ _ => ?_
  have read := onward.after (o := .latestScheduledRun d.dagID) rfl reply
  dsimp only
  split
  · exact .ok read fun _ known => known
  · exact Prog.Safe.tracked trivial fun boot _ => .ok (read.after (o := .bootTime) rfl boot) fun _ known => known

theorem activeRunsOf_conduct (active : ActiveRuns) (dag : DagID) (onward : Onward v₀ v) :
    (activeRunsOf active dag).Safe (footprint env) (Ends v₀ fun _ u => ∀ entry ∈ v.entries, entry ∈ u.entries) v := by
  unfold activeRunsOf
  split
  · exact .ok onward fun _ known => known
  · exact safe_attempt trivial (fun reply _ _ _ => .ok (onward.after rfl reply) fun _ known => known)
      fun reply _ _ _ => .ok (onward.after rfl reply) fun _ known => known

theorem createDueRun_conduct (now : Time) (active : ActiveRuns) (d : DAG) (onward : Onward v₀ v) :
    (createDueRun env now active d).Safe (footprint env) (Ends v₀ fun _ _ => True) v := by
  unfold createDueRun
  split
  · exact .ok onward trivial
  · refine safe_perform trivial fun entry _ => ?_
    have read : Onward v₀ (v.after (.cachedDAG d.dagID) entry) := onward.after rfl entry
    have known := mem_entries_cachedDAG v d.dagID entry
    cases entry with
    | none => exact .ok read trivial
    | some c =>
      dsimp only
      cases c.schedule with
      | none => exact .ok read trivial
      | some schedule =>
        dsimp only
        split
        · exact .ok read trivial
        · refine Ends.bind (scheduleAnchor_conduct d read) fun anchor t onward kept => ?_
          split
          · exact .ok onward trivial
          · refine Ends.bind (activeRunsOf_conduct active d.dagID onward) fun counted u onward still => ?_
            cases counted with
            | none => exact .ok onward trivial
            | some active =>
              dsimp only
              split
              · exact .ok onward trivial
              · refine safe_attempt (View.Creates.snapshot (still _ (kept _ known)) _ rfl) (fun reply _ _ _ => ?_)
                  fun reply _ _ _ => ?_
                · exact .ok (onward.after rfl reply) trivial
                · exact .ok (onward.after rfl reply) trivial

theorem createDueRuns_conduct (now : Time) (v : View) :
    (createDueRuns env now).Safe (footprint env) (fun _ u => Stays v u) v := by
  have creates (active : ActiveRuns) (t : View) (onward : Onward v t) : Prog.Safe (footprint env) (do
      let dags ← perform .allDAGs
      let _ ← Prog.fold (createDueRun env now) dags active
      pure ()) (fun _ u => Stays v u) t := by
    refine safe_perform trivial fun dags _ => ?_
    have listed := onward.after (o := .allDAGs) rfl dags
    have loops : (Prog.fold (createDueRun env now) dags active).Safe (footprint env) (Ends v fun _ _ => True)
        (t.after .allDAGs dags) :=
      Ends.fold _ listed trivial fun d _ active t onward _ => createDueRun_conduct now active d onward
    refine Prog.Safe.bind _ loops (fun _ _ ended => ended.1.stays) fun _ _ ended => ended.1.stays
  refine safe_attempt trivial (fun reply counts _ _ => ?_) fun reply _ _ _ => ?_
  · exact creates _ _ ((Onward.refl v).after (o := .countActiveRunsByDag) rfl reply)
  · exact creates _ _ ((Onward.refl v).after (o := .countActiveRunsByDag) rfl reply)

theorem triggerManual_conduct (dag : DagID) (params : Params) (priority : Int) (v : View) :
    (triggerManual env dag params priority).Safe (footprint env) (fun _ _ => True) v := by
  refine safe_perform trivial fun entry _ => ?_
  have known := mem_entries_cachedDAG v dag entry
  cases entry with
  | none => trivial
  | some c =>
    show Prog.Safe _ (if c.dag.tasks.isEmpty = true then _ else _) _ _
    split
    · trivial
    · refine safe_perform trivial fun now _ => ?_
      refine Prog.Safe.tracked (View.Creates.snapshot known _ rfl) fun reply _ => ?_
      cases reply <;> trivial

/-- The loop of a backfill goes on where a run exists. -/
theorem backfill_loops (dag : DagID) (c : CachedDAG) (known : (dag, some c) ∈ u.entries) (periods : List Time) :
    (Prog.forEach periods fun t => do
    match ← (createDagRunBounded (backfillRun env c.dag t) env.maxQueuedRunsGlobal).attempt with
    | .ok _ => pure ()
    | .error (.store .alreadyExists) => pure ()
    | .error e => .fail e).Safe (footprint env) (Ends u fun _ _ => True) u := by
  refine Ends.forEach (.refl u) fun period _ t onward => ?_
  refine safe_attempt (View.Creates.snapshot (onward.entries _ known) _ rfl) (fun reply _ _ _ => ?_)
    fun reply e _ _ => ?_
  · exact .ok (onward.after rfl reply) trivial
  · have later := onward.after
      (o := .createDagRunBounded (backfillRun env c.dag period) env.maxQueuedRunsGlobal) rfl reply
    cases e with
    | alreadyExists => exact .ok later trivial
    | _ => exact .error later

theorem backfill_conduct (dag : DagID) (from_ until_ : Time) (v : View) :
    (backfill env dag from_ until_).Safe (footprint env) (fun _ _ => True) v := by
  refine safe_perform trivial fun entry _ => ?_
  have known := mem_entries_cachedDAG v dag entry
  cases entry with
  | none => trivial
  | some c =>
    show Prog.Safe _ (if c.dag.tasks.isEmpty = true then _ else _) _ _
    split
    · trivial
    · split
      · trivial
      · split
        · trivial
        · rename_i next _
          refine safe_perform trivial fun now _ => ?_
          have known : (dag, some c) ∈ ((v.after (.cachedDAG dag) (some c)).after .now now).entries := known
          generalize (v.after (.cachedDAG dag) (some c)).after .now now = u at known
          dsimp only
          split
          · split
            · trivial
            · rename_i periods _
              exact (backfill_loops dag c known periods).mono fun _ _ _ => trivial
          · trivial

end Creation

/-! ### Edits of definitions -/

section Registration

/-- The view of a goroutine that registers a definition and has not published it. -/
structure Registering (env : Env) (d : DAG) (v u : View) : Prop where
  origin : u.origin = v.origin
  registers : u.Registers env d

theorem Registering.of_same {d : DAG} {v u t : View} (registering : Registering env d v u) (origin : t.origin = u.origin)
    (checked : t.checked = u.checked) : Registering env d v t := by
  refine ⟨origin.trans registering.origin, ?_⟩
  unfold View.Registers
  rw [origin, checked]
  exact registering.registers

/-- `ensurePools` asks for pools only. -/
theorem ensurePools_conduct {d d' : DAG} {v u : View} (registering : Registering env d v u) :
    (ensurePools d').Safe (footprint env) (fun _ t => Registering env d v t ∧ t.upserted = u.upserted) u := by
  refine Prog.Safe.bind (fun _ t => Registering env d v t ∧ t.upserted = u.upserted) ?_ (fun _ _ kept => kept) fun _ _ kept => kept
  apply Prog.Safe.fold fun _ _ t => Registering env d v t ∧ t.upserted = u.upserted
  · exact ⟨registering, rfl⟩
  · intro pool rest seen t kept
    split
    · exact kept
    · refine safe_attempt trivial (fun reply _ _ _ => ⟨kept.1.of_same rfl rfl, kept.2⟩) fun reply e _ _ => ?_
      cases e with
      | notFound =>
        exact safe_call trivial (fun _ _ _ _ => ⟨(kept.1.of_same rfl rfl).of_same rfl rfl, kept.2⟩)
          fun _ _ _ _ => ⟨(kept.1.of_same rfl rfl).of_same rfl rfl, kept.2⟩
      | _ => exact ⟨kept.1.of_same rfl rfl, kept.2⟩
  · exact fun _ _ kept => kept

theorem registerDAG_conduct {d : DAG} {v : View} (registers : v.Registers env d) :
    (registerDAG env d).Safe (footprint env) (fun _ u => u.origin = v.origin) v := by
  have start : Registering env d v v := ⟨rfl, registers⟩
  refine safe_call registers (fun reply _ _ written => ?_) fun _ _ _ _ => rfl
  cases written
  have upserted : Registering env d v (v.after (.upsertDAG d) (.ok ())) := start.of_same rfl rfl
  refine Prog.Safe.bind _ (ensurePools_conduct upserted) (fun _ u kept => ?_) fun _ _ kept => kept.1.origin
  refine safe_call trivial (fun reply _ _ _ => ?_) fun _ _ _ _ => kept.1.origin
  have linked : Registering env d v (u.after (.replaceDagDependencies d.dagID d.triggerAfter) reply) := kept.1.of_same rfl rfl
  have publishes (schedule : Option (Time → Time)) {t : View} (kept : Registering env d v t) (written : t.upserted = some d.dagID) :
      (perform (.publishDAG d schedule)).Safe (footprint env) (fun _ u => u.origin = v.origin) t :=
    Prog.Safe.tracked ⟨kept.registers, written⟩ fun _ _ => kept.origin
  unfold scheduleOf
  split
  · exact publishes _ linked kept.2
  · split
    · exact publishes _ linked kept.2
    · exact kept.1.origin

theorem createDAG_conduct (yaml : String) {v : View} (origin : v.origin = .createDAG yaml) :
    (createDAG env yaml).Safe (footprint env) (fun _ _ => True) v := by
  unfold createDAG parseDefinition
  cases parsed : env.parse yaml with
  | none => trivial
  | some d => exact (registerDAG_conduct ⟨⟨yaml, parsed⟩, .inl ⟨yaml, origin, parsed⟩⟩).mono fun _ _ _ => trivial

/-- A scan registers the DAG that it has just looked up. -/
theorem scanned_conduct {raw : String} {d : DAG} (parsed : env.parse raw = some d) {v : View} (scans : View.scans v.origin = true)
    (checked : v.checked = some d.dagID) :
    (logged (registerDAG env d)).Safe (footprint env) (Prog.returns fun _ u => u.origin = v.origin) v := by
  have registers : v.Registers env d := ⟨⟨raw, parsed⟩, .inr ⟨scans, checked⟩⟩
  have attempted : (registerDAG env d).attempt.Safe (footprint env) (Prog.returns fun _ u => u.origin = v.origin) v :=
    Prog.Safe.attempt ((registerDAG_conduct registers).mono fun _ _ kept => kept)
  refine Prog.Safe.andThen (fun _ u => u.origin = v.origin) attempted fun r u kept => ?_
  cases r <;> exact kept

theorem loadDAG_conduct (raw : String) {v : View} (scans : View.scans v.origin = true) :
    (loadDAG env raw).Safe (footprint env) (Prog.returns fun _ u => u.origin = v.origin) v := by
  unfold loadDAG
  cases parsed : env.parse raw with
  | none => exact rfl
  | some d =>
    refine safe_attempt trivial (fun reply row _ found => ?_) fun reply e _ failed => ?_
    · cases found
      dsimp only
      split
      · exact rfl
      · rename_i active
        exact scanned_conduct parsed scans (by simp [View.after, View.learns, active])
    · cases failed
      exact scanned_conduct parsed scans rfl

theorem reloadDAG_conduct (raw : String) {v : View} (scans : View.scans v.origin = true) :
    (reloadDAG env raw).Safe (footprint env) (Prog.returns fun _ u => u.origin = v.origin) v := by
  unfold reloadDAG
  cases parsed : env.parse raw with
  | none => exact rfl
  | some d =>
    refine safe_attempt trivial (fun reply row _ found => ?_) fun reply e _ failed => ?_
    · cases found
      dsimp only
      split
      · exact rfl
      · rename_i active
        have checked : (v.after (.getDAG d.dagID) (.ok row)).checked = some d.dagID := by simp [View.after, View.learns, active]
        split
        · exact scanned_conduct parsed scans checked
        · refine safe_perform trivial fun entry _ => ?_
          cases entry with
          | some c => exact rfl
          | none => exact scanned_conduct parsed scans checked
    · cases failed
      exact scanned_conduct parsed scans rfl

/-- A scan goes through its files one by one. -/
theorem scan_conduct {file : String → Act Unit} (files : List String) {v : View} (scans : View.scans v.origin = true)
    (conduct : ∀ raw u, View.scans u.origin = true →
      (file raw).Safe (footprint env) (Prog.returns fun _ t => t.origin = u.origin) u) :
    (Prog.forEach files file).Safe (footprint env) (fun _ _ => True) v := by
  apply Prog.Safe.forEach fun _ u => View.scans u.origin = true
  · exact scans
  · intro raw rest u kept
    refine (conduct raw u kept).mono fun r t ended => ?_
    cases r with
    | ok _ => exact (congrArg View.scans ended).trans kept
    | error _ => trivial
  · exact fun _ _ => trivial

theorem loadDAGs_conduct (files : List String) {v : View} (scans : View.scans v.origin = true) :
    (loadDAGs env files).Safe (footprint env) (fun _ _ => True) v :=
  scan_conduct files scans fun raw _ scans => loadDAG_conduct raw scans

theorem reloadDAGs_conduct (files : List String) {v : View} (scans : View.scans v.origin = true) :
    (reloadDAGs env files).Safe (footprint env) (fun _ _ => True) v :=
  scan_conduct files scans fun raw _ scans => reloadDAG_conduct raw scans

theorem deleteDAG_conduct (dag : DagID) {v : View} (origin : v.origin = .deleteDAG dag) :
    (deleteDAG dag).Safe (footprint env) (fun _ _ => True) v := by
  refine safe_call trivial (fun reply active _ counted => ?_) fun _ _ _ _ => trivial
  cases counted
  split
  · trivial
  · rename_i none
    refine safe_call ⟨origin, active, Int.not_lt.mp none, rfl⟩ (fun reply _ _ archived => ?_) fun _ _ _ _ => trivial
    cases archived
    exact Prog.Safe.tracked ⟨origin, rfl⟩ fun _ _ => trivial

theorem setPaused_conduct (dag : DagID) (paused : Bool) {v : View} (origin : v.origin = .setPaused dag paused) :
    (setPaused dag paused).Safe (footprint env) (fun _ _ => True) v := by
  refine safe_call origin (fun reply _ _ written => ?_) fun _ _ _ _ => trivial
  cases written
  exact Prog.Safe.tracked ⟨origin, rfl⟩ fun _ _ => trivial

theorem publishExternalEvent_conduct (key payload : String) (v : View) :
    (publishExternalEvent key payload).Safe (footprint env) (fun _ _ => True) v :=
  safe_call trivial (fun _ _ _ _ => trivial) fun _ _ _ _ => trivial

end Registration

end Cronova.Scheduler
