import Cronova.Scheduler.Creation
import Mathlib.Order.Bounds.Basic

/-! The schedule: where `createDueRuns` anchors, which run a round creates, and what
becomes of missed periods. -/

set_option autoImplicit false

namespace Cronova.Scheduler

open Model Store Process
open Calendar (Time)

/-- What `scheduleAnchor` reads off the store. -/
def World.anchor (w : World) (d : DAG) : Time :=
  match w.db.latestScheduledRun d.dagID with
  | .ok r => r.logicalDate
  | .error _ => if d.catchup then d.startDate - Calendar.second else w.bootTime

/-- The period that is next for a DAG with a schedule. -/
def World.nextPeriod (w : World) (d : DAG) (schedule : Time → Time) : Time := schedule (w.anchor d)

section Pass

variable (env : Env) (now : Time)

/-- The run that a round of `createDueRuns` asks the store for. -/
def dueRun (active : ActiveRuns) (w : World) (d : DAG) : Option DagRun :=
  if d.schedule = "" ∨ d.tasks.isEmpty then none else
  match w.cached d.dagID with
  | none => none
  | some cached => match cached.schedule with
    | none => none
    | some schedule =>
      if cached.dag.paused ∨ now < w.nextPeriod d schedule ∨ active.count d.dagID ≥ d.maxActiveRuns then none
      else some (scheduledRun env d (w.nextPeriod d schedule) cached.dag)

/-- A round as a function of the counts and the world. -/
def round (p : ActiveRuns × World) (d : DAG) : ActiveRuns × World :=
  match dueRun env now p.1 p.2 d with
  | none => p
  | some r => match p.2.db.createDagRunBounded r env.maxQueuedRunsGlobal with
    | .ok db => (p.1.set d.dagID (p.1.count d.dagID + 1), { p.2 with db })
    | .error _ => p

/-- The counts and the world with which a pass starts. -/
def World.atPass (w : World) : ActiveRuns × World := (⟨w.db.countActiveRuns, true⟩, w)

/-- The world after a pass of `createDueRuns`. -/
def World.afterPass (w : World) (order : Shuffle) : World := ((w.dags order).foldl (round env now) w.atPass).2

theorem complete_round {p : ActiveRuns × World} (d : DAG) (complete : p.1.complete = true) :
    (round env now p d).1.complete = true := by
  unfold round
  split
  · exact complete
  · split
    · exact complete
    · exact complete

variable {a : Answer} (served : a.served = true)

include served

theorem scheduleAnchor_run (w : World) (d : DAG) :
    (scheduleAnchor d).run (World.respond a) w = (.ok (w.anchor d), w) := by
  have latest : (latestScheduledRun d.dagID).run (World.respond a) w =
      ((w.db.latestScheduledRun d.dagID).mapError Failure.store, w) := by
    rw [ask_run]
    simp [World.respond, World.perform, World.read, served]
  simp only [scheduleAnchor, Prog.bind_eq, Prog.run_bind, Prog.run_attempt, latest, World.anchor]
  cases w.db.latestScheduledRun d.dagID with
  | ok r => rfl
  | error e =>
    simp only [Except.mapError]
    split <;> rfl

theorem createDagRunBounded_run (w : World) (r : DagRun) (global : Int) :
    (createDagRunBounded r global).attempt.run (World.respond a) w =
      match w.db.createDagRunBounded r global with
      | .ok db => (.ok (.ok ()), { w with db })
      | .error e => (.ok (.error (.store e)), w) := by
  rw [Prog.run_attempt, ask_run]
  simp only [World.respond, World.perform, World.write, served, if_true]
  cases w.db.createDagRunBounded r global <;> rfl

theorem createDueRun_run (active : ActiveRuns) (complete : active.complete = true) (w : World) (d : DAG) :
    (createDueRun env now active d).run (World.respond a) w =
      (.ok (round env now (active, w) d).1, (round env now (active, w) d).2) := by
  have cached : (cachedDAG d.dagID).run (World.respond a) w = (.ok (w.cached d.dagID), w) := rfl
  unfold createDueRun round dueRun
  by_cases idle : d.schedule = "" ∨ d.tasks.isEmpty
  · rw [if_pos idle, if_pos idle]
    rfl
  · rw [if_neg idle, if_neg idle, Prog.bind_eq, Prog.run_bind, cached]
    dsimp only
    cases w.cached d.dagID with
    | none => rfl
    | some entry =>
      dsimp only
      cases entry.schedule with
      | none => rfl
      | some schedule =>
        dsimp only
        cases entry.dag.paused with
        | true => simp
        | false =>
          have anchored := scheduleAnchor_run served w d
          simp only [Bool.false_eq_true, if_false, false_or, Prog.bind_eq, Prog.run_bind, anchored, World.nextPeriod]
          by_cases early : now < schedule (w.anchor d)
          · simp [early]
          · simp only [early, if_false, false_or, activeRunsOf, complete, if_true, Prog.pure_eq, Prog.done_bind]
            by_cases full : active.count d.dagID ≥ d.maxActiveRuns
            · simp [full]
            · simp only [full, if_false, Prog.run_bind, createDagRunBounded_run served]
              cases w.db.createDagRunBounded (scheduledRun env d (schedule (w.anchor d)) entry.dag) env.maxQueuedRunsGlobal
                <;> rfl

theorem createDueRuns_run (w : World) :
    (createDueRuns env now).run (World.respond a) w = (.ok (), w.afterPass env now a.order) := by
  have counted : countActiveRunsByDag.attempt.run (World.respond a) w = (.ok (.ok w.db.countActiveRuns), w) := by
    rw [Prog.run_attempt, ask_run]
    simp [World.respond, World.perform, World.read, served, Except.mapError]
  have listed : (perform .allDAGs).run (World.respond a) w = (.ok (w.dags a.order), w) := rfl
  have rounds := Prog.run_fold (World.respond a) (fun active : ActiveRuns => active.complete = true) (round env now)
    (fun d active w complete =>
      ⟨createDueRun_run env now served active complete w d, complete_round env now d complete⟩)
    (w.dags a.order) ⟨w.db.countActiveRuns, true⟩ w rfl
  simp only [createDueRuns, Prog.bind_eq, Prog.run_bind, counted, Prog.pure_eq, Prog.run_done, listed, rounds]
  rfl

end Pass

/-! ### Rounds of other DAGs -/

/-- What the rounds of other DAGs leave as it is for the DAG `dag`. -/
structure Beside (dag : DagID) (p q : ActiveRuns × World) : Prop where
  cache : q.2.cache = p.2.cache
  boot : q.2.bootTime = p.2.bootTime
  dags : q.2.db.dags = p.2.db.dags
  count : q.1.count dag = p.1.count dag
  runs : ∃ added, q.2.db.runs.rows = p.2.db.runs.rows ++ added ∧
    ∀ r ∈ added, r.dagID ≠ dag ∧ r.runID = .logical r.dagID r.logicalDate

namespace Beside

variable {dag : DagID} {p q r : ActiveRuns × World}

theorem refl (dag : DagID) (p : ActiveRuns × World) : Beside dag p p := ⟨rfl, rfl, rfl, rfl, [], by simp⟩

theorem trans (first : Beside dag p q) (second : Beside dag q r) : Beside dag p r := by
  obtain ⟨added, rows, foreign⟩ := first.runs
  obtain ⟨more, rows', foreign'⟩ := second.runs
  refine ⟨second.cache.trans first.cache, second.boot.trans first.boot, second.dags.trans first.dags,
    second.count.trans first.count, added ++ more, by rw [rows', rows, List.append_assoc], ?_⟩
  intro x member
  rcases List.mem_append.mp member with old | new
  · exact foreign x old
  · exact foreign' x new

theorem scheduledRuns (beside : Beside dag p q) : q.2.db.scheduledRuns dag = p.2.db.scheduledRuns dag := by
  obtain ⟨added, rows, foreign⟩ := beside.runs
  have none : (added.filter fun r => r.dagID == dag && r.triggerType == .schedule) = [] := by
    apply List.filter_eq_nil_iff.mpr
    intro r member
    simp [(foreign r member).1]
  rw [DB.scheduledRuns, rows, List.filter_append, none, List.append_nil]
  rfl

theorem anchor (beside : Beside dag p q) {d : DAG} (same : d.dagID = dag) : q.2.anchor d = p.2.anchor d := by
  subst same
  rw [World.anchor, World.anchor, DB.latestScheduledRun_eq, DB.latestScheduledRun_eq, beside.scheduledRuns, beside.boot]

theorem dueRun (beside : Beside dag p q) {d : DAG} (same : d.dagID = dag) (env : Env) (now : Time) :
    dueRun env now q.1 q.2 d = dueRun env now p.1 p.2 d := by
  have anchor := beside.anchor same
  subst same
  simp only [Scheduler.dueRun, World.cached, World.nextPeriod, anchor, beside.cache, beside.count]
  rfl

/-- The key of a run is as free as it was. -/
theorem fresh (beside : Beside dag p q) (date : Time) :
    (∀ x ∈ q.2.db.runs, RunKey.apart (runKey x) ⟨.logical dag date, dag, date⟩) ↔
      ∀ x ∈ p.2.db.runs, RunKey.apart (runKey x) ⟨.logical dag date, dag, date⟩ := by
  obtain ⟨added, rows, foreign⟩ := beside.runs
  simp only [Table.mem_def, rows, List.mem_append]
  constructor
  · exact fun free x member => free x (.inl member)
  · intro free x member
    rcases member with old | new
    · exact free x old
    · obtain ⟨other, id⟩ := foreign x new
      refine ⟨?_, fun same => other same.1⟩
      rw [runKey, id]
      intro clash
      cases clash
      exact other rfl

end Beside

section Rounds

variable (env : Env) (now : Time)

/-- A round would create its run if the queue had room. -/
def creates (p : ActiveRuns × World) (d : DAG) : Prop :=
  ∃ r, dueRun env now p.1 p.2 d = some r ∧ p.2.db.dagActive d.dagID = true ∧
    ∀ x ∈ p.2.db.runs, RunKey.apart (runKey x) (runKey r)

theorem dueRun_some {active : ActiveRuns} {w : World} {d : DAG} {r : DagRun} (due : dueRun env now active w d = some r) :
    r.dagID = d.dagID ∧ r.state = .queued ∧ r.triggerType = .schedule ∧ r.runID = .logical r.dagID r.logicalDate ∧
      active.count d.dagID < d.maxActiveRuns ∧ r.logicalDate ≤ now ∧
      ∃ cached schedule, w.cached d.dagID = some cached ∧ cached.schedule = some schedule ∧
        r.logicalDate = w.nextPeriod d schedule := by
  unfold dueRun at due
  split at due
  · cases due
  · split at due
    · cases due
    · rename_i cached found
      split at due
      · cases due
      · rename_i schedule parsed
        split at due
        · cases due
        · rename_i open_
          simp only [not_or, not_lt, ge_iff_le, not_le] at open_
          cases due
          exact ⟨rfl, rfl, rfl, rfl, open_.2.2, open_.2.1, cached, schedule, found, parsed, rfl⟩

/-- The two things that a round can do. -/
theorem round_cases (p : ActiveRuns × World) (d : DAG) :
    (round env now p d = p ∧ (creates env now p d → env.maxQueuedRunsGlobal ≤ p.2.db.queuedCount)) ∨
      ∃ r db, dueRun env now p.1 p.2 d = some r ∧ creates env now p d ∧
        p.2.db.queuedCount < env.maxQueuedRunsGlobal ∧ p.2.db.insertRun r = .ok db ∧
        round env now p d = (p.1.set d.dagID (p.1.count d.dagID + 1), { p.2 with db }) := by
  unfold round
  cases due : dueRun env now p.1 p.2 d with
  | none => exact .inl ⟨rfl, fun ⟨r, found, _⟩ => by rw [due] at found; cases found⟩
  | some r =>
    have owner : r.dagID = d.dagID := (dueRun_some env now due).1
    dsimp only
    cases created : p.2.db.createDagRunBounded r env.maxQueuedRunsGlobal with
    | ok db =>
      obtain ⟨live, room, inserted⟩ := DB.createDagRunBounded_ok created
      refine .inr ⟨r, db, rfl, ⟨r, due, owner ▸ live, (DB.insertRun_ok inserted).1⟩, room, inserted, rfl⟩
    | error e =>
      refine .inl ⟨rfl, fun ⟨s, found, live, fresh⟩ => ?_⟩
      rw [due] at found
      cases found
      by_contra room
      obtain ⟨runs, inserted⟩ := Table.insert?_isSome fresh
      simp [DB.createDagRunBounded, owner, live, not_le.mp room, DB.insertRun, inserted] at created

theorem beside_round {dag : DagID} (p : ActiveRuns × World) {d : DAG} (other : d.dagID ≠ dag) :
    Beside dag p (round env now p d) := by
  obtain ⟨same, _⟩ | ⟨r, db, due, _, _, inserted, same⟩ := round_cases env now p d
  · rw [same]
    exact .refl dag p
  · obtain ⟨owner, _, _, id, _⟩ := dueRun_some env now due
    obtain ⟨_, rows, _, _, _, _, dags, _⟩ := DB.insertRun_ok inserted
    rw [same]
    refine ⟨rfl, rfl, dags, ?_, [r], rows, ?_⟩
    · simp [ActiveRuns.set, Function.update_of_ne (Ne.symm other)]
    · intro x member
      obtain rfl := List.mem_singleton.mp member
      exact ⟨owner ▸ other, id⟩

theorem beside_rounds {dag : DagID} (dags : List DAG) (p : ActiveRuns × World) (others : ∀ d ∈ dags, d.dagID ≠ dag) :
    Beside dag p (dags.foldl (round env now) p) := by
  induction dags generalizing p with
  | nil => exact .refl dag p
  | cons d rest ih =>
    obtain ⟨other, others⟩ := List.forall_mem_cons.mp others
    exact (beside_round env now p other).trans (ih _ others)

theorem Beside.creates {dag : DagID} {p q : ActiveRuns × World} (beside : Beside dag p q) {d : DAG} (same : d.dagID = dag) :
    creates env now q d ↔ creates env now p d := by
  have live : q.2.db.dagActive d.dagID = p.2.db.dagActive d.dagID := by rw [DB.dagActive, beside.dags]; rfl
  unfold Scheduler.creates
  rw [beside.dueRun same, live]
  refine exists_congr fun r => and_congr_right fun due => and_congr_right fun _ => ?_
  obtain ⟨owner, _, _, id, _⟩ := dueRun_some env now due
  have key : runKey r = ⟨.logical dag r.logicalDate, dag, r.logicalDate⟩ := by rw [runKey, id, owner, same]
  rw [key]
  exact beside.fresh r.logicalDate

open Classical in
/-- The runs that some DAGs ask for, if the queue has room for all of them. -/
noncomputable def wanted (p : ActiveRuns × World) (dags : List DAG) : Nat := dags.countP fun d => creates env now p d

/-- The queue has room after the rounds of some DAGs if it has room for all they ask for. -/
theorem room_rounds (dags : List DAG) (p : ActiveRuns × World) (distinct : (dags.map (·.dagID)).Nodup) :
    (dags.foldl (round env now) p).2.db.queuedCount < env.maxQueuedRunsGlobal ↔
      p.2.db.queuedCount + wanted env now p dags < env.maxQueuedRunsGlobal := by
  induction dags generalizing p with
  | nil => simp [wanted]
  | cons d rest ih =>
    obtain ⟨apart, distinct⟩ := List.nodup_cons.mp distinct
    -- the other DAGs ask for the same after the round of `d`
    have same : wanted env now (round env now p d) rest = wanted env now p rest := by
      apply List.countP_congr
      intro e member
      have other : d.dagID ≠ e.dagID := fun eq => apart (List.mem_map.mpr ⟨e, member, eq.symm⟩)
      simpa using (beside_round env now p other).creates env now rfl
    rw [List.foldl_cons, ih _ distinct, same]
    obtain ⟨idle, full⟩ | ⟨r, db, due, creating, room, inserted, moved⟩ := round_cases env now p d
    · rw [idle]
      by_cases creating : creates env now p d
      · have queue := full creating
        omega
      · simp [wanted, creating]
    · have queue : (round env now p d).2.db.queuedCount = p.2.db.queuedCount + 1 := by
        obtain ⟨_, rows, _⟩ := DB.insertRun_ok inserted
        rw [moved, DB.queuedCount, rows]
        simp [DB.queuedCount, (dueRun_some env now due).2.1]
      have more : wanted env now p (d :: rest) = wanted env now p rest + 1 := by simp [wanted, creating]
      rw [queue, more]
      push_cast
      omega

end Rounds

/-! ### Progress -/

section Progress

variable (env : Env) (now : Time) {w : World} {d : DAG} {schedule : Time → Time}

theorem World.cached_id {dag : DagID} {c : CachedDAG} (found : w.cached dag = some c) : c.dag.dagID = dag := by
  simpa [CachedDAG.id] using List.find?_some found

/-- A pass visits every cached DAG once. -/
theorem World.dags_ids (w : World) (order : Shuffle) :
    (w.dags order).map (·.dagID) = order.apply (w.cache.rows.map (·.id)) := by
  have known : ∀ id ∈ order.apply (w.cache.rows.map (·.id)), ∃ c, w.cached id = some c := by
    intro id member
    obtain ⟨c, listed, rfl⟩ := List.mem_map.mp ((order.perm _).mem_iff.mp member)
    exact Option.isSome_iff_exists.mp (List.find?_isSome.mpr ⟨c, listed, beq_self_eq_true _⟩)
  unfold World.dags
  generalize order.apply (w.cache.rows.map (·.id)) = ids at known ⊢
  induction ids with
  | nil => rfl
  | cons id rest ih =>
    obtain ⟨⟨c, found⟩, known⟩ := List.forall_mem_cons.mp known
    simp only [List.filterMap_cons, found, Option.map_some, List.map_cons, ih known, World.cached_id found]

theorem World.dags_nodup (w : World) (order : Shuffle) : ((w.dags order).map (·.dagID)).Nodup := by
  rw [World.dags_ids, (order.perm _).nodup_iff]
  exact w.cache.distinct

theorem World.mem_dags {c : CachedDAG} (found : w.cached d.dagID = some c) (order : Shuffle) : c.dag ∈ w.dags order := by
  refine List.mem_filterMap.mpr ⟨d.dagID, (order.perm _).mem_iff.mpr ?_, by rw [found]; rfl⟩
  have owner : c.id = d.dagID := World.cached_id found
  exact owner ▸ List.mem_map_of_mem (List.mem_of_find?_eq_some found)

/-- The rounds before that of a DAG, its own and those after it. -/
theorem World.dags_split {c : CachedDAG} (found : w.cached d.dagID = some c) (order : Shuffle) :
    ∃ before after, w.dags order = before ++ c.dag :: after ∧
      before = (w.dags order).takeWhile (·.dagID != d.dagID) ∧
      (∀ e ∈ before, e.dagID ≠ d.dagID) ∧ ∀ e ∈ after, e.dagID ≠ d.dagID := by
  have owner : c.dag.dagID = d.dagID := World.cached_id found
  obtain ⟨before, after, split⟩ := List.append_of_mem (World.mem_dags found order)
  have distinct := w.dags_nodup order
  rw [split, List.map_append, List.map_cons, List.nodup_middle, List.nodup_cons, List.mem_append, not_or] at distinct
  have others (list : List DAG) (absent : c.dag.dagID ∉ list.map (·.dagID)) : ∀ e ∈ list, e.dagID ≠ d.dagID :=
    fun e member eq => absent (List.mem_map.mpr ⟨e, member, eq.trans owner.symm⟩)
  have first := others before distinct.1.1
  refine ⟨before, after, split, ?_, first, others after distinct.1.2⟩
  rw [split, List.takeWhile_append_of_pos (by simpa using first)]
  simp [owner]

/-- The runs that the DAGs visited before `d` ask for. -/
noncomputable def World.ahead (w : World) (order : Shuffle) (d : DAG) : Nat :=
  wanted env now w.atPass ((w.dags order).takeWhile (·.dagID != d.dagID))

/-- No run of the DAG, of whatever trigger, is stored at a date or under its run id. -/
def World.PeriodFree (w : World) (dag : DagID) (date : Time) : Prop :=
  ∀ x ∈ w.db.runs, RunKey.apart (runKey x) ⟨.logical dag date, dag, date⟩

/-- A date sorts, as the store writes it, after the dates of all the DAG's scheduled runs. -/
def World.SortsLast (w : World) (dag : DagID) (date : Time) : Prop :=
  ∀ x ∈ w.db.scheduledRuns dag, DB.fmtTime x.logicalDate < DB.fmtTime date

instance (w : World) (dag : DagID) (date : Time) : Decidable (w.PeriodFree dag date) :=
  inferInstanceAs (Decidable (∀ x ∈ w.db.runs.rows, RunKey.apart (runKey x) ⟨.logical dag date, dag, date⟩))

instance (w : World) (dag : DagID) (date : Time) : Decidable (w.SortsLast dag date) :=
  inferInstanceAs (Decidable (∀ x ∈ w.db.scheduledRuns dag, DB.fmtTime x.logicalDate < DB.fmtTime date))

/-- The anchor moves with a new scheduled run of the DAG only, and only if that sorts last. -/
theorem anchor_insertRun {r : DagRun} {db : DB} (inserted : w.db.insertRun r = .ok db) (owner : r.dagID = d.dagID)
    (kind : r.triggerType = .schedule) : World.anchor { w with db } d =
      if ∀ x ∈ w.db.scheduledRuns d.dagID, DB.fmtTime x.logicalDate < DB.fmtTime r.logicalDate then r.logicalDate
      else w.anchor d := by
  obtain ⟨_, rows, _⟩ := DB.insertRun_ok inserted
  have gained : db.scheduledRuns d.dagID = w.db.scheduledRuns d.dagID ++ [r] := by
    simp [DB.scheduledRuns, rows, List.filter_append, owner, kind]
  rw [World.anchor, DB.latestScheduledRun_append gained]
  by_cases sorts : ∀ x ∈ w.db.scheduledRuns d.dagID, DB.fmtTime x.logicalDate < DB.fmtTime r.logicalDate
  · rw [if_pos sorts, if_pos sorts]
  · rw [if_neg sorts, if_neg sorts]
    rfl

/-- Whether the schedule of a DAG moves on with a pass in which the DAG is due and within
its own limit: it does unless a run of another trigger sits on the next period. -/
theorem schedule_advances {a : Answer} (served : a.served = true) (cached : w.cached d.dagID = some ⟨d, some schedule⟩)
    (later : ∀ t, t < schedule t) (scheduled : d.schedule ≠ "") (tasks : d.tasks ≠ []) (unpaused : d.paused = false)
    (due : w.nextPeriod d schedule ≤ now) (below : w.db.countActiveRuns d.dagID < d.maxActiveRuns)
    (live : w.db.dagActive d.dagID = true) :
    w.nextPeriod d schedule < World.nextPeriod ((createDueRuns env now).run (World.respond a) w).2 d schedule ↔
      w.PeriodFree d.dagID (w.nextPeriod d schedule) ∧ w.SortsLast d.dagID (w.nextPeriod d schedule) ∧
        w.db.queuedCount + w.ahead env now a.order d < env.maxQueuedRunsGlobal := by
  obtain ⟨before, after, split, skipped, first, last⟩ := World.dags_split cached a.order
  rw [createDueRuns_run env now served, World.afterPass, World.ahead, ← skipped, split, List.foldl_append,
    List.foldl_cons]
  set p := before.foldl (round env now) w.atPass with turn
  -- nothing of `d` changes before its round or after it
  have arrived : Beside d.dagID w.atPass p := beside_rounds env now before _ first
  have left : Beside d.dagID (round env now p d) (after.foldl (round env now) (round env now p d)) :=
    beside_rounds env now after _ last
  have room : p.2.db.queuedCount < env.maxQueuedRunsGlobal ↔
      w.db.queuedCount + wanted env now w.atPass before < env.maxQueuedRunsGlobal := by
    have distinct := w.dags_nodup a.order
    rw [split, List.map_append] at distinct
    exact room_rounds env now before w.atPass distinct.of_append_left
  have asks : dueRun env now w.atPass.1 w.atPass.2 d = some (scheduledRun env d (w.nextPeriod d schedule) d) := by
    simp [dueRun, World.atPass, cached, scheduled, tasks, unpaused, not_lt.mpr due, not_le.mpr below]
  have creating : creates env now p d ↔ w.PeriodFree d.dagID (w.nextPeriod d schedule) := by
    rw [arrived.creates env now rfl]
    simp only [creates, asks, Option.some.injEq, exists_eq_left']
    exact and_iff_right live
  have anchored : World.nextPeriod (after.foldl (round env now) (round env now p d)).2 d schedule =
      (round env now p d).2.nextPeriod d schedule := congrArg schedule (left.anchor rfl)
  rw [anchored, ← room, ← creating]
  obtain ⟨idle, full⟩ | ⟨r, db, found, willing, open_, inserted, moved⟩ := round_cases env now p d
  · have still : (round env now p d).2.nextPeriod d schedule = w.nextPeriod d schedule := by
      rw [idle]
      exact congrArg schedule (arrived.anchor rfl)
    rw [still]
    constructor
    · exact fun less => absurd less (lt_irrefl _)
    · exact fun ⟨willing, _, open_⟩ => absurd (full willing) (not_le.mpr open_)
  · rw [arrived.dueRun rfl, asks] at found
    cases found
    have anchor : World.anchor { p.2 with db } d = if w.SortsLast d.dagID (w.nextPeriod d schedule)
        then w.nextPeriod d schedule else w.anchor d := by
      rw [anchor_insertRun inserted rfl rfl, arrived.scheduledRuns, arrived.anchor rfl]
      rfl
    rw [moved, World.nextPeriod, World.nextPeriod, anchor]
    by_cases sorts : w.SortsLast d.dagID (w.nextPeriod d schedule)
    · rw [if_pos sorts]
      exact ⟨fun _ => ⟨willing, sorts, open_⟩, fun _ => later _⟩
    · rw [if_neg sorts]
      exact ⟨fun less => absurd less (lt_irrefl _), fun ⟨_, sorted, _⟩ => absurd sorted sorts⟩

end Progress

/-! A DAG that runs every hour, for the concrete cases. -/

def hour : Time := 3600 * Calendar.second

def hourly (t : Time) : Time := (t / hour + 1) * hour

theorem lt_hourly (t : Time) : t < hourly t := by
  have positive : 0 < hour := by decide
  exact Int.lt_ediv_add_one_mul_self t positive

def hourlyEnv : Env where
  parse _ := none
  hash yaml := yaml
  shift _ t _ := some t
  parseSchedule _ _ := some hourly
  decodePayload _ := none

def report : DAG := { dagID := "report", schedule := "0 * * * *", tasks := [{ id := "load" }] }

/-- A process that started at hour 0, with the DAG cached and these runs stored. -/
def hourlyWorld (runs : Runs) : World where
  db := { DB.empty with dags := [{ dagID := "report" }], runs }
  cache := ⟨[⟨report, some hourly⟩], List.pairwise_singleton _ _⟩

theorem fresh_schedule_advances :
    World.nextPeriod (hourlyWorld .empty) report hourly <
      World.nextPeriod ((createDueRuns hourlyEnv hour).run (World.respond {}) (hourlyWorld .empty)).2 report hourly :=
  (schedule_advances hourlyEnv hour rfl rfl lt_hourly (by decide) (by decide) rfl (by decide) (by decide) (by decide)).mpr
    ⟨by decide, by decide, by
      have none : World.ahead hourlyEnv hour (hourlyWorld .empty) Shuffle.id report = 0 := rfl
      rw [none]
      decide⟩

/-- A backfill of the current hour stops the schedule: the run it stored is no anchor, and its
row refuses the scheduled run for ever. -/
theorem backfilled_period_stalls_schedule :
    ¬ ∀ (env : Env) (now : Time) (w : World) (d : DAG) (schedule : Time → Time) (a : Answer), a.served = true →
      w.cached d.dagID = some ⟨d, some schedule⟩ → (∀ t, t < schedule t) → d.schedule ≠ "" → d.tasks ≠ [] →
      d.paused = false → w.nextPeriod d schedule ≤ now → w.db.countActiveRuns d.dagID < d.maxActiveRuns →
      w.db.dagActive d.dagID = true → w.db.queuedCount < env.maxQueuedRunsGlobal →
      w.nextPeriod d schedule < World.nextPeriod ((createDueRuns env now).run (World.respond a) w).2 d schedule := by
  intro claim
  let done : DagRun := { backfillRun hourlyEnv report hour with state := .success }
  have stalled := claim hourlyEnv hour (hourlyWorld ⟨[done], List.pairwise_singleton _ _⟩) report hourly {} rfl rfl
    lt_hourly (by decide) (by decide) rfl (by decide) (by decide) (by decide) (by decide)
  revert stalled
  decide

/-! ### Missed periods -/

section Missed

variable (env : Env) (now : Time) {w : World} {d : DAG} {schedule : Time → Time} {points : Set Time}

/-- `Next` of a schedule with these points. -/
def NextOf (points : Set Time) (schedule : Time → Time) : Prop := ∀ t, IsLeast {p | p ∈ points ∧ t < p} (schedule t)

/-- The period `p` is the current one: every later point is still to come. -/
def Current (points : Set Time) (now p : Time) : Prop := ∀ q ∈ points, p < q → now < q

/-- Where the schedule of a DAG without catchup goes on: at its latest scheduled run, or at the
start of the process when there is none. -/
def World.resumesFrom (w : World) (dag : DagID) : Time :=
  match w.db.latestScheduledRun dag with
  | .ok r => r.logicalDate
  | .error _ => w.bootTime

/-- At most one point has passed since then. -/
def World.OnTime (w : World) (dag : DagID) (points : Set Time) (now : Time) : Prop :=
  ∀ p ∈ points, ∀ q ∈ points, w.resumesFrom dag < p → p < q → now < q

/-- The DAG is cached without catchup and with a schedule of these points. -/
def World.Observes (w : World) (dag : DagID) (points : Set Time) : Prop :=
  ∃ d schedule, w.cached dag = some ⟨d, some schedule⟩ ∧ d.catchup = false ∧ NextOf points schedule

theorem World.anchor_eq (manual : d.catchup = false) : w.anchor d = w.resumesFrom d.dagID := by
  unfold World.anchor World.resumesFrom
  rw [manual]
  rfl

theorem current_iff (next : NextOf points schedule) (from_ : Time) :
    Current points now (schedule from_) ↔ ∀ p ∈ points, ∀ q ∈ points, from_ < p → p < q → now < q := by
  obtain ⟨⟨member, after⟩, least⟩ := next from_
  constructor
  · intro current p point q later passed below
    have first : schedule from_ ≤ p := least ⟨point, passed⟩
    exact current q later (lt_of_le_of_lt first below)
  · intro single q later below
    exact single (schedule from_) member q later after below

/-- A pass creates at most the next period of a DAG. -/
theorem created_at_next (cached : w.cached d.dagID = some ⟨d, some schedule⟩) (order : Shuffle) {r : DagRun}
    (stored : r ∈ (w.afterPass env now order).db.runs) (fresh : r ∉ w.db.runs) (owner : r.dagID = d.dagID) :
    r.logicalDate = w.nextPeriod d schedule := by
  obtain ⟨before, after, split, _, first, last⟩ := World.dags_split cached order
  rw [World.afterPass, split, List.foldl_append, List.foldl_cons] at stored
  have arrived := beside_rounds env now before w.atPass first
  have left := beside_rounds env now after (round env now (before.foldl (round env now) w.atPass) d) last
  -- the rounds of the other DAGs add no run of this one
  have mine {p q : ActiveRuns × World} (beside : Beside d.dagID p q) (member : r ∈ q.2.db.runs) : r ∈ p.2.db.runs := by
    obtain ⟨added, rows, foreign⟩ := beside.runs
    rw [Table.mem_def, rows, List.mem_append] at member
    rcases member with old | new
    · exact old
    · exact absurd owner (foreign r new).1
  have turn := mine left stored
  obtain ⟨idle, _⟩ | ⟨s, db, due, _, _, inserted, moved⟩ :=
    round_cases env now (before.foldl (round env now) w.atPass) d
  · rw [idle] at turn
    exact absurd (mine arrived turn) fresh
  · rw [moved, Table.mem_def, (DB.insertRun_ok inserted).2.1, List.mem_append] at turn
    rcases turn with old | new
    · exact absurd (mine arrived old) fresh
    · obtain rfl := List.mem_singleton.mp new
      obtain ⟨_, _, _, _, _, _, entry, found, listed, parsed, date⟩ := dueRun_some env now due
      have same : (before.foldl (round env now) w.atPass).2.cached d.dagID = w.cached d.dagID := by
        rw [World.cached, arrived.cache]
        rfl
      rw [same, cached] at listed
      cases listed
      cases parsed
      rw [date, World.nextPeriod, World.nextPeriod, arrived.anchor rfl]
      rfl

/-- A history of the scheduler: passes of `createDueRuns`, each with the runs it created, and
between them anything at all (downtime, restarts, pauses, other work on the store). -/
inductive Timeline (tick : Time → World → Prop) : World → List (Time × DagRun) → Prop where
  | start (w : World) : Timeline tick w []
  | meanwhile {w : World} {log : List (Time × DagRun)} (v : World) : Timeline tick w log → Timeline tick v log
  | pass {w v : World} {log : List (Time × DagRun)} {now : Time} {a : Answer} : Timeline tick w log → tick now w →
      a.served = true → v = ((createDueRuns env now).run (World.respond a) w).2 →
      Timeline tick v (log ++ (v.db.runs.rows.filter (· ∉ w.db.runs.rows)).map (now, ·))

/-- A run of a DAG without catchup is for the current period exactly when no period was missed
since the latest scheduled run or the start; so along a history without missed periods every
run is. -/
theorem created_run_current (dag : DagID) (points : Set Time) :
    (∀ (w : World) (d : DAG) (schedule : Time → Time) (now : Time) (a : Answer) (r : DagRun), a.served = true →
      w.cached dag = some ⟨d, some schedule⟩ → d.catchup = false → NextOf points schedule →
      r ∈ ((createDueRuns env now).run (World.respond a) w).2.db.runs → r ∉ w.db.runs → r.dagID = dag →
      (Current points now r.logicalDate ↔ w.OnTime dag points now)) ∧
    ∀ (w : World) (log : List (Time × DagRun)),
      Timeline env (fun now w => w.OnTime dag points now ∧ w.Observes dag points) w log →
      ∀ entry ∈ log, entry.2.dagID = dag → Current points entry.1 entry.2.logicalDate := by
  have pass (w : World) (d : DAG) (schedule : Time → Time) (now : Time) (a : Answer) (r : DagRun) (served : a.served = true)
      (cached : w.cached dag = some ⟨d, some schedule⟩) (manual : d.catchup = false) (next : NextOf points schedule)
      (stored : r ∈ ((createDueRuns env now).run (World.respond a) w).2.db.runs) (fresh : r ∉ w.db.runs)
      (owner : r.dagID = dag) : Current points now r.logicalDate ↔ w.OnTime dag points now := by
    obtain rfl : d.dagID = dag := World.cached_id cached
    rw [createDueRuns_run env now served] at stored
    rw [created_at_next env now cached a.order stored fresh owner, World.nextPeriod, World.anchor_eq manual]
    exact current_iff now next _
  refine ⟨pass, fun w log history => ?_⟩
  -- the induction is on the history; only a pass adds to the log
  induction history with
  | start w => simp
  | meanwhile v _ ih => exact ih
  | @pass w v log now a _ tick served ran ih =>
    intro entry member owner
    obtain ⟨onTime, d, schedule, cached, manual, next⟩ := tick
    rcases List.mem_append.mp member with old | new
    · exact ih entry old owner
    · obtain ⟨r, created, rfl⟩ := List.mem_map.mp new
      obtain ⟨stored, fresh⟩ := List.mem_filter.mp created
      have absent : r ∉ w.db.runs.rows := by simpa using fresh
      exact (pass w d schedule now a r served cached manual next (ran ▸ stored) absent owner).mpr onTime

end Missed

theorem nextOf_hourly : NextOf {p | hour ∣ p} hourly := by
  intro t
  refine ⟨⟨Int.dvd_mul_left _ _, lt_hourly t⟩, ?_⟩
  rintro p ⟨⟨k, rfl⟩, after⟩
  have positive : 0 < hour := by decide
  have beyond : t / hour < k := Int.ediv_lt_of_lt_mul positive (by rwa [Int.mul_comm])
  rw [hourly, Int.mul_comm]
  exact Int.mul_le_mul_of_nonneg_left beyond positive.le

theorem punctual_run_current : Current {p | hour ∣ p} hour hour := by
  let last : DagRun := { scheduledRun hourlyEnv report 0 report with state := .success }
  let w : World := hourlyWorld ⟨[last], List.pairwise_singleton _ _⟩
  have onTime : w.OnTime "report" {p | hour ∣ p} hour := by
    intro p point q _ passed below
    have whole : hour ≤ p := Int.le_of_dvd passed point
    exact lt_of_le_of_lt whole below
  exact (created_run_current hourlyEnv "report" {p | hour ∣ p}).2 _ _
    (.pass (a := {}) (.start w) ⟨onTime, report, hourly, rfl, rfl, nextOf_hourly⟩ rfl rfl)
    (hour, scheduledRun hourlyEnv report hour report) (by decide +kernel) rfl

/-- A process that was down from hour 1 to hour 3 first runs hour 1. -/
theorem missed_period_runs_without_catchup :
    ¬ ∀ (env : Env) (w : World) (d : DAG) (schedule : Time → Time) (points : Set Time) (now : Time) (a : Answer) (r : DagRun),
      a.served = true → w.cached d.dagID = some ⟨d, some schedule⟩ → d.catchup = false → NextOf points schedule →
      r ∈ ((createDueRuns env now).run (World.respond a) w).2.db.runs → r ∉ w.db.runs → r.dagID = d.dagID →
      Current points now r.logicalDate := by
  intro claim
  let last : DagRun := { scheduledRun hourlyEnv report 0 report with state := .success }
  let restarted : World := { hourlyWorld ⟨[last], List.pairwise_singleton _ _⟩ with bootTime := 3 * hour }
  have current := claim hourlyEnv restarted report hourly _ (3 * hour) {} (scheduledRun hourlyEnv report hour report)
    rfl rfl rfl nextOf_hourly (by rw [Table.mem_def]; decide +kernel) (by rw [Table.mem_def]; decide) rfl
  exact absurd (current (2 * hour) (Int.dvd_mul_left _ _) (by decide)) (by decide)

end Cronova.Scheduler
