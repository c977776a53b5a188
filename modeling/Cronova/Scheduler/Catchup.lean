import Cronova.Scheduler.Schedule

/-! Catchup: the runs that `createDueRuns` creates, pass after pass, for a DAG with
`catchup: true`. Between any two statements of a pass runs may complete and anything may
happen to other DAGs; any statement may fail. -/

set_option autoImplicit false

namespace Cronova.Scheduler

open Model Store Process
open Calendar (Time)

section Segment

variable {T : Type} [LinearOrder T] {points : Set T} {dates : List T}

/-- The list enumerates an initial segment of the points, in order. -/
structure InitialSegment (points : Set T) (dates : List T) : Prop where
  increasing : dates.Pairwise (· < ·)
  member : ∀ p ∈ dates, p ∈ points
  closed : ∀ p ∈ dates, ∀ q ∈ points, q ≤ p → q ∈ dates

theorem InitialSegment.empty (points : Set T) : InitialSegment points [] := ⟨.nil, by simp, by simp⟩

theorem InitialSegment.append (segment : InitialSegment points dates) {x : T} (point : x ∈ points) (fresh : x ∉ dates)
    (below : ∀ q ∈ points, q < x → q ∈ dates) : InitialSegment points (dates ++ [x]) := by
  have above : ∀ p ∈ dates, p < x := by
    intro p listed
    by_contra beyond
    exact fresh (segment.closed p listed x point (not_lt.mp beyond))
  refine ⟨?_, ?_, ?_⟩
  · rw [List.pairwise_append]
    exact ⟨segment.increasing, List.pairwise_singleton _ _, by simpa using above⟩
  · intro p listed
    rcases List.mem_append.mp listed with old | new
    · exact segment.member p old
    · exact List.mem_singleton.mp new ▸ point
  · intro p listed q wanted before
    rcases List.mem_append.mp listed with old | new
    · exact List.mem_append_left _ (segment.closed p old q wanted before)
    · obtain rfl := List.mem_singleton.mp new
      rcases lt_or_eq_of_le before with less | rfl
      · exact List.mem_append_left _ (below q wanted less)
      · exact List.mem_append_right _ (List.mem_singleton.mpr rfl)

end Segment

/-- The runs of a DAG, in the order in which they were created. -/
def World.runsOf (w : World) (dag : DagID) : List DagRun := w.db.runs.rows.filter (·.dagID == dag)

def World.dates (w : World) (dag : DagID) : List Time := (w.runsOf dag).map (·.logicalDate)

/-- What may happen to a DAG and its runs from outside: runs complete (or change in other ways
that leave no more of them active) and the DAG is paused or resumed. -/
structure Completions (dag : DagID) (w v : World) : Prop where
  cache : ∀ d schedule, w.cached dag = some ⟨d, schedule⟩ → ∃ paused, v.cached dag = some ⟨{ d with paused }, schedule⟩
  runs : (v.runsOf dag).map (fun r => (runKey r, r.triggerType)) = (w.runsOf dag).map fun r => (runKey r, r.triggerType)
  active : v.db.countActiveRuns dag ≤ w.db.countActiveRuns dag

namespace Completions

variable {dag : DagID} {u v w : World}

theorem refl (dag : DagID) (w : World) : Completions dag w w := ⟨fun d _ found => ⟨d.paused, found⟩, rfl, le_refl _⟩

theorem trans (first : Completions dag u v) (second : Completions dag v w) : Completions dag u w := by
  refine ⟨?_, second.runs.trans first.runs, second.active.trans first.active⟩
  intro d schedule found
  obtain ⟨paused, found⟩ := first.cache d schedule found
  obtain ⟨paused', found⟩ := second.cache _ schedule found
  exact ⟨paused', found⟩

theorem dates (moved : Completions dag w v) : v.dates dag = w.dates dag := by
  have keys := congrArg (List.map fun key : RunKey × TriggerType => key.1.date) moved.runs
  simpa [World.dates, runKey, Function.comp_def] using keys

theorem scheduled (moved : Completions dag w v) (all : ∀ r ∈ w.runsOf dag, r.triggerType = .schedule) :
    ∀ r ∈ v.runsOf dag, r.triggerType = .schedule := by
  intro r listed
  have key : (runKey r, r.triggerType) ∈ (w.runsOf dag).map fun r => (runKey r, r.triggerType) :=
    moved.runs ▸ List.mem_map_of_mem listed
  obtain ⟨x, old, same⟩ := List.mem_map.mp key
  rw [← (Prod.mk.inj same).2]
  exact all x old

end Completions

section Passes

variable (d : DAG) (next : Time → Time) (points : Set Time)

/-- The points of the schedule from the start date on. -/
def DAG.periods : Set Time := {p | p ∈ points ∧ d.startDate ≤ p}

/-- The state of a DAG with catchup between two statements. -/
structure CaughtUp (w : World) : Prop where
  cached : ∃ paused, w.cached d.dagID = some ⟨{ d with paused }, some next⟩
  scheduled : ∀ r ∈ w.runsOf d.dagID, r.triggerType = .schedule
  segment : InitialSegment (DAG.periods d points) (w.dates d.dagID)
  bounded : 0 < w.db.countActiveRuns d.dagID → w.db.countActiveRuns d.dagID ≤ d.maxActiveRuns

/-- A date from which the schedule may go on. -/
def CatchupAnchor (w : World) (t : Time) : Prop := t ∈ w.dates d.dagID ∨ t = d.startDate - Calendar.second

/-- The statements of a pass. -/
def catchupMay : Op → World → Prop
  | .countActiveRunsByDag, _ | .allDAGs, _ | .cachedDAG _, _ | .latestScheduledRun _, _ | .bootTime, _
  | .countActiveRuns _, _ => True
  | .createDagRunBounded r _, w => r.dagID = d.dagID → r.triggerType = .schedule ∧ r.state = .queued ∧
      w.db.countActiveRuns d.dagID < d.maxActiveRuns ∧ ∃ t, CatchupAnchor d w t ∧ r.logicalDate = next t
  | _, _ => False

/-- Any statement may fail, and completions come in between. -/
def catchup : Contract statements World where
  step o w reply v := ∃ tid a spawned, World.perform tid o a w = some (reply, v, spawned)
  inv := CaughtUp d next points
  rely := Completions d.dagID
  may := catchupMay d next

end Passes

section Passes

variable {d : DAG} {next : Time → Time} {points : Set Time}

theorem World.dates_insertRun {w : World} {r : DagRun} {db : DB} (inserted : w.db.insertRun r = .ok db) (dag : DagID) :
    World.runsOf { w with db } dag = w.runsOf dag ++ if r.dagID = dag then [r] else [] := by
  obtain ⟨_, rows, _⟩ := DB.insertRun_ok inserted
  unfold World.runsOf
  rw [rows, List.filter_append]
  by_cases owner : r.dagID = dag <;> simp [owner]

theorem World.active_insertRun {w : World} {r : DagRun} {db : DB} (inserted : w.db.insertRun r = .ok db)
    (queued : r.state = .queued) (dag : DagID) :
    db.countActiveRuns dag = w.db.countActiveRuns dag + if r.dagID = dag then 1 else 0 := by
  obtain ⟨_, rows, _⟩ := DB.insertRun_ok inserted
  unfold DB.countActiveRuns
  rw [rows, List.countP_append]
  by_cases owner : r.dagID = dag <;> simp [owner, queued, RunState.isActive]

theorem le_of_whole {s t : Int} (whole : Calendar.second ∣ s) (whole' : Calendar.second ∣ t)
    (close : s - Calendar.second < t) : s ≤ t := by
  unfold Calendar.second at *
  omega

/-- The point after an anchor extends the segment, if it is new. -/
theorem CaughtUp.extends (whole : ∀ p ∈ points, Calendar.second ∣ p) (start : Calendar.second ∣ d.startDate)
    (least : NextOf points next) {w : World} (caught : CaughtUp d next points w) {t : Time} (anchor : CatchupAnchor d w t)
    (fresh : next t ∉ w.dates d.dagID) : InitialSegment (DAG.periods d points) (w.dates d.dagID ++ [next t]) := by
  obtain ⟨⟨point, later⟩, first⟩ := least t
  rcases anchor with listed | rfl
  · have begun : d.startDate ≤ t := (caught.segment.member t listed).2
    refine caught.segment.append ⟨point, begun.trans later.le⟩ fresh ?_
    intro q wanted below
    have upto : q ≤ t := by
      by_contra beyond
      exact absurd (first ⟨wanted.1, not_le.mp beyond⟩) (not_le.mpr below)
    exact caught.segment.closed t listed q wanted upto
  · have begun := le_of_whole start (whole _ point) later
    refine caught.segment.append ⟨point, begun⟩ fresh ?_
    intro q wanted below
    have passed : d.startDate - Calendar.second < q := lt_of_lt_of_le (Int.sub_lt_self _ (by decide)) wanted.2
    exact absurd (first ⟨wanted.1, passed⟩) (not_le.mpr below)

theorem CaughtUp.creates (whole : ∀ p ∈ points, Calendar.second ∣ p) (start : Calendar.second ∣ d.startDate)
    (least : NextOf points next) {w : World} (caught : CaughtUp d next points w) {r : DagRun} {global : Int}
    (may : catchupMay d next (.createDagRunBounded r global) w) {db : DB}
    (created : w.db.createDagRunBounded r global = .ok db) : CaughtUp d next points { w with db } := by
  obtain ⟨_, _, inserted⟩ := DB.createDagRunBounded_ok created
  have gained := World.dates_insertRun inserted d.dagID
  by_cases owner : r.dagID = d.dagID
  · obtain ⟨kind, queued, room, t, anchor, date⟩ := may owner
    rw [if_pos owner] at gained
    have dates : World.dates { w with db } d.dagID = w.dates d.dagID ++ [next t] := by
      simp [World.dates, gained, date]
    have fresh : next t ∉ w.dates d.dagID := by
      intro listed
      obtain ⟨x, member, same⟩ := List.mem_map.mp listed
      obtain ⟨stored, dag⟩ := List.mem_filter.mp member
      have apart := ((DB.insertRun_ok inserted).1 x stored).2
      exact apart ⟨(beq_iff_eq.mp dag).trans owner.symm, same.trans date.symm⟩
    refine ⟨caught.cached, ?_, dates ▸ caught.extends whole start least anchor fresh, fun _ => ?_⟩
    · rw [gained]
      intro x member
      rcases List.mem_append.mp member with old | new
      · exact caught.scheduled x old
      · exact List.mem_singleton.mp new ▸ kind
    · have count := World.active_insertRun inserted queued d.dagID
      rw [if_pos owner] at count
      show db.countActiveRuns d.dagID ≤ d.maxActiveRuns
      omega
  · rw [if_neg owner, List.append_nil] at gained
    have count : db.countActiveRuns d.dagID = w.db.countActiveRuns d.dagID := by
      unfold DB.countActiveRuns
      rw [(DB.insertRun_ok inserted).2.1, List.countP_append]
      simp [owner]
    refine ⟨caught.cached, gained ▸ caught.scheduled, ?_, ?_⟩
    · rw [World.dates, gained]
      exact caught.segment
    · show 0 < db.countActiveRuns d.dagID → db.countActiveRuns d.dagID ≤ d.maxActiveRuns
      rw [count]
      exact caught.bounded

theorem CaughtUp.step (whole : ∀ p ∈ points, Calendar.second ∣ p) (start : Calendar.second ∣ d.startDate)
    (least : NextOf points next) (o : Op) (w : World) (reply : o.Reply) (v : World) (caught : CaughtUp d next points w)
    (may : catchupMay d next o w) (stepped : (catchup d next points).step o w reply v) : CaughtUp d next points v := by
  obtain ⟨tid, a, spawned, performed⟩ := stepped
  cases o with
  | createDagRunBounded r global =>
    obtain ⟨_, ⟨db, created, _, rfl⟩ | ⟨_, rfl⟩⟩ := World.write_some performed
    · exact caught.creates whole start least may created
    · exact caught
  | countActiveRunsByDag | latestScheduledRun | countActiveRuns =>
    obtain ⟨rfl, _⟩ := World.read_some performed
    exact caught
  | allDAGs | cachedDAG | bootTime =>
    cases performed
    exact caught
  | _ => exact absurd may id

theorem CaughtUp.others (w v : World) (caught : CaughtUp d next points w) (moved : Completions d.dagID w v) :
    CaughtUp d next points v := by
  obtain ⟨paused, found⟩ := caught.cached
  obtain ⟨paused, found⟩ := moved.cache _ _ found
  refine ⟨⟨paused, found⟩, moved.scheduled caught.scheduled, moved.dates ▸ caught.segment, ?_⟩
  have fewer := moved.active
  have bounded := caught.bounded
  omega

end Passes

section Verification

variable {d : DAG} {next : Time → Time} {points : Set Time}

/-- The tick-local count of active runs is no lower than the real one. -/
def Counts (dag : DagID) (active : ActiveRuns) (w : World) : Prop :=
  active.complete = true → w.db.countActiveRuns dag ≤ active.count dag

theorem Counts.moved {dag : DagID} {active : ActiveRuns} {w v : World} (counts : Counts dag active w)
    (moved : Completions dag w v) : Counts dag active v := fun complete => moved.active.trans (counts complete)

/-- The entry of `d` in a copy of the cache. -/
def Version (d e : DAG) : Prop := e.dagID = d.dagID → ∃ paused, e = { d with paused }

theorem scheduleAnchor_safe (catchup_ : d.catchup = true) {e : DAG} (version : Version d e) (active : ActiveRuns) (w : World)
    (counts : Counts d.dagID active w) : (scheduleAnchor e).Safe (catchup d next points)
      (Prog.returns fun t v => (e.dagID = d.dagID → CatchupAnchor d v t) ∧ Counts d.dagID active v) w := by
  intro v moved _
  refine ⟨trivial, fun reply u stepped _ => ?_⟩
  obtain ⟨tid, a, spawned, performed⟩ := stepped
  obtain ⟨rfl, _, answered⟩ := World.read_some performed
  cases reply with
  | ok r =>
    refine ⟨fun owner => .inl ?_, counts.moved moved⟩
    rcases answered with found | failed
    · have listed := DB.latestScheduledRun_ok found.symm
      obtain ⟨stored, dag, _⟩ := DB.mem_scheduledRuns.mp listed
      exact List.mem_map_of_mem (List.mem_filter.mpr ⟨stored, beq_iff_eq.mpr (dag.trans owner)⟩)
    · cases failed
  | error err =>
    by_cases owner : e.dagID = d.dagID
    · obtain ⟨paused, rfl⟩ := version owner
      simp only [catchup_, if_true]
      exact ⟨fun _ => .inr rfl, counts.moved moved⟩
    · show Prog.Safe _ (if e.catchup = true then _ else _) _ _
      split
      · exact ⟨fun same => absurd same owner, counts.moved moved⟩
      · intro v' moved' _
        refine ⟨trivial, fun reply' u' stepped' _ => ?_⟩
        obtain ⟨tid', a', spawned', performed'⟩ := stepped'
        cases performed'
        exact ⟨fun same => absurd same owner, (counts.moved moved).moved moved'⟩

theorem activeRunsOf_safe (e : DAG) (active : ActiveRuns) {t : Time} (w : World) (counts : Counts d.dagID active w)
    (anchor : e.dagID = d.dagID → CatchupAnchor d w t) : (activeRunsOf active e.dagID).Safe (catchup d next points)
      (Prog.returns fun found v => (found = none → Counts d.dagID active v) ∧ ∀ active', found = some active' →
        Counts d.dagID active' v ∧ (e.dagID = d.dagID → CatchupAnchor d v t) ∧
        (e.dagID = d.dagID → v.db.countActiveRuns d.dagID ≤ active'.count d.dagID)) w := by
  unfold activeRunsOf
  split
  · rename_i complete
    refine ⟨nofun, ?_⟩
    rintro _ ⟨⟩
    exact ⟨counts, anchor, fun _ => counts complete⟩
  · rename_i partly
    intro v moved _
    refine ⟨trivial, fun reply u stepped _ => ?_⟩
    obtain ⟨tid, a, spawned, performed⟩ := stepped
    obtain ⟨rfl, _, answered⟩ := World.read_some performed
    cases reply with
    | error err => exact ⟨fun _ => counts.moved moved, nofun⟩
    | ok n =>
      refine ⟨nofun, ?_⟩
      rintro _ ⟨⟩
      refine ⟨fun complete => absurd complete partly, fun owner => ?_, fun owner => ?_⟩
      · rw [CatchupAnchor, moved.dates]
        exact anchor owner
      · rcases answered with count | failed
        · cases count
          simp [ActiveRuns.set, owner]
        · cases failed

theorem createScheduled_safe (env : Env) {e entry : DAG} (version : Version d e) {active : ActiveRuns} {schedule : Time → Time}
    {t : Time} {w : World} (same : e.dagID = d.dagID → schedule = next) (counts : Counts d.dagID active w)
    (anchor : e.dagID = d.dagID → CatchupAnchor d w t)
    (bound : e.dagID = d.dagID → w.db.countActiveRuns d.dagID ≤ active.count d.dagID)
    (room : active.count e.dagID < e.maxActiveRuns) :
    Prog.Safe (catchup d next points) (do
      match ← (createDagRunBounded (scheduledRun env e (schedule t) entry) env.maxQueuedRunsGlobal).attempt with
      | .error _ => pure active
      | .ok _ => pure (active.set e.dagID (active.count e.dagID + 1)))
      (Prog.returns fun active' v => Counts d.dagID active' v) w := by
  intro v moved _
  refine ⟨fun owner => ?_, fun reply u stepped _ => ?_⟩
  · replace owner : e.dagID = d.dagID := owner
    have limit : e.maxActiveRuns = d.maxActiveRuns := by
      obtain ⟨paused, rfl⟩ := version owner
      rfl
    refine ⟨rfl, rfl, ?_, t, ?_, ?_⟩
    · have fewer := moved.active
      have counted := bound owner
      rw [owner] at room
      omega
    · rw [CatchupAnchor, moved.dates]
      exact anchor owner
    · rw [← same owner]
      rfl
  · obtain ⟨tid, a, spawned, performed⟩ := stepped
    obtain ⟨_, ⟨db, created, rfl, rfl⟩ | ⟨⟨err, rfl⟩, rfl⟩⟩ := World.write_some performed
    · intro complete
      obtain ⟨_, _, inserted⟩ := DB.createDagRunBounded_ok created
      have count : db.countActiveRuns d.dagID = v.db.countActiveRuns d.dagID + if e.dagID = d.dagID then 1 else 0 :=
        World.active_insertRun inserted rfl d.dagID
      have before := counts.moved moved complete
      show db.countActiveRuns d.dagID ≤ Function.update active.count e.dagID (active.count e.dagID + 1) d.dagID
      by_cases owner : e.dagID = d.dagID
      · rw [count, if_pos owner, owner, Function.update_self]
        omega
      · rw [count, if_neg owner, Function.update_of_ne (Ne.symm owner)]
        omega
    · exact counts.moved moved

/-- A round keeps the counts honest and asks only for the point after an anchor. -/
theorem createDueRun_safe (env : Env) (now : Time) (catchup_ : d.catchup = true) {e : DAG} (version : Version d e)
    (active : ActiveRuns) (w : World) (counts : Counts d.dagID active w) :
    (createDueRun env now active e).Safe (catchup d next points)
      (Prog.returns fun active' v => Counts d.dagID active' v) w := by
  unfold createDueRun
  split
  · exact counts
  · intro v moved caught
    refine ⟨trivial, fun reply u stepped _ => ?_⟩
    obtain ⟨tid, a, spawned, performed⟩ := stepped
    cases performed
    replace counts := counts.moved moved
    cases found : v.cached e.dagID with
    | none => exact counts
    | some cached =>
      obtain ⟨entry, parsed⟩ := cached
      cases parsed with
      | none => exact counts
      | some schedule =>
        have same : e.dagID = d.dagID → schedule = next := by
          intro owner
          obtain ⟨paused, listed⟩ := caught.cached
          rw [owner, listed] at found
          cases found
          rfl
        show Prog.Safe _ (if entry.paused = true then _ else _) _ _
        split
        · exact counts
        · refine Prog.Safe.andThen _ (scheduleAnchor_safe catchup_ version active v counts) ?_
          intro t u ⟨anchor, counts⟩
          show Prog.Safe _ (if now < schedule t then _ else _) _ _
          split
          · exact counts
          · refine Prog.Safe.andThen _ (activeRunsOf_safe e active u counts anchor) ?_
            intro found v ⟨failed, counted⟩
            cases found with
            | none => exact failed rfl
            | some active =>
              obtain ⟨counts, anchor, bound⟩ := counted active rfl
              show Prog.Safe _ (if active.count e.dagID ≥ e.maxActiveRuns then _ else _) _ _
              split
              · exact counts
              · rename_i room
                exact createScheduled_safe env version same counts anchor bound (not_le.mp room)

theorem Version.of_mem {w : World} (caught : CaughtUp d next points w) (order : Shuffle) {e : DAG} (listed : e ∈ w.dags order) :
    Version d e := by
  intro owner
  obtain ⟨id, _, found⟩ := List.mem_filterMap.mp listed
  obtain ⟨c, lookup, rfl⟩ := Option.map_eq_some_iff.mp found
  obtain ⟨paused, entry⟩ := caught.cached
  rw [← World.cached_id lookup, owner, entry] at lookup
  cases lookup
  exact ⟨paused, rfl⟩

theorem createDueRuns_safe (env : Env) (now : Time) (catchup_ : d.catchup = true) (w : World) :
    (createDueRuns env now).Safe (catchup d next points) (Prog.returns fun _ _ => True) w := by
  have rounds (active : ActiveRuns) (v : World) (counts : Counts d.dagID active v) : Prog.Safe (catchup d next points)
      (do
        let dags ← perform .allDAGs
        let _ ← Prog.fold (createDueRun env now) dags active
        pure ()) (Prog.returns fun _ _ => True) v := by
    intro u moved caught
    refine ⟨trivial, fun reply u' stepped _ => ?_⟩
    obtain ⟨tid, a, spawned, performed⟩ := stepped
    cases performed
    show Prog.Safe _ (Prog.bind (Prog.fold (createDueRun env now) (u.dags a.order) active) _) _ _
    refine Prog.Safe.andThen (fun _ _ => True) ?_ fun _ _ _ => trivial
    -- the loop invariant: honest counts, and only entries of the cache are left to visit
    apply Prog.Safe.fold fun rest active v => Counts d.dagID active v ∧ ∀ e ∈ rest, Version d e
    · exact ⟨counts.moved moved, fun e listed => Version.of_mem caught a.order listed⟩
    · intro e rest active v ⟨counts, versions⟩
      obtain ⟨version, versions⟩ := List.forall_mem_cons.mp versions
      refine (createDueRun_safe env now catchup_ version active v counts).mono ?_
      intro r t kept
      cases r with
      | ok active => exact ⟨kept, versions⟩
      | error err => exact kept
    · exact fun _ _ _ => trivial
  intro v _ _
  refine ⟨trivial, fun reply u stepped _ => ?_⟩
  obtain ⟨tid, a, spawned, performed⟩ := stepped
  obtain ⟨rfl, _, answered⟩ := World.read_some performed
  cases reply with
  | error err => exact rounds ⟨fun _ => 0, false⟩ _ fun complete => nomatch complete
  | ok count =>
    rcases answered with counted | failed
    · cases counted
      exact rounds ⟨_, true⟩ _ fun _ => le_refl _
    · cases failed

/-- Catchup is complete and duplicate-free: at every moment of any number of passes the runs of
the DAG are for an initial segment of its periods, in order, and no more of them are active
than the DAG allows. -/
theorem catchup_initial_segment (env : Env) (catchup_ : d.catchup = true) (whole : ∀ p ∈ points, Calendar.second ∣ p)
    (start : Calendar.second ∣ d.startDate) (least : NextOf points next) {w v : World}
    (cached : w.cached d.dagID = some ⟨d, some next⟩) (unused : w.runsOf d.dagID = []) (times : List Time) {q : Act Unit}
    (ran : Prog.Exec (catchup d next points) (Prog.forEach times (createDueRuns env)) w q v) :
    InitialSegment {p | p ∈ points ∧ d.startDate ≤ p} ((v.runsOf d.dagID).map (·.logicalDate)) ∧
      (∀ r ∈ v.runsOf d.dagID, r.triggerType = .schedule) ∧
      (0 < v.db.countActiveRuns d.dagID → v.db.countActiveRuns d.dagID ≤ d.maxActiveRuns) := by
  have idle : w.db.countActiveRuns d.dagID = 0 := by
    have none : ∀ r ∈ w.db.runs.rows, ¬ (r.dagID == d.dagID) = true := List.filter_eq_nil_iff.mp unused
    rw [DB.countActiveRuns, List.countP_eq_zero.mpr]
    · rfl
    · intro r stored
      simp [none r stored]
  have begins : CaughtUp d next points w := by
    refine ⟨⟨d.paused, cached⟩, by simp [unused], ?_, by simp [idle]⟩
    rw [World.dates, unused]
    exact .empty _
  have safe : (Prog.forEach times (createDueRuns env)).Safe (catchup d next points) (fun _ _ => True) w := by
    apply Prog.Safe.forEach fun _ _ => True
    · trivial
    · intro now rest t _
      refine (createDueRuns_safe env now catchup_ t).mono ?_
      intro r u ended
      cases r with
      | ok _ => trivial
      | error _ => trivial
    · exact fun _ _ => trivial
  obtain ⟨caught, _⟩ := safe.exec begins (Completions.refl _) (fun _ _ _ => Completions.trans) CaughtUp.others
    (CaughtUp.step whole start least) ran
  exact ⟨caught.segment, caught.scheduled, caught.bounded⟩

end Verification

def backlog : DAG := { report with catchup := true }

def backlogWorld : World where
  db := { DB.empty with dags := [{ dagID := "report" }] }
  cache := ⟨[⟨backlog, some hourly⟩], List.pairwise_singleton _ _⟩

/-- The first pass at hour 3 creates the run of hour 0. -/
theorem first_period_caught_up :
    (((createDueRuns hourlyEnv (3 * hour)).run (World.respond {}) backlogWorld).2.runsOf "report").map (·.logicalDate) = [0] ∧
    InitialSegment {p | p ∈ {p | hour ∣ p} ∧ 0 ≤ p}
      ((((createDueRuns hourlyEnv (3 * hour)).run (World.respond {}) backlogWorld).2.runsOf "report").map (·.logicalDate)) := by
  have served {o : Op} {w v : World} {reply : o.Reply} (performed : World.perform 0 o {} w = some (reply, v, [])) :
      (catchup backlog hourly {p | hour ∣ p}).step o w reply v := ⟨0, {}, [], performed⟩
  have whole : ∀ p ∈ {p | hour ∣ p}, Calendar.second ∣ p := fun _ point =>
    Int.dvd_trans (Int.dvd_mul_left 3600 Calendar.second) point
  have ran : Prog.Exec (catchup backlog hourly {p | hour ∣ p}) (Prog.forEach [3 * hour] (createDueRuns hourlyEnv))
      backlogWorld (.done ()) ((createDueRuns hourlyEnv (3 * hour)).run (World.respond {}) backlogWorld).2 := by
    have start := Prog.Exec.refl (c := catchup backlog hourly {p | hour ∣ p})
      (Prog.forEach [3 * hour] (createDueRuns hourlyEnv)) backlogWorld
    have counted := Prog.Exec.issue (o := Op.countActiveRunsByDag) start (served rfl)
    have listed := Prog.Exec.issue (o := Op.allDAGs) counted (served rfl)
    have cached := Prog.Exec.issue (o := Op.cachedDAG "report") listed (served rfl)
    have anchored := Prog.Exec.issue (o := Op.latestScheduledRun "report") cached (served rfl)
    exact Prog.Exec.issue (o := Op.createDagRunBounded (scheduledRun hourlyEnv backlog 0 backlog) 10000) anchored (served rfl)
  refine ⟨by decide +kernel, ?_⟩
  exact (catchup_initial_segment hourlyEnv rfl whole ⟨0, rfl⟩ nextOf_hourly rfl rfl [3 * hour] ran).1

end Cronova.Scheduler
