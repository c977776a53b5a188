import Cronova.Scheduler.Schedule
import Mathlib.Data.Set.Card
import Mathlib.Data.Int.Interval

/-! The window of a backfill: the points that `Backfill` steps through, the runs that it
creates, and when these are the points of the window. -/

set_option autoImplicit false

namespace Cronova.Scheduler

open Model Store Process
open Calendar (Time)

/-! ### The counts -/

section Counts

variable (env : Env)

/-- One round of `Backfill`, with the counts of created and skipped periods. -/
def backfillRound (d : DAG) (counts : Nat × Nat) (t : Time) : Act (Nat × Nat) := do
  match ← (createDagRunBounded (backfillRun env d t) env.maxQueuedRunsGlobal).attempt with
  | .ok _ => pure (counts.1 + 1, counts.2)
  | .error (.store .alreadyExists) => pure (counts.1, counts.2 + 1)
  | .error e => .fail e

/-- `Backfill` with what it returns. -/
def backfillCounted (dag : DagID) (from_ until_ : Time) : Act (Nat × Nat) := do
  match ← cachedDAG dag with
  | none => .fail (.store .notFound)
  | some cached =>
    if cached.dag.tasks.isEmpty then .fail .noTasks else
    if cached.dag.schedule = "" then .fail .noSchedule else
    match env.parseSchedule cached.dag.schedule cached.dag.timezone with
    | none => .fail .badSchedule
    | some next =>
      let now ← timeNow
      let until_ := min until_ now
      if from_ < until_ then
        match backfillPeriods next until_ maxBackfillRuns (next (from_ - Calendar.second)) with
        | none => .fail .tooManyPeriods
        | some periods => Prog.fold (backfillRound env cached.dag) periods (0, 0)
      else .fail .emptyWindow

/-- The loop of the request does not read its counts. -/
theorem backfill_rounds (d : DAG) (periods : List Time) (counts : Nat × Nat) :
    (Prog.fold (backfillRound env d) periods counts).bind (fun _ => .done ()) =
      (Prog.forEach periods fun t => do
        match ← (createDagRunBounded (backfillRun env d t) env.maxQueuedRunsGlobal).attempt with
        | .ok _ => pure ()
        | .error (.store .alreadyExists) => pure ()
        | .error e => .fail e) := by
  induction periods generalizing counts with
  | nil => rfl
  | cons t rest ih =>
    rw [Prog.forEach, Prog.fold, Prog.fold, Prog.bind_assoc, backfillRound, Prog.bind_eq, Prog.bind_eq, Prog.bind_assoc,
      Prog.bind_assoc]
    congr 1
    funext reply
    cases reply with
    | ok _ => exact ih _
    | error e =>
      cases e with
      | store e =>
        cases e with
        | alreadyExists => exact ih _
        | _ => rfl
      | _ => rfl

/-- The request that a goroutine serves is this program, without the counts. -/
theorem backfill_counted (dag : DagID) (from_ until_ : Time) :
    backfill env dag from_ until_ = (backfillCounted env dag from_ until_).bind fun _ => .done () := by
  unfold backfill backfillCounted
  rw [Prog.bind_eq, Prog.bind_eq, Prog.bind_assoc]
  congr 1
  funext entry
  cases entry with
  | none => rfl
  | some cached =>
    dsimp only
    split
    · rfl
    · split
      · rfl
      · cases env.parseSchedule cached.dag.schedule cached.dag.timezone with
        | none => rfl
        | some next =>
          dsimp only
          rw [Prog.bind_eq, Prog.bind_eq, Prog.bind_assoc]
          congr 1
          funext now
          split
          · cases backfillPeriods next (min until_ now) maxBackfillRuns (next (from_ - Calendar.second)) with
            | none => rfl
            | some periods => exact (backfill_rounds env cached.dag periods (0, 0)).symm
          · rfl

end Counts

/-! ### Stepping through a schedule -/

section Stepping

/-- What the cron library documents of `Next`: the first point after the instant, or the zero
time when no point can be found. -/
structure Schedules (next : Time → Time) (points : Set Time) : Prop where
  least : ∀ t, next t ≠ zeroTime → IsLeast {p | p ∈ points ∧ t < p} (next t)
  whole : ∀ p ∈ points, Calendar.second ∣ p

/-- The points of the window. -/
def window (points : Set Time) (from_ until_ : Time) : Set Time := {p | p ∈ points ∧ from_ ≤ p ∧ p ≤ until_}

/-- The points that stepping from `start` comes to: no step before them returns the zero time. -/
def visits (next : Time → Time) (points : Set Time) (start until_ : Time) : Set Time :=
  {p | p ∈ points ∧ start < p ∧ p ≤ until_ ∧ ∀ q, (q = start ∨ q ∈ points ∧ start < q) → q < p → next q ≠ zeroTime}

variable {next : Time → Time} {points : Set Time} {start until_ from_ : Time}

theorem window_finite : (window points from_ until_).Finite :=
  (Set.finite_Icc from_ until_).subset fun _ member => member.2

theorem visits_finite : (visits next points start until_).Finite :=
  (Set.finite_Ioc start until_).subset fun _ member => ⟨member.2.1, member.2.2.1⟩

/-- The enumeration ends where stepping does. -/
theorem visits_stop (schedules : Schedules next points) (stop : next start = zeroTime ∨ until_ < next start) :
    visits next points start until_ = ∅ := by
  apply Set.eq_empty_of_forall_notMem
  rintro p ⟨point, after, within, onward⟩
  rcases stop with zero | beyond
  · exact onward start (.inl rfl) after zero
  · have first : next start ≤ p := (schedules.least start (onward start (.inl rfl) after)).2 ⟨point, after⟩
    exact absurd (first.trans within) (not_le.mpr beyond)

/-- A step takes the first point; the others are visited from there. -/
theorem visits_step (schedules : Schedules next points) (found : next start ≠ zeroTime) (within : next start ≤ until_) :
    visits next points start until_ = insert (next start) (visits next points (next start) until_) := by
  obtain ⟨⟨point, after⟩, least⟩ := schedules.least start found
  have first {q : Time} (member : q ∈ points) (later : start < q) : next start ≤ q := least ⟨member, later⟩
  ext p
  constructor
  · rintro ⟨member, later, bounded, onward⟩
    rcases (first member later).eq_or_lt with same | beyond
    · exact .inl same.symm
    · refine .inr ⟨member, beyond, bounded, fun q from_ => onward q (.inr ?_)⟩
      rcases from_ with rfl | ⟨between, past⟩
      · exact ⟨point, after⟩
      · exact ⟨between, after.trans past⟩
  · rintro (rfl | ⟨member, beyond, bounded, onward⟩)
    · refine ⟨point, after, within, fun q from_ before => ?_⟩
      rcases from_ with rfl | ⟨between, past⟩
      · exact found
      · exact absurd (first between past) (not_le.mpr before)
    · refine ⟨member, after.trans beyond, bounded, fun q from_ before => ?_⟩
      rcases from_ with rfl | ⟨between, past⟩
      · exact found
      · rcases (first between past).eq_or_lt with rfl | later
        · exact onward _ (.inl rfl) before
        · exact onward q (.inr ⟨between, later⟩) before

theorem visits_apart : start ∉ visits next points start until_ := fun visited => lt_irrefl _ visited.2.1

theorem backfillPeriods_succ (fuel : Nat) (t : Time) : backfillPeriods next until_ (fuel + 1) t =
    if t = zeroTime ∨ until_ < t then some [] else (backfillPeriods next until_ fuel (next t)).map (t :: ·) := rfl

/-- The periods of a window are listed in their order; a window with too many is refused. -/
theorem backfillPeriods_visits (schedules : Schedules next points) (until_ : Time) (fuel : Nat) (start : Time) :
    match backfillPeriods next until_ fuel (next start) with
    | some periods => periods.Nodup ∧ (∀ t, t ∈ periods ↔ t ∈ visits next points start until_) ∧ periods.length ≤ fuel
    | none => fuel < (visits next points start until_).ncard := by
  induction fuel generalizing start with
  | zero =>
    unfold backfillPeriods
    split_ifs with stop
    · simp [visits_stop schedules stop]
    · obtain ⟨found, within⟩ := not_or.mp stop
      dsimp only
      rw [visits_step schedules found (not_lt.mp within), Set.ncard_insert_of_notMem visits_apart visits_finite]
      omega
  | succ fuel ih =>
    rw [backfillPeriods_succ]
    split_ifs with stop
    · simp [visits_stop schedules stop]
    · obtain ⟨found, within⟩ := not_or.mp stop
      have onward := ih (next start)
      rw [visits_step schedules found (not_lt.mp within)]
      cases listed : backfillPeriods next until_ fuel (next (next start)) with
      | none =>
        rw [listed] at onward
        dsimp only [Option.map_none]
        rw [Set.ncard_insert_of_notMem visits_apart visits_finite]
        omega
      | some periods =>
        rw [listed] at onward
        obtain ⟨nodup, members, bounded⟩ := onward
        simp only [Option.map_some, List.length_cons, List.mem_cons, Set.mem_insert_iff]
        refine ⟨List.nodup_cons.mpr ⟨fun again => ?_, nodup⟩, fun t => or_congr Iff.rfl (members t), by omega⟩
        exact visits_apart ((members _).mp again)

end Stepping

/-! ### Filling periods -/

section Filling

variable {env : Env} {db db' : DB} {d : DAG} {dag : DagID} {t : Time} {w after : World}

/-- The run has the id or the date of the period. -/
def occupies (dag : DagID) (t : Time) (r : DagRun) : Bool :=
  r.runID == .backfill dag (t / Calendar.second) || (r.dagID == dag && r.logicalDate == t)

/-- The period has no run of any kind. -/
def vacant (db : DB) (dag : DagID) (t : Time) : Bool := !db.runs.rows.any (occupies dag t)

theorem vacant_iff : vacant db dag t = true ↔
    ∀ r ∈ db.runs, r.runID ≠ .backfill dag (t / Calendar.second) ∧ ¬ (r.dagID = dag ∧ r.logicalDate = t) := by
  simp [vacant, occupies, Table.mem_def]

/-- Where the ids of backfill runs tell their periods, a period is vacant if no run has its date. -/
theorem vacant_iff_date (whole : Calendar.second ∣ t)
    (named : ∀ r ∈ db.runs, ∀ dag unix, r.runID = .backfill dag unix → r.dagID = dag ∧ r.logicalDate = unix * Calendar.second) :
    vacant db dag t = true ↔ ∀ r ∈ db.runs, ¬ (r.dagID = dag ∧ r.logicalDate = t) := by
  rw [vacant_iff]
  refine forall₂_congr fun r member => and_iff_right_of_imp fun free same => free ?_
  have told := named r member dag _ same
  rwa [Int.ediv_mul_cancel whole] at told

/-- The runs of the periods are added, and nothing else changes. -/
structure Filled (env : Env) (d : DAG) (periods : List Time) (w after : World) : Prop where
  rows : after.db.runs.rows = w.db.runs.rows ++ periods.map (backfillRun env d)
  others : after = { w with db := { w.db with runs := after.db.runs } }

/-- The run of a vacant period clashes with no run. -/
theorem insertRun_vacant (env : Env) (free : vacant db d.dagID t = true) :
    ∃ db', db.insertRun (backfillRun env d t) = .ok db' := by
  obtain ⟨runs, inserted⟩ := Table.insert?_isSome (t := db.runs) (r := backfillRun env d t) (vacant_iff.mp free)
  exact ⟨{ db with runs }, by rw [DB.insertRun, inserted]⟩

theorem insertRun_taken (taken : vacant db d.dagID t = false) : db.insertRun (backfillRun env d t) = .error .alreadyExists := by
  cases inserted : db.insertRun (backfillRun env d t) with
  | error e =>
    unfold DB.insertRun at inserted
    split at inserted
    · cases inserted
    · exact inserted.symm
  | ok db' =>
    have free : vacant db d.dagID t = true := by
      rw [vacant_iff]
      exact (DB.insertRun_ok inserted).1
    rw [free] at taken
    cases taken

theorem insertRun_others {r : DagRun} (inserted : db.insertRun r = .ok db') : db' = { db with runs := db'.runs } := by
  unfold DB.insertRun at inserted
  split at inserted
  · cases inserted
    rfl
  · cases inserted

theorem runs_ext {db db' : DB} (rows : db.runs.rows = db'.runs.rows) : db.runs = db'.runs := by
  cases left : db.runs
  cases right : db'.runs
  simp_all

namespace Filled

variable {periods more : List Time} {v : World}

theorem refl (w : World) : Filled env d [] w w := ⟨by simp, rfl⟩

theorem trans (first : Filled env d periods w v) (second : Filled env d more v after) : Filled env d (periods ++ more) w after := by
  refine ⟨?_, ?_⟩
  · rw [second.rows, first.rows, List.map_append, List.append_assoc]
  · rw [second.others, first.others]

/-- Where no period is filled nothing changes. -/
theorem eq_of_nil (filled : Filled env d [] w after) : after = w := by
  have runs : after.db.runs = w.db.runs := runs_ext (by rw [filled.rows, List.map_nil, List.append_nil])
  rw [filled.others, runs]

/-- The rows tell which periods have been filled. -/
theorem unique {periods more : List Time} (first : Filled env d periods w after) (second : Filled env d more w after) :
    periods = more := by
  have rows := List.append_cancel_left (first.rows.symm.trans second.rows)
  refine List.map_injective_iff.mpr (fun t u same => ?_) rows
  exact congrArg DagRun.logicalDate same

theorem one (inserted : w.db.insertRun (backfillRun env d t) = .ok db') : Filled env d [t] w { w with db := db' } := by
  refine ⟨(DB.insertRun_ok inserted).2.1, ?_⟩
  rw [← insertRun_others inserted]

variable (filled : Filled env d periods w after)

include filled

theorem active (dag : DagID) : after.db.dagActive dag = w.db.dagActive dag := by rw [filled.others]; rfl

theorem queued : after.db.queuedCount = w.db.queuedCount + periods.length := by
  have fresh : (periods.map (backfillRun env d)).countP (fun r => r.state == .queued) = periods.length := by
    rw [List.countP_map, List.countP_eq_length]
    intro t _
    rfl
  simp only [DB.queuedCount, filled.rows, List.countP_append, fresh]
  push_cast
  rfl

/-- A period is vacant afterwards if it was and has not been filled. -/
theorem vacant_after (whole : ∀ u ∈ periods, Calendar.second ∣ u) (own : Calendar.second ∣ t) :
    vacant after.db d.dagID t = (vacant w.db d.dagID t && !decide (t ∈ periods)) := by
  have fresh : (periods.map (backfillRun env d)).any (occupies d.dagID t) = decide (t ∈ periods) := by
    rw [List.any_map, Bool.eq_iff_iff, List.any_eq_true, decide_eq_true_eq]
    constructor
    · rintro ⟨u, member, same⟩
      suffices equal : u = t from equal ▸ member
      simp only [Function.comp_apply, occupies, backfillRun, snapshotRun, Bool.or_eq_true, Bool.and_eq_true, beq_iff_eq,
        RunID.backfill.injEq, true_and] at same
      rcases same with id | date
      · calc u = u / Calendar.second * Calendar.second := (Int.ediv_mul_cancel (whole u member)).symm
          _ = t := by rw [id, Int.ediv_mul_cancel own]
      · exact date
    · exact fun member => ⟨t, member, by simp [occupies, backfillRun, snapshotRun]⟩
  rw [vacant, filled.rows, List.any_append, Bool.not_or, fresh, vacant]

end Filled

variable {a : Answer} (served : a.served = true)

include served

theorem backfillRound_vacant (active : w.db.dagActive d.dagID = true)
    (room : w.db.queuedCount < env.maxQueuedRunsGlobal) (free : vacant w.db d.dagID t = true) (counts : Nat × Nat) :
    ∃ after, (backfillRound env d counts t).run (World.respond a) w = (.ok (counts.1 + 1, counts.2), after) ∧
      Filled env d [t] w after := by
  obtain ⟨db', inserted⟩ := insertRun_vacant env free
  have created : w.db.createDagRunBounded (backfillRun env d t) env.maxQueuedRunsGlobal = .ok db' := by
    rw [DB.createDagRunBounded, if_pos (by simp [room]; exact active), inserted]
  refine ⟨{ w with db := db' }, ?_, .one inserted⟩
  rw [backfillRound, Prog.bind_eq, Prog.run_bind, createDagRunBounded_run served, created]
  rfl

theorem backfillRound_taken (active : w.db.dagActive d.dagID = true) (room : w.db.queuedCount < env.maxQueuedRunsGlobal)
    (taken : vacant w.db d.dagID t = false) (counts : Nat × Nat) :
    (backfillRound env d counts t).run (World.respond a) w = (.ok (counts.1, counts.2 + 1), w) := by
  have refused : w.db.createDagRunBounded (backfillRun env d t) env.maxQueuedRunsGlobal = .error .alreadyExists := by
    rw [DB.createDagRunBounded, if_pos (by simp [room]; exact active), insertRun_taken taken]
  rw [backfillRound, Prog.bind_eq, Prog.run_bind, createDagRunBounded_run served, refused]
  rfl

/-- The loop fills the vacant periods and skips the others. -/
theorem fill_run {periods : List Time} (nodup : periods.Nodup)
    (whole : ∀ t ∈ periods, Calendar.second ∣ t) (active : w.db.dagActive d.dagID = true)
    (room : w.db.queuedCount + (periods.filter (vacant w.db d.dagID)).length < env.maxQueuedRunsGlobal) (counts : Nat × Nat) :
    ∃ after, (Prog.fold (backfillRound env d) periods counts).run (World.respond a) w =
        (.ok (counts.1 + (periods.filter (vacant w.db d.dagID)).length,
          counts.2 + (periods.filter (!vacant w.db d.dagID ·)).length), after) ∧
      Filled env d (periods.filter (vacant w.db d.dagID)) w after := by
  induction periods generalizing w counts with
  | nil => exact ⟨w, rfl, .refl w⟩
  | cons t rest ih =>
    obtain ⟨fresh, distinct⟩ := List.nodup_cons.mp nodup
    have here := whole t List.mem_cons_self
    have later (u : Time) (member : u ∈ rest) := whole u (List.mem_cons_of_mem _ member)
    cases free : vacant w.db d.dagID t with
    | true =>
      rw [List.filter_cons_of_pos free, List.length_cons] at room
      have space : w.db.queuedCount < env.maxQueuedRunsGlobal := by omega
      obtain ⟨v, ran, filled⟩ := backfillRound_vacant served active space free counts
      have same (p : Bool → Bool) :
          rest.filter (fun u => p (vacant v.db d.dagID u)) = rest.filter fun u => p (vacant w.db d.dagID u) := by
        apply List.filter_congr
        intro u member
        have apart : u ≠ t := fun equal => fresh (equal ▸ member)
        rw [filled.vacant_after (by simpa using here) (later u member)]
        simp [apart]
      have free' : rest.filter (vacant v.db d.dagID) = rest.filter (vacant w.db d.dagID) := same id
      have taken' := same not
      have count : v.db.queuedCount = w.db.queuedCount + 1 := filled.queued
      obtain ⟨after, onward, more⟩ := ih distinct later
        ((filled.active _).trans active) (by rw [free']; push_cast at room; omega) (counts.1 + 1, counts.2)
      rw [free', taken'] at onward
      rw [free'] at more
      refine ⟨after, ?_, ?_⟩
      · rw [Prog.fold, Prog.run_bind, ran]
        dsimp only
        rw [onward, List.filter_cons_of_pos free, List.filter_cons_of_neg (by simp [free]), List.length_cons]
        simp only [Nat.add_assoc, Nat.add_comm 1]
      · rw [List.filter_cons_of_pos free]
        exact Filled.trans filled more
    | false =>
      rw [List.filter_cons_of_neg (by simp [free])] at room
      have space : w.db.queuedCount < env.maxQueuedRunsGlobal := by omega
      have ran := backfillRound_taken served active space free counts
      obtain ⟨after, onward, more⟩ := ih distinct later active room (counts.1, counts.2 + 1)
      refine ⟨after, ?_, ?_⟩
      · rw [Prog.fold, Prog.run_bind, ran]
        dsimp only
        rw [onward, List.filter_cons_of_neg (by simp [free]), List.filter_cons_of_pos (by simp [free]), List.length_cons]
        simp only [Nat.add_assoc, Nat.add_comm 1]
      · rw [List.filter_cons_of_neg (by simp [free])]
        exact more

end Filling

/-! ### The request -/

section Request

variable {env : Env} {w after : World} {dag : DagID} {c : CachedDAG} {next : Time → Time} {points : Set Time} {a : Answer}
  {from_ until_ : Time}

/-- A DAG with tasks and a schedule, in the cache and in the store. -/
structure Offers (env : Env) (w : World) (dag : DagID) (c : CachedDAG) (next : Time → Time) : Prop where
  cached : w.cached dag = some c
  tasks : c.dag.tasks.isEmpty = false
  scheduled : c.dag.schedule ≠ ""
  parsed : env.parseSchedule c.dag.schedule c.dag.timezone = some next
  active : w.db.dagActive dag = true

theorem Offers.own (offers : Offers env w dag c next) : c.dag.dagID = dag := by
  have found := List.find?_some offers.cached
  simpa [CachedDAG.id] using found

theorem Offers.filled {d : DAG} {periods : List Time} (offers : Offers env w dag c next) (filled : Filled env d periods w after) :
    Offers env after dag c next := by
  refine ⟨?_, offers.tasks, offers.scheduled, offers.parsed, (filled.active dag).trans offers.active⟩
  rw [filled.others]
  exact offers.cached

theorem backfillCounted_run (offers : Offers env w dag c next) (a : Answer) (from_ until_ : Time) :
    (backfillCounted env dag from_ until_).run (World.respond a) w =
      if from_ < min until_ a.now then
        match backfillPeriods next (min until_ a.now) maxBackfillRuns (next (from_ - Calendar.second)) with
        | none => (.error .tooManyPeriods, w)
        | some periods => (Prog.fold (backfillRound env c.dag) periods (0, 0)).run (World.respond a) w
      else (.error .emptyWindow, w) := by
  have cached : (cachedDAG dag).run (World.respond a) w = (.ok (some c), w) := by rw [← offers.cached]; rfl
  have clock : timeNow.run (World.respond a) w = (.ok a.now, w) := rfl
  rw [backfillCounted, Prog.bind_eq, Prog.run_bind, cached]
  simp only [offers.tasks, offers.scheduled, offers.parsed, Bool.false_eq_true, if_false, Prog.bind_eq, Prog.run_bind, clock]
  split
  · cases backfillPeriods next (min until_ a.now) maxBackfillRuns (next (from_ - Calendar.second)) with
    | none => rfl
    | some periods => rfl
  · rfl

/-- The runs of the window: one for each vacant period, counted with the others, and none the
next time. -/
structure Fulfilled (env : Env) (c : CachedDAG) (points : Set Time) (from_ until_ now : Time) (w after : World) (counts : Nat × Nat) :
    Prop where
  filled : ∃ periods : List Time, periods.Nodup ∧ counts.1 = periods.length ∧
    (∀ t, t ∈ periods ↔ t ∈ window points from_ (min until_ now) ∧ vacant w.db c.dag.dagID t = true) ∧
    Filled env c.dag periods w after
  counted : counts.1 + counts.2 = (window points from_ (min until_ now)).ncard
  again : ∀ b : Answer, b.served = true → min until_ b.now = min until_ now →
    ∃ skipped, (backfillCounted env c.dag.dagID from_ until_).run (World.respond b) after = (.ok (0, skipped), after)

/-- The request covers its window, or is refused for it and changes nothing. -/
def CoversWindow (env : Env) (c : CachedDAG) (points : Set Time) (from_ until_ : Time) (a : Answer) (w : World) : Prop :=
  match (backfillCounted env c.dag.dagID from_ until_).run (World.respond a) w with
  | (.ok counts, after) => Fulfilled env c points from_ until_ a.now w after counts
  | (.error _, after) =>
    after = w ∧ (min until_ a.now ≤ from_ ∨ maxBackfillRuns < (window points from_ (min until_ a.now)).ncard)

/-- The points that the request steps through. -/
def visited (next : Time → Time) (points : Set Time) (from_ until_ : Time) : Set Time :=
  visits next points (from_ - Calendar.second) until_

/-- The window is empty; or it has too many points, and so have the steps; or the steps lead to as
many points as the window has, and to the same ones among the vacant. -/
def Coverable (next : Time → Time) (points : Set Time) (from_ until_ : Time) (db : DB) (dag : DagID) : Prop :=
  until_ ≤ from_ ∨
    (maxBackfillRuns < (visited next points from_ until_).ncard ∧ maxBackfillRuns < (window points from_ until_).ncard) ∨
    ((visited next points from_ until_).ncard ≤ maxBackfillRuns ∧
      (visited next points from_ until_).ncard = (window points from_ until_).ncard ∧
      ∀ t, vacant db dag t = true → (t ∈ visited next points from_ until_ ↔ t ∈ window points from_ until_))

/-- The steps lead to the window where no point lies in the second before it and no step gives up
with a point of the window ahead. -/
theorem visited_eq_window (aligned : ∀ p ∈ points, from_ - Calendar.second < p → from_ ≤ p)
    (onward : ∀ q p, q = from_ - Calendar.second ∨ from_ ≤ q → p ∈ window points from_ until_ → q < p → next q ≠ zeroTime) :
    visited next points from_ until_ = window points from_ until_ := by
  ext p
  constructor
  · rintro ⟨point, later, within, _⟩
    exact ⟨point, aligned p point later, within⟩
  · rintro ⟨point, inside, within⟩
    have later : from_ - Calendar.second < p := lt_of_lt_of_le (sub_lt_self from_ (by decide)) inside
    refine ⟨point, later, within, fun q start before => onward q p ?_ ⟨point, inside, within⟩ before⟩
    exact start.imp_right fun between => aligned q between.1 between.2

/-- A window that starts at a whole second has no point in the second before it. -/
theorem aligned_whole (schedules : Schedules next points) (whole : Calendar.second ∣ from_) :
    ∀ p ∈ points, from_ - Calendar.second < p → from_ ≤ p := by
  intro p point later
  obtain ⟨k, rfl⟩ := schedules.whole p point
  obtain ⟨m, rfl⟩ := whole
  have positive : 0 ≤ Calendar.second := by decide
  have step : m - 1 < k := Int.lt_of_mul_lt_mul_left (by rw [Int.mul_sub, Int.mul_one]; exact later) positive
  exact Int.mul_le_mul_of_nonneg_left (Int.sub_one_lt_iff.mp step) positive

theorem ncard_listed {periods : List Time} {points : Set Time} (nodup : periods.Nodup) (members : ∀ t, t ∈ periods ↔ t ∈ points) :
    points.ncard = periods.length := by
  have same : points = ↑periods.toFinset := by
    ext t
    simp [members]
  rw [same, Set.ncard_coe_finset, List.toFinset_card_of_nodup nodup]

/-- A request whose periods are listed creates a run for each that is vacant. -/
theorem fills (from_ until_ : Time) (schedules : Schedules next points) (offers : Offers env w dag c next)
    (served : a.served = true) (early : from_ < min until_ a.now) {periods : List Time}
    (listed : backfillPeriods next (min until_ a.now) maxBackfillRuns (next (from_ - Calendar.second)) = some periods)
    (room : w.db.queuedCount + (periods.filter (vacant w.db c.dag.dagID)).length < env.maxQueuedRunsGlobal) :
    ∃ after, (backfillCounted env dag from_ until_).run (World.respond a) w =
        (.ok ((periods.filter (vacant w.db c.dag.dagID)).length, (periods.filter (!vacant w.db c.dag.dagID ·)).length), after) ∧
      Filled env c.dag (periods.filter (vacant w.db c.dag.dagID)) w after := by
  have steps := backfillPeriods_visits schedules (min until_ a.now) maxBackfillRuns (from_ - Calendar.second)
  rw [listed] at steps
  obtain ⟨nodup, members, _⟩ := steps
  have whole (t : Time) (member : t ∈ periods) : Calendar.second ∣ t := schedules.whole t ((members t).mp member).1
  have active : w.db.dagActive c.dag.dagID = true := by rw [offers.own, offers.active]
  obtain ⟨after, ran, filled⟩ := fill_run served nodup whole active room (0, 0)
  refine ⟨after, ?_, filled⟩
  rw [backfillCounted_run offers, if_pos early, listed]
  dsimp only
  rw [ran, Nat.zero_add, Nat.zero_add]

/-- A backfill covers its window exactly if its steps are the points of the window: a point in the
second before the window is one too many. -/
theorem backfill_covers (schedules : Schedules next points) (offers : Offers env w dag c next)
    (served : a.served = true)
    (room : w.db.queuedCount + {t | t ∈ visited next points from_ (min until_ a.now) ∧ vacant w.db dag t = true}.ncard <
      env.maxQueuedRunsGlobal) :
    CoversWindow env c points from_ until_ a w ↔ Coverable next points from_ (min until_ a.now) w.db dag := by
  obtain rfl := offers.own
  have ran := backfillCounted_run offers a from_ until_
  have steps := backfillPeriods_visits schedules (min until_ a.now) maxBackfillRuns (from_ - Calendar.second)
  unfold CoversWindow Coverable
  by_cases early : from_ < min until_ a.now
  · rw [if_pos early] at ran
    have late : ¬ min until_ a.now ≤ from_ := not_le.mpr early
    cases listed : backfillPeriods next (min until_ a.now) maxBackfillRuns (next (from_ - Calendar.second)) with
    | none =>
      rw [listed] at ran steps
      rw [ran]
      have many : maxBackfillRuns < (visited next points from_ (min until_ a.now)).ncard := steps
      simp [late, many]
    | some periods =>
      rw [listed] at steps
      obtain ⟨nodup, members, bounded⟩ := steps
      have whole (t : Time) (member : t ∈ periods) : Calendar.second ∣ t := schedules.whole t ((members t).mp member).1
      have length : (visited next points from_ (min until_ a.now)).ncard = periods.length := ncard_listed nodup members
      have free : {t | t ∈ visited next points from_ (min until_ a.now) ∧ vacant w.db c.dag.dagID t = true}.ncard =
          (periods.filter (vacant w.db c.dag.dagID)).length :=
        ncard_listed (nodup.filter _) fun t => by rw [List.mem_filter, members]; rfl
      rw [free] at room
      obtain ⟨after, filling, filled⟩ := fills from_ until_ schedules offers served early listed room
      rw [filling]
      simp only [late, false_or, length, not_lt.mpr bounded, false_and, bounded, true_and]
      have total : (periods.filter (vacant w.db c.dag.dagID)).length + (periods.filter (!vacant w.db c.dag.dagID ·)).length =
          periods.length := (List.length_eq_length_filter_add _).symm
      constructor
      · rintro ⟨⟨filled', _, _, members', same⟩, counted, _⟩
        refine ⟨total.symm.trans counted, fun t vacant => ?_⟩
        have equal : periods.filter (Scheduler.vacant w.db c.dag.dagID) = filled' := filled.unique same
        rw [visited, ← members t, ← and_iff_left (a := t ∈ window _ _ _) vacant, ← members', ← equal, List.mem_filter]
        exact (and_iff_left vacant).symm
      · rintro ⟨count, agrees⟩
        refine ⟨⟨_, nodup.filter _, rfl, fun t => ?_, filled⟩, total.trans count, fun b served' same => ?_⟩
        · rw [List.mem_filter, members]
          exact and_congr_left (agrees t)
        · have full : periods.filter (vacant after.db c.dag.dagID) = [] := by
            rw [List.filter_eq_nil_iff]
            intro t member
            have filledWhole (u : Time) (kept : u ∈ periods.filter (vacant w.db c.dag.dagID)) : Calendar.second ∣ u :=
              whole u (List.mem_of_mem_filter kept)
            simp [filled.vacant_after filledWhole (whole t member), List.mem_filter, member]
          have queued := filled.queued
          obtain ⟨later, again, nothing⟩ := fills from_ until_ schedules
            (offers.filled filled) served' (by rw [same]; exact early) (by rw [same]; exact listed)
            (by rw [full, List.length_nil, queued]; omega)
          rw [full] at again nothing
          rw [again, nothing.eq_of_nil]
          exact ⟨_, rfl⟩
  · rw [if_neg early] at ran
    rw [ran]
    simp [not_lt.mp early]

/-- An hour and a half past the epoch. -/
def afternoon : Answer := { now := hour + 1800 * Calendar.second }

theorem hourly_schedules : Schedules hourly {p | hour ∣ p} where
  least t _ := nextOf_hourly t
  whole _ point := Int.dvd_trans (Int.dvd_mul_left 3600 Calendar.second) point

theorem report_offered : Offers hourlyEnv (hourlyWorld .empty) "report" ⟨report, some hourly⟩ hourly where
  cached := rfl
  tasks := rfl
  scheduled := by decide
  parsed := rfl
  active := by decide

/-- The only point before half past one is one o'clock. -/
theorem afternoon_window {from_ : Time} (after : 0 < from_) : window {p | hour ∣ p} from_ (min (2 * hour) afternoon.now) ⊆ {hour} := by
  rintro p ⟨⟨k, rfl⟩, later, within⟩
  have bounded : (3600000000000 : Int) * k ≤ 5400000000000 := within.trans (by decide)
  have positive : (0 : Int) < 3600000000000 * k := lt_of_lt_of_le after later
  obtain rfl : k = 1 := by omega
  exact Int.mul_one hour

/-- A whole number of hours is a window of its own. -/
theorem whole_hour_covered : CoversWindow hourlyEnv ⟨report, some hourly⟩ {p | hour ∣ p} hour (2 * hour) afternoon (hourlyWorld .empty) := by
  have same : visited hourly {p | hour ∣ p} hour (min (2 * hour) afternoon.now) =
      window {p | hour ∣ p} hour (min (2 * hour) afternoon.now) := by
    refine visited_eq_window (aligned_whole hourly_schedules ⟨3600, by decide⟩) fun q p start point before => ?_
    have later : (0 : Time) ≤ q := by
      rcases start with rfl | later
      · decide
      · exact le_trans (by decide) later
    exact (lt_of_lt_of_le (by decide : zeroTime < 0) (later.trans (lt_hourly q).le)).ne'
  have one : (visited hourly {p | hour ∣ p} hour (min (2 * hour) afternoon.now)).ncard ≤ 1 := by
    rw [same]
    exact (Set.ncard_le_ncard (afternoon_window (by decide)) (Set.finite_singleton _)).trans (Set.ncard_singleton _).le
  have few : {t | t ∈ visited hourly {p | hour ∣ p} hour (min (2 * hour) afternoon.now) ∧
      vacant (hourlyWorld .empty).db "report" t = true}.ncard ≤ 1 :=
    (Set.ncard_le_ncard (fun _ both => both.1) visits_finite).trans one
  have room : (0 : Int) + {t | t ∈ visited hourly {p | hour ∣ p} hour (min (2 * hour) afternoon.now) ∧
      vacant (hourlyWorld .empty).db "report" t = true}.ncard < 10000 := by omega
  exact (backfill_covers hourly_schedules report_offered rfl room).mpr
    (.inr (.inr ⟨one.trans (by decide), by rw [same], fun t _ => by rw [same]⟩))

/-- A window that starts half a second after a point gets the run of that point. -/
theorem half_second_overreaches : ¬ CoversWindow hourlyEnv ⟨report, some hourly⟩ {p | hour ∣ p} (hour + 500000000) (2 * hour) afternoon
    (hourlyWorld .empty) := by
  obtain ⟨after, ran⟩ : ∃ after, (backfillCounted hourlyEnv "report" (hour + 500000000) (2 * hour)).run (World.respond afternoon)
      (hourlyWorld .empty) = (.ok (1, 0), after) := ⟨_, by rfl⟩
  have none : window {p | hour ∣ p} (hour + 500000000) (min (2 * hour) afternoon.now) = ∅ := by
    apply Set.eq_empty_of_forall_notMem
    intro p inside
    obtain rfl := afternoon_window (by decide) inside
    exact absurd inside.2.1 (by decide)
  intro covers
  unfold CoversWindow at covers
  rw [show (report.dagID) = "report" from rfl, ran] at covers
  have counted := covers.counted
  rw [none, Set.ncard_empty] at counted
  cases counted

end Request

end Cronova.Scheduler
