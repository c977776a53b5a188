import Cronova.Process.Lockstep
import Cronova.Scheduler.Mirror
import Cronova.Sweep
import Mathlib.Data.Set.Card

/-! The cascade of a cancellation: `cancelRunLocked` with `cancelAttempt` is a depth-first sweep
of the active runs, along the references of their unfinished sub-workflow tasks. -/

set_option autoImplicit false

namespace Cronova.Scheduler

open Model Store Process
open Calendar (Time)

variable {db now after : DB} {root c : RunID} {handled marked : Set RunID} {rest : List TaskInstance} {ti : TaskInstance}

/-! ### The graph -/

section Graph

def activeRuns (db : DB) : Set RunID := {r | ∃ x, db.run? r = some x ∧ x.state.isActive = true}

/-- The runs that unfinished sub-workflow tasks of the run refer to. -/
def subRuns (db : DB) (r : RunID) : Set RunID :=
  {c | ∃ task ti, db.instance? ⟨r, task⟩ = some ti ∧ ti.state.isTerminal = false ∧ ti.executorRef = .subdag c}

/-- The run, if it is active, and the active runs that it leads to along active runs. -/
def linked (db : DB) (root : RunID) : Set RunID := Sweep.reach (subRuns db) (activeRuns db) root

theorem activeRuns_listed : activeRuns db ⊆ ↑(db.runs.rows.map (·.runID)).toFinset := by
  rintro r ⟨x, found, _⟩
  obtain ⟨member, rfl⟩ := DB.run?_some found
  simpa using ⟨x, member, rfl⟩

theorem activeRuns_finite : (activeRuns db).Finite := (Finset.finite_toSet _).subset activeRuns_listed

/-- There are no more active runs than rows. -/
theorem activeRuns_ncard_le : (activeRuns db).ncard ≤ db.runs.rows.length := by
  calc (activeRuns db).ncard ≤ (↑(db.runs.rows.map (·.runID)).toFinset : Set RunID).ncard :=
        Set.ncard_le_ncard activeRuns_listed (Finset.finite_toSet _)
    _ = (db.runs.rows.map (·.runID)).toFinset.card := Set.ncard_coe_finset _
    _ ≤ (db.runs.rows.map (·.runID)).length := List.toFinset_card_le _
    _ = db.runs.rows.length := List.length_map _

/-- The runs of the set are cancelled with all their tasks, and the others are as before. -/
structure Swept (db : DB) (marked : Set RunID) (after : DB) : Prop where
  cancelled : ∀ r ∈ marked, ∃ x, after.run? r = some x ∧ x.state = .cancelled
  ended : ∀ r ∈ marked, ∀ task ti, after.instance? ⟨r, task⟩ = some ti → ti.state.isTerminal = true
  runs : ∀ r ∉ marked, after.run? r = db.run? r
  tasks : ∀ r ∉ marked, ∀ task, after.instance? ⟨r, task⟩ = db.instance? ⟨r, task⟩

theorem Swept.nothing (db : DB) : Swept db ∅ db := ⟨nofun, nofun, fun _ _ => rfl, fun _ _ _ => rfl⟩

end Graph

/-! ### The loop over the tasks of a run -/

section Loop

/-- A run in the middle of its cancellation: `rest` are the copies that are still to come, `handled` what
the others refer to, and `marked` the runs that have been cancelled since. -/
structure MidSweep (db : DB) (root : RunID) (handled : Set RunID) (rest : List TaskInstance) (marked : Set RunID) (now : DB) :
    Prop where
  underway : Sweep.Underway (subRuns db) (activeRuns db) root handled marked
  covers : ∀ c ∈ subRuns db root, c ∈ handled ∨ ∃ ti ∈ rest, ti.state.isTerminal = false ∧ ti.executorRef = .subdag c
  cancelled : ∀ r ∈ marked, ∃ x, now.run? r = some x ∧ x.state = .cancelled
  ended : ∀ r ∈ marked, r ≠ root → ∀ task ti, now.instance? ⟨r, task⟩ = some ti → ti.state.isTerminal = true
  runs : ∀ r ∉ marked, now.run? r = db.run? r
  tasks : ∀ r ∉ marked, ∀ task, now.instance? ⟨r, task⟩ = db.instance? ⟨r, task⟩
  own : ∀ task ti, now.instance? ⟨root, task⟩ = some ti → ti.state.isTerminal = true ∨ ti ∈ rest
  waiting : ∀ ti ∈ rest, now.instance? ti.key = some ti ∧ ti.runID = root
  original : ∀ ti ∈ rest, db.instance? ti.key = some ti
  keys : (rest.map (·.key)).Nodup

namespace MidSweep

/-- The run is cancelled first; its tasks are still to come. -/
theorem start {x : DagRun} {started finished : Option Time} (found : db.run? root = some x) (active : x.state.isActive = true)
    (written : db.updateDagRunState root .cancelled started finished = .ok now) :
    MidSweep db root ∅ (now.listTaskInstances root) {root} now := by
  obtain ⟨_, _, _, runs, instances, _⟩ := DB.updateDagRunState_ok written
  have same (key : InstanceKey) : now.instance? key = db.instance? key := by rw [DB.instance?, instances, ← DB.instance?]
  have listed {task : TaskID} {ti : TaskInstance} (held : now.instance? ⟨root, task⟩ = some ti) : ti ∈ now.listTaskInstances root := by
    have key := (DB.instance?_some held).2
    exact (DB.mem_listTaskInstances root ti).mpr ⟨key ▸ held, congrArg InstanceKey.run key⟩
  refine ⟨Sweep.Underway.start ⟨x, found, active⟩, ?_, ?_, fun r own apart => absurd own apart, ?_, fun r _ task => same _,
    fun task ti held => .inr (listed held), fun ti member => (DB.mem_listTaskInstances root ti).mp member, fun ti member => ?_, ?_⟩
  · rintro c ⟨task, ti, held, unfinished, ref⟩
    exact .inr ⟨ti, listed ((same _).trans held), unfinished, ref⟩
  · rintro r rfl
    exact ⟨_, (runs r).trans (if_pos rfl), rfl⟩
  · intro r other
    exact (runs r).trans (if_neg other)
  · exact (same _).symm.trans ((DB.mem_listTaskInstances root ti).mp member).1
  · exact now.taskInstances.distinct.sublist (List.filter_sublist.map _)

theorem taken (sweeping : MidSweep db root handled rest marked now) : root ∈ marked := sweeping.underway.taken

/-- What is left of the active runs. -/
theorem active_left (sweeping : MidSweep db root handled rest marked now) : activeRuns now = activeRuns db \ marked := by
  ext r
  by_cases taken : r ∈ marked
  · obtain ⟨x, found, cancelled⟩ := sweeping.cancelled r taken
    constructor
    · rintro ⟨y, found', active⟩
      cases found.symm.trans found'
      rw [cancelled] at active
      cases active
    · exact fun both => absurd taken both.2
  · simp only [activeRuns, Set.mem_sdiff, Set.mem_ofPred_eq, sweeping.runs r taken, taken, not_false_eq_true, and_true]

theorem subRuns_left (sweeping : MidSweep db root handled rest marked now) {r : RunID} (left : r ∉ marked) :
    subRuns now r = subRuns db r := by
  simp only [subRuns, sweeping.tasks r left]

/-- The runs below have fewer active runs among which to be swept. -/
theorem fewer (sweeping : MidSweep db root handled rest marked now) : (activeRuns now).ncard < (activeRuns db).ncard := by
  rw [sweeping.active_left]
  apply Set.ncard_lt_ncard _ activeRuns_finite
  exact ⟨fun _ both => both.1, fun all => (all sweeping.underway.live).2 sweeping.taken⟩

/-- A run below is swept in its turn. -/
theorem child (sweeping : MidSweep db root handled rest marked now) (refers : c ∈ subRuns db root)
    (swept : Swept now (linked now c) after) : MidSweep db root (insert c handled) rest (marked ∪ linked now c) after := by
  have apart {r : RunID} (reached : r ∈ linked now c) : r ∉ marked := by
    have active : r ∈ activeRuns now := Sweep.reach_alive reached
    rw [sweeping.active_left] at active
    exact active.2
  have kept {r : RunID} (taken : r ∈ marked) : r ∉ linked now c := fun reached => apart reached taken
  refine ⟨?_, fun b refers => (sweeping.covers b refers).imp_left .inr, ?_, ?_, ?_, ?_, ?_, ?_, sweeping.original,
    sweeping.keys⟩
  · have same : ∀ a ∈ activeRuns db \ marked, subRuns now a = subRuns db a := fun a left => sweeping.subRuns_left left.2
    have visited := sweeping.underway.visit refers same
    rwa [← sweeping.active_left] at visited
  · rintro r (taken | reached)
    · rw [swept.runs r (kept taken)]
      exact sweeping.cancelled r taken
    · exact swept.cancelled r reached
  · rintro r (taken | reached) other
    · intro task ti found
      rw [swept.tasks r (kept taken)] at found
      exact sweeping.ended r taken other task ti found
    · exact swept.ended r reached
  · intro r outside
    obtain ⟨left, unreached⟩ := not_or.mp outside
    rw [swept.runs r unreached, sweeping.runs r left]
  · intro r outside task
    obtain ⟨left, unreached⟩ := not_or.mp outside
    rw [swept.tasks r unreached, sweeping.tasks r left]
  · intro task ti found
    rw [swept.tasks root (kept sweeping.taken)] at found
    exact sweeping.own task ti found
  · intro ti member
    obtain ⟨found, own⟩ := sweeping.waiting ti member
    refine ⟨?_, own⟩
    have same := swept.tasks root (kept sweeping.taken) ti.taskID
    rw [← own] at same
    exact same.trans found

/-- A copy that is terminal is passed over. -/
theorem skip (sweeping : MidSweep db root handled (ti :: rest) marked now) (ended : ti.state.isTerminal = true) :
    MidSweep db root handled rest marked now := by
  refine ⟨sweeping.underway, fun c refers => ?_, sweeping.cancelled, sweeping.ended, sweeping.runs, sweeping.tasks, ?_,
    fun other member => sweeping.waiting other (.tail _ member), fun other member => sweeping.original other (.tail _ member),
    (List.nodup_cons.mp sweeping.keys).2⟩
  · rcases sweeping.covers c refers with done | ⟨other, member, open_, ref⟩
    · exact .inl done
    · rcases List.mem_cons.mp member with rfl | later
      · rw [ended] at open_
        cases open_
      · exact .inr ⟨other, later, open_, ref⟩
  · intro task other found
    rcases sweeping.own task other found with terminal | member
    · exact .inl terminal
    · rcases List.mem_cons.mp member with rfl | later
      · exact .inl ended
      · exact .inr later

/-- The copy that is next is written once what it refers to is handled. -/
theorem write (copy : TaskInstance) (sweeping : MidSweep db root handled (ti :: rest) marked now)
    (done : ∀ c, ti.executorRef = .subdag c → c ∈ handled) (key : copy.key = ti.key) (ends : copy.state.isTerminal = true)
    (written : now.updateTaskInstance copy = .ok after) : MidSweep db root handled rest marked after := by
  obtain ⟨_, rfl⟩ := DB.updateTaskInstance_ok written
  obtain ⟨_, own⟩ := sweeping.waiting ti (.head _)
  obtain ⟨fresh, distinct⟩ := List.nodup_cons.mp sweeping.keys
  have elsewhere (r : RunID) (task : TaskID) (apart : (⟨r, task⟩ : InstanceKey) ≠ ti.key) :
      (now.writeInstance copy fun _ => true).instance? ⟨r, task⟩ = now.instance? ⟨r, task⟩ := by
    rw [DB.instance?_writeInstance, key, if_neg apart]
  have other {r : RunID} (apart : r ≠ root) (task : TaskID) : (⟨r, task⟩ : InstanceKey) ≠ ti.key := by
    intro same
    exact apart ((congrArg InstanceKey.run same).trans own)
  refine ⟨sweeping.underway, fun c refers => ?_, sweeping.cancelled, fun r taken apart task => ?_, sweeping.runs, fun r left task => ?_,
    fun task row found => ?_, fun row member => ?_, fun row member => sweeping.original row (.tail _ member), distinct⟩
  · rcases sweeping.covers c refers with known | ⟨copy, member, open_, ref⟩
    · exact .inl known
    · rcases List.mem_cons.mp member with rfl | later
      · exact .inl (done c ref)
      · exact .inr ⟨copy, later, open_, ref⟩
  · rw [elsewhere r task (other apart task)]
    exact sweeping.ended r taken apart task
  · have apart : r ≠ root := fun same => left (same ▸ sweeping.taken)
    rw [elsewhere r task (other apart task)]
    exact sweeping.tasks r left task
  · by_cases same : (⟨root, task⟩ : InstanceKey) = ti.key
    · rw [DB.instance?_writeInstance, key, if_pos same] at found
      obtain ⟨old, _, rfl⟩ := Option.map_eq_some_iff.mp found
      exact .inl ends
    · rw [elsewhere root task same] at found
      rcases sweeping.own task row found with terminal | member
      · exact .inl terminal
      · rcases List.mem_cons.mp member with rfl | later
        · exact absurd (DB.instance?_some found).2.symm same
        · exact .inr later
  · obtain ⟨found, owned⟩ := sweeping.waiting row (.tail _ member)
    refine ⟨?_, owned⟩
    have apart : row.key ≠ ti.key := fun same => fresh (List.mem_map.mpr ⟨row, member, same⟩)
    rw [DB.instance?_writeInstance, key, if_neg apart]
    exact found

/-- Behind the last copy the run is swept. -/
theorem finish (sweeping : MidSweep db root handled [] marked now) : Swept db (linked db root) now := by
  have all : subRuns db root ⊆ handled := by
    intro c refers
    rcases sweeping.covers c refers with known | ⟨_, none, _⟩
    · exact known
    · cases none
  obtain rfl : marked = linked db root := sweeping.underway.finish all
  refine ⟨sweeping.cancelled, fun r taken task ti found => ?_, sweeping.runs, sweeping.tasks⟩
  by_cases own : r = root
  · subst own
    rcases sweeping.own task ti found with terminal | none
    · exact terminal
    · cases none
  · exact sweeping.ended r taken own task ti found

/-- The copies name the same rows in a world that holds the same database. -/
theorem holds {w v : World} (sweeping : MidSweep db root handled rest marked w.db) (world : Holds w.db w v) :
    MidSweep db root handled rest marked v.db :=
  world.db ▸ sweeping

end MidSweep

end Loop

/-! ### The cascade -/

section Cascade

variable {s : World × List Answer}

/-- What the cancellation of a run leaves: it succeeds if the run is active, and the runs that it is linked
to are swept. -/
def Cascaded (db : DB) (root : RunID) (result : Except Failure Unit) (after : DB) : Prop :=
  (result = .ok () ↔ root ∈ activeRuns db) ∧ result ≠ .error .exhausted ∧ Swept db (linked db root) after

/-- A round that never fails goes on. -/
theorem returns_onward {A B : Type} {keep : A → World × List Answer → Prop} {post : Except Failure B → World × List Answer → Prop}
    (result : Except Failure A) (t : World × List Answer) (kept : Prog.returns keep result t) : Prog.onward keep post result t := by
  cases result with
  | ok _ => exact kept
  | error e => exact kept.elim

/-- The write of a copy once what it refers to is handled. -/
theorem cancelWrite_sweeps (fin : Time) (done : ∀ c, ti.executorRef = .subdag c → c ∈ handled)
    (sweeping : MidSweep db root handled (ti :: rest) marked s.1.db) :
    (logged (updateTaskInstance { ti with state := .cancelled, finishedAt := some fin })).Safe serving
      (Prog.returns fun _ t => MidSweep db root handled rest marked t.1.db) s := by
  refine serving_attempt_write (updateTaskInstance_writes _ s.1) (fun after t written world => ?_) fun e t failed _ => ?_
  · show MidSweep db root handled rest marked t.1.db
    rw [world.db]
    exact sweeping.write { ti with state := .cancelled, finishedAt := some fin } done rfl rfl written
  · obtain ⟨found, _⟩ := sweeping.waiting ti (.head _)
    have stored : s.1.db.instance? (TaskInstance.key { ti with state := .cancelled, finishedAt := some fin }) = some ti := found
    rw [DB.updateTaskInstance, stored] at failed
    cases failed

/-- A cancellation of runs that sweeps whatever has few active runs. -/
def Sweeps (bound : Nat) (cancelRun : RunID → Act Unit) : Prop :=
  ∀ c (s : World × List Answer), (activeRuns s.1.db).ncard < bound →
    (cancelRun c).Safe serving (fun result t => Cascaded s.1.db c result t.1.db) s

/-- What the next copy refers to is swept before the copy is written. -/
theorem cancelAttempt_sweeps {cancelRun : RunID → Act Unit} {bound : Nat} (below : Sweeps bound cancelRun)
    (few : (activeRuns db).ncard ≤ bound) (ref : ExecutorRef) (own : ti.executorRef = ref) (unfinished : ti.state.isTerminal = false)
    (sweeping : MidSweep db root handled (ti :: rest) marked s.1.db) :
    (cancelAttempt cancelRun ref).Safe serving (Prog.returns fun _ t => ∃ handled marked,
      MidSweep db root handled (ti :: rest) marked t.1.db ∧ ∀ c, ref = .subdag c → c ∈ handled) s := by
  have kills (other : ∀ c, ref ≠ .subdag c) : (perform (.cancel ref)).Safe serving (Prog.returns fun _ t =>
      ∃ handled marked, MidSweep db root handled (ti :: rest) marked t.1.db ∧ ∀ c, ref = .subdag c → c ∈ handled) s :=
    serving_perform (o := .cancel ref) (k := .done) (fun a => ⟨(), s.1, [], rfl, Holds.refl _⟩) fun _ t world =>
      ⟨handled, marked, sweeping.holds world, fun c refers => absurd refers (other c)⟩
  cases ref with
  | none => exact kills fun c => nofun
  | attempt run task tries => exact kills fun c => nofun
  | subdag child =>
    have less : (activeRuns s.1.db).ncard < bound := Nat.lt_of_lt_of_le sweeping.fewer few
    have swept : ((cancelRun child).attempt).Safe serving (Prog.returns fun _ t => Swept s.1.db (linked s.1.db child) t.1.db) s :=
      Prog.Safe.attempt ((below child s less).mono fun _ _ cascaded => cascaded.2.2)
    refine Prog.Safe.andThen _ swept fun _ t swept => ?_
    refine ⟨insert child handled, marked ∪ linked s.1.db child, sweeping.child ?_ swept, fun c refers => ?_⟩
    · have owned := (sweeping.waiting ti (.head _)).2
      subst owned
      exact ⟨ti.taskID, ti, sweeping.original ti (.head _), unfinished, own⟩
    · cases refers
      exact .inl rfl

/-- The tasks of a cancelled run, one after the other. -/
theorem cancelInstances_sweeps {cancelRun : RunID → Act Unit} {bound : Nat} (below : Sweeps bound cancelRun) (fin : Time)
    (few : (activeRuns db).ncard ≤ bound) {tis : List TaskInstance} (sweeping : MidSweep db root handled tis marked s.1.db) :
    (cancelInstances cancelRun fin tis).Safe serving (Prog.returns fun _ t => Swept db (linked db root) t.1.db) s := by
  apply Prog.Safe.forEach fun rest t => ∃ handled marked, MidSweep db root handled rest marked t.1.db
  · exact ⟨handled, marked, sweeping⟩
  · rintro ti rest t ⟨handled, marked, sweeping⟩
    have writes (u : World × List Answer) {handled marked : Set RunID} (done : ∀ c, ti.executorRef = .subdag c → c ∈ handled)
        (sweeping : MidSweep db root handled (ti :: rest) marked u.1.db) :
        (logged (updateTaskInstance { ti with state := .cancelled, finishedAt := some fin })).Safe serving
          (Prog.onward (fun _ t => ∃ handled marked, MidSweep db root handled rest marked t.1.db)
            (Prog.returns fun (_ : Unit) t => Swept db (linked db root) t.1.db)) u := by
      refine (cancelWrite_sweeps fin done sweeping).mono fun result v after => returns_onward result v ?_
      cases result with
      | ok _ => exact ⟨handled, marked, after⟩
      | error e => exact after
    dsimp only
    split
    · rename_i ended
      exact ⟨handled, marked, sweeping.skip ended⟩
    · rename_i unfinished
      split
      · refine Prog.Safe.andThen _ (cancelAttempt_sweeps below few _ rfl (by simpa using unfinished) sweeping) ?_
        rintro _ u ⟨handled, marked, sweeping, done⟩
        exact writes u done sweeping
      · rename_i none
        refine writes t (fun c refers => ?_) sweeping
        rw [refers] at none
        exact absurd nofun none
  · rintro t ⟨handled, marked, sweeping⟩
    exact sweeping.finish

/-- The cancellation of a run sweeps the runs that it is linked to, with more depth than active runs. -/
theorem cancelRunLocked_sweeps (depth : Nat) : Sweeps depth (cancelRunLocked depth) := by
  induction depth with
  | zero => exact fun _ _ few => absurd few (Nat.not_lt_zero _)
  | succ depth ih =>
    intro root s few
    have idle (none : root ∉ activeRuns s.1.db) {t : World × List Answer} (world : Holds s.1.db s.1 t.1) {e : Failure}
        (other : e ≠ .exhausted) : Cascaded s.1.db root (.error e) t.1.db := by
      refine ⟨⟨by rintro ⟨⟩, fun active => absurd active none⟩, fun same => other (Except.error.inj same), ?_⟩
      rw [linked, Sweep.reach_dead none, world.db]
      exact Swept.nothing _
    refine serving_read (getDagRun_reads root s.1) (fun x t got world => ?_) fun e t failed world => ?_
    · have found := getDagRun_ok got
      split
      · rename_i ended
        refine idle ?_ world (by rintro ⟨⟩)
        rintro ⟨y, found', active⟩
        cases found.symm.trans found'
        rcases (RunState.isActive_iff _).mp active with same | same
        · exact ended.1 same
        · exact ended.2 same
      · rename_i other
        have active : x.state.isActive = true := by
          rw [RunState.isActive_iff]
          tauto
        refine serving_now fun fin u world' => ?_
        have same : u.1.db = s.1.db := world'.db.trans world.db
        refine alone_write (updateDagRunState_writes _ _ _ _ u.1) (fun now v written world'' _ => ?_) fun e v refused _ _ => ?_
        · rw [same] at written
          have sweeping := MidSweep.start found active written
          refine serving_read (listTaskInstances_reads root v.1) (fun tis v' listed world₃ => ?_) fun e _ failed _ => ?_
          · cases listed
            rw [world''.db] at world₃ ⊢
            replace sweeping : MidSweep s.1.db root ∅ (now.listTaskInstances root) {root} v'.1.db := by
              rw [world₃.db]
              exact sweeping
            refine (cancelInstances_sweeps ih fin (Nat.lt_succ_iff.mp few) sweeping).mono fun result w swept => ?_
            cases result with
            | ok _ => exact ⟨⟨fun _ => ⟨x, found, active⟩, fun _ => rfl⟩, by rintro ⟨⟩, swept⟩
            | error e => exact swept.elim
          · cases failed
        · have failed := refused.served
          rw [same, DB.updateDagRunState, found] at failed
          rcases (RunState.isActive_iff _).mp active with same | same
          · simp [same, legalPriorRunStates] at failed
          · simp [same, legalPriorRunStates] at failed
    · refine idle ?_ world (by rintro ⟨⟩)
      rintro ⟨y, found, _⟩
      rw [DB.getDagRun, found] at failed
      cases failed

end Cascade

/-! ### Its depth -/

section Depth

variable {s : World × List Answer} {bound : Nat}

/-- No cancellation makes a run active, whatever the surroundings answer. -/
theorem cancels_fewer {A : Type} {p : Act A} (cancels : Cancelling p) (s : World × List Answer) :
    activeRuns (p.run World.replay s).2.1.db ⊆ activeRuns s.1.db := by
  refine Prog.Safe.run_keeps cancels World.replay (fun s t => activeRuns t.1.db ⊆ activeRuns s.1.db) (fun _ => subset_rfl)
    (fun _ _ _ first second => second.trans first) ?_ s
  rintro o s cancels r ⟨y, found, active⟩
  rcases World.replay_step (rfl : World.replay o s = (_, _)) with ⟨a, spawned, performed⟩ | ⟨_, world⟩
  · rcases World.perform_run? performed r with same | changed
    · exact ⟨y, same.symm.trans found, active⟩
    · cases o with
      | updateDagRunState id state started finished =>
        obtain ⟨rfl, row, before, _, after⟩ := changed
        obtain rfl : state = .cancelled := beq_iff_eq.mp cancels
        cases found.symm.trans after
        cases active
      | createDagRunBounded | createManualDagRunBounded | updateDagRunSuccess | updateDagRunDefinition => cases cancels
      | _ => exact changed.elim
  · exact ⟨y, world ▸ found, active⟩

/-- One state, with few active runs. -/
def Few (bound : Nat) (s t : World × List Answer) : Prop := s = t ∧ (activeRuns s.1.db).ncard < bound

/-- The two programs do the same where few runs are active. -/
abbrev Alike (bound : Nat) (p q : Act Unit) : Prop := Prog.Lockstep World.replay (Few bound) (fun _ _ => True) p q

/-- A program that is in step with another runs as it does. -/
theorem run_alike {p q : Act Unit} (both : Alike bound p q) (few : (activeRuns s.1.db).ncard < bound) :
    p.run World.replay s = q.run World.replay s := by
  obtain ⟨agree, same, _⟩ := both s s ⟨rfl, few⟩
  apply Prod.ext _ same
  generalize (p.run World.replay s).1 = left at agree ⊢
  generalize (q.run World.replay s).1 = right at agree ⊢
  cases agree with
  | ok _ => rfl
  | error e => rfl

theorem cancelling_steps {A : Type} {p : Act A} (value : A → A → Prop) (refl : ∀ a, value a a) (cancels : Cancelling p) :
    Prog.Lockstep World.replay (Few bound) value p p := by
  rintro s _ ⟨rfl, few⟩
  have fewer := Set.ncard_le_ncard (cancels_fewer cancels s) activeRuns_finite
  refine ⟨?_, rfl, Nat.lt_of_le_of_lt fewer few⟩
  cases (p.run World.replay s).1 with
  | ok a => exact .ok (refl a)
  | error e => exact .error e

theorem cancelling_alike {p : Act Unit} (cancels : Cancelling p) : Alike bound p p :=
  cancelling_steps _ (fun _ => trivial) cancels

theorem cancelAttempt_alike {f g : RunID → Act Unit} (below : ∀ c, Alike bound (f c) (g c)) (ref : ExecutorRef) :
    Alike bound (cancelAttempt f ref) (cancelAttempt g ref) := by
  cases ref with
  | subdag child => exact (Prog.Lockstep.attempt (below child)).bind fun _ _ _ => Prog.Lockstep.done trivial
  | none => exact cancelling_alike (Prog.Yields.perform rfl)
  | attempt run task tries => exact cancelling_alike (Prog.Yields.perform rfl)

theorem cancelInstances_alike {f g : RunID → Act Unit} (below : ∀ c, Alike bound (f c) (g c)) (fin : Time)
    (tis : List TaskInstance) : Alike bound (cancelInstances f fin tis) (cancelInstances g fin tis) := by
  refine Prog.Lockstep.forEach (List.forall₂_same.mpr fun ti _ => (rfl : ti = ti)) ?_
  rintro ti _ rfl
  have writes : Alike bound (logged (updateTaskInstance { ti with state := .cancelled, finishedAt := some fin }))
      (logged (updateTaskInstance { ti with state := .cancelled, finishedAt := some fin })) :=
    cancelling_alike (issues_logged (issues_ask rfl))
  dsimp only
  split
  · exact Prog.Lockstep.done trivial
  · split
    · exact (cancelAttempt_alike below ti.executorRef).bind fun _ _ _ => writes
    · exact writes

/-- A run that is cancelled is one that is active no more. -/
theorem updateDagRunState_fewer {root : RunID} {started finished : Option Time} {t : World × List Answer}
    (ran : (updateDagRunState root .cancelled started finished).run World.replay s = (.ok (), t)) :
    (activeRuns t.1.db).ncard < (activeRuns s.1.db).ncard := by
  have safe : (updateDagRunState root .cancelled started finished).Safe (Prog.sequential World.replay fun _ => True)
      (fun r t => r = .ok () → ∃ db, s.1.db.updateDagRunState root .cancelled started finished = .ok db ∧ t.1.db = db) s :=
    alone_write_last (updateDagRunState_writes _ _ _ _ s.1) (fun db t written world _ _ => ⟨db, written, world.db⟩) fun _ _ _ _ _ => nofun
  have wrote := safe.runs_on (fun _ _ _ => trivial) trivial
  rw [ran] at wrote
  obtain ⟨now, written, rfl⟩ := wrote rfl
  obtain ⟨row, found, legal, runs, _⟩ := DB.updateDagRunState_ok written
  have live : root ∈ activeRuns s.1.db := by
    refine ⟨row, found, ?_⟩
    cases state : row.state <;> simp [state, legalPriorRunStates, RunState.isActive] at legal ⊢
  have dead : root ∉ activeRuns t.1.db := by
    rintro ⟨y, found', active⟩
    rw [runs root, if_pos rfl] at found'
    cases found'
    cases active
  have fewer := cancels_fewer (p := updateDagRunState root .cancelled started finished) (issues_ask rfl) s
  rw [ran] at fewer
  exact Set.ncard_lt_ncard ⟨fewer, fun all => dead (all live)⟩ activeRuns_finite

/-- Behind a program that leaves fewer active runs, fewer are enough. -/
theorem descend_alike {p k k' : Act Unit} (fewer : ∀ s t, p.run World.replay s = (.ok (), t) →
    (activeRuns t.1.db).ncard < (activeRuns s.1.db).ncard) (cancels : Cancelling p) (below : Alike bound k k') :
    Alike (bound + 1) (p >>= fun _ => k) (p >>= fun _ => k') := by
  rintro s _ ⟨rfl, few⟩
  have kept := (cancelling_alike cancels s s ⟨rfl, few⟩).2
  rw [Prog.bind_eq, Prog.bind_eq, Prog.run_bind, Prog.run_bind]
  cases ran : p.run World.replay s with
  | mk result t =>
    rw [ran] at kept
    cases result with
    | error e => exact ⟨.error e, kept⟩
    | ok _ =>
      have less := Nat.lt_of_lt_of_le (fewer s t ran) (Nat.lt_succ_iff.mp few)
      obtain ⟨agree, same, left⟩ := below t t ⟨rfl, less⟩
      exact ⟨agree, same, Nat.lt_succ_of_lt left⟩

/-- More depth than active runs is enough: with any more the cancellation does the same. -/
theorem cancelRunLocked_alike (depth more : Nat) (root : RunID) :
    Alike depth (cancelRunLocked depth root) (cancelRunLocked (depth + more) root) := by
  induction depth generalizing root with
  | zero => exact fun _ _ few => absurd few.2 (Nat.not_lt_zero _)
  | succ depth ih =>
    rw [Nat.succ_add]
    refine (cancelling_steps Eq (fun _ => rfl) (issues_ask rfl)).bind ?_
    rintro run _ rfl
    split
    · exact fun s t same => ⟨.error _, same⟩
    · refine (cancelling_steps Eq (fun _ => rfl) (Prog.Yields.perform rfl)).bind ?_
      rintro fin _ rfl
      refine descend_alike (fun s t => updateDagRunState_fewer) (issues_ask rfl) ?_
      refine (cancelling_steps Eq (fun _ => rfl) (issues_ask rfl)).bind ?_
      rintro tis _ rfl
      exact cancelInstances_alike (ih ·) fin tis

end Depth

/-! ### The whole of it -/

section Whole

/-- A cancellation on a database that serves every statement ends, at a depth that the active runs bound. It
succeeds if and only if the run is active, and sweeps the runs that it is linked to. -/
theorem cancellation_cascades (root : RunID) (w : World) (answers : List Answer) (served : ∀ a ∈ answers, a.served = true) :
    (∀ depth, (activeRuns w.db).ncard < depth →
      (cancelRunLocked depth root).run World.replay (w, answers) =
        (cancelRunLocked ((activeRuns w.db).ncard + 1) root).run World.replay (w, answers) ∧
      Cascaded w.db root ((cancelRunLocked depth root).run World.replay (w, answers)).1
        ((cancelRunLocked depth root).run World.replay (w, answers)).2.1.db) ∧
    Cascaded w.db root ((cascade root).run World.replay (w, answers)).1 ((cascade root).run World.replay (w, answers)).2.1.db := by
  constructor
  · intro depth enough
    constructor
    · obtain ⟨more, rfl⟩ := Nat.exists_eq_add_of_le (Nat.succ_le_of_lt enough)
      exact (run_alike (s := (w, answers)) (cancelRunLocked_alike _ more root) (Nat.lt_succ_self _)).symm
    · exact (cancelRunLocked_sweeps depth root (w, answers) enough).runs_on replay_left served
  · -- the census answers with the number of rows, which bounds the active runs
    have left : ∀ a ∈ answers.tail, a.served = true := fun a member => served a (List.mem_of_mem_tail member)
    have enough : (activeRuns w.db).ncard < w.db.runs.rows.length + 1 := Nat.lt_succ_of_le activeRuns_ncard_le
    exact (cancelRunLocked_sweeps _ root (w, answers.tail) enough).runs_on replay_left left

/-- A run of the definition at the epoch. -/
def callingRun (dag : DagID) (state : RunState) : DagRun :=
  { runID := .manual dag 0, dagID := dag, logicalDate := 0, state, triggerType := .manual }

/-- Two running runs, each of them the child of a task of the other. -/
def loopWorld : World where
  db := { DB.empty with
    runs := ⟨[callingRun "a" .running, callingRun "b" .running], by decide⟩
    taskInstances := ⟨[{ runID := .manual "a" 0, taskID := "call", state := .running, executorRef := .subdag (.manual "b" 0) },
      { runID := .manual "b" 0, taskID := "call", state := .running, executorRef := .subdag (.manual "a" 0) }], by decide⟩ }

theorem loop_is_swept : ∃ x, ((cascade (.manual "a" 0)).run World.replay (loopWorld, [])).2.1.db.run? (.manual "b" 0) = some x ∧
    x.state = .cancelled := by
  have linked : RunID.manual "b" 0 ∈ linked loopWorld.db (.manual "a" 0) := by
    have first : RunID.manual "a" 0 ∈ activeRuns loopWorld.db := ⟨callingRun "a" .running, rfl, rfl⟩
    have second : RunID.manual "b" 0 ∈ activeRuns loopWorld.db := ⟨callingRun "b" .running, rfl, rfl⟩
    exact Sweep.reach_next (Sweep.root_mem_reach first) ⟨first, second, "call", _, rfl, rfl, rfl⟩
  exact (cancellation_cascades (.manual "a" 0) loopWorld [] (by simp)).2.2.2.cancelled _ linked

def endedWorld : World where
  db := { DB.empty with runs := ⟨[callingRun "a" .success], List.pairwise_singleton _ _⟩ }

/-- A run that has ended is refused at every depth, and does not become cancelled. -/
theorem ended_run_stays : (∃ x, endedWorld.db.run? (.manual "a" 0) = some x) ∧ ∀ depth, ∃ x,
    ((cancelRunLocked (depth + 1) (.manual "a" 0)).run World.replay (endedWorld, [])).2.1.db.run? (.manual "a" 0) = some x ∧
      x.state ≠ .cancelled :=
  ⟨⟨_, rfl⟩, fun _ => ⟨callingRun "a" .success, rfl, by decide⟩⟩

end Whole

end Cronova.Scheduler
