import Cronova.Store.Effects

/-! The lifecycle of a run as the store enforces it: `LegalPriorRunStates` against the two
statements that write `dag_runs.state`. -/

set_option autoImplicit false

namespace Cronova.Store

open Model
open Calendar (Time)

/-- The statements that write the state of an existing run. -/
inductive RunWrite where
  | state (target : RunState) (started finished : Option Time)
  | success (started finished : Option Time)

def RunWrite.target : RunWrite → RunState
  | state target _ _ => target
  | success _ _ => .success

def RunWrite.apply (id : RunID) (db : DB) : RunWrite → Except StoreError DB
  | state target started finished => db.updateDagRunState id target started finished
  | success started finished => db.updateDagRunSuccess id started finished

/-- One call of such a statement. A call that the database does not serve is rolled back. -/
structure RunCall where
  id : RunID
  write : RunWrite
  served : Bool := true

def RunCall.perform (c : RunCall) (db : DB) : Except StoreError Unit × DB :=
  if c.served then match c.write.apply c.id db with
    | .ok after => (.ok (), after)
    | .error e => (.error e, db)
  else (.error .unavailable, db)

/-- The law: success only from a legal prior state, and a refusal leaves runs and events alone. -/
structure RunCall.Lawful (c : RunCall) (db : DB) : Prop where
  legal : ∀ after, c.perform db = (.ok (), after) →
    ∃ r, db.run? c.id = some r ∧ r.state ∈ legalPriorRunStates c.write.target
  refused : ∀ e after, c.perform db = (.error e, after) → after.runs = db.runs ∧ after.events = db.events

/-- The call is not a success write over a run that was cancelled or timed out. -/
def RunCall.Guarded (c : RunCall) (db : DB) : Prop :=
  c.served = true → (∃ started finished, c.write = .success started finished) →
    ∀ r, db.run? c.id = some r → r.state ≠ .cancelled ∧ r.state ≠ .timedOut

/-- The states of one run before, between and after the calls. -/
def history (id : RunID) : DB → List RunCall → List (Option RunState)
  | db, [] => [(db.run? id).map (·.state)]
  | db, c :: calls => (db.run? id).map (·.state) :: history id (c.perform db).2 calls

/-- Every call meets the condition in the state in which it is made. -/
def AllGuarded : DB → List RunCall → Prop
  | _, [] => True
  | db, c :: calls => c.Guarded db ∧ AllGuarded (c.perform db).2 calls

/-- An edge of `LegalPriorRunStates`, or no change. -/
def Moves (before after : Option RunState) : Prop :=
  before = after ∨ ∃ s t, before = some s ∧ after = some t ∧ s ∈ legalPriorRunStates t

variable {db after : DB} {c : RunCall}

theorem legalPrior_success (s : RunState) :
    s ∈ legalPriorRunStates .success ↔ s ≠ .cancelled ∧ s ≠ .timedOut := by
  cases s <;> simp [legalPriorRunStates]

theorem RunCall.perform_ok (ok : c.perform db = (.ok (), after)) :
    c.served = true ∧ c.write.apply c.id db = .ok after := by
  unfold perform at ok
  split at ok
  · rename_i served
    split at ok <;> cases ok
    exact ⟨served, by assumption⟩
  · cases ok

theorem RunCall.perform_error {e : StoreError} (failed : c.perform db = (.error e, after)) : after = db := by
  unfold perform at failed
  split at failed
  · split at failed <;> cases failed
    rfl
  · cases failed
    rfl

/-- A write that succeeds sets the state of its run to the target and leaves the other runs alone. -/
theorem RunWrite.apply_ok {w : RunWrite} {id : RunID} (ok : w.apply id db = .ok after) :
    ∃ r s, db.run? id = some r ∧ s.state = w.target ∧ ∀ x, after.run? x = if x = id then some s else db.run? x := by
  cases w with
  | state target started finished =>
    obtain ⟨r, found, _, runs, _⟩ := DB.updateDagRunState_ok ok
    exact ⟨r, _, found, rfl, runs⟩
  | success started finished =>
    obtain ⟨r, found, runs, _⟩ := DB.updateDagRunSuccess_ok ok
    exact ⟨r, _, found, rfl, runs⟩

theorem RunCall.lawful_of_guarded (guarded : c.Guarded db) : c.Lawful db where
  legal after ok := by
    obtain ⟨served, applied⟩ := perform_ok ok
    cases kind : c.write with
    | state target started finished =>
      rw [kind] at applied
      obtain ⟨r, found, legal, _⟩ := DB.updateDagRunState_ok applied
      exact ⟨r, found, legal⟩
    | success started finished =>
      rw [kind] at applied
      obtain ⟨r, found, _⟩ := DB.updateDagRunSuccess_ok applied
      exact ⟨r, found, (legalPrior_success _).mpr (guarded served ⟨_, _, kind⟩ r found)⟩
  refused e after failed := by rw [perform_error failed]; exact ⟨rfl, rfl⟩

theorem RunCall.guarded_of_lawful (lawful : c.Lawful db) : c.Guarded db := by
  rintro served ⟨started, finished, kind⟩ r found
  have ok : c.perform db = (.ok (), (c.perform db).2) := by
    simp [perform, served, kind, RunWrite.apply, DB.updateDagRunSuccess, found]
  obtain ⟨r', found', legal⟩ := lawful.legal _ ok
  cases found.symm.trans found'
  rw [kind] at legal
  exact (legalPrior_success _).mp legal

/-- One lawful call moves every run along an edge or not at all. -/
theorem RunCall.moves (guarded : c.Guarded db) (id : RunID) :
    Moves ((db.run? id).map (·.state)) (((c.perform db).2.run? id).map (·.state)) := by
  cases result : c.perform db with
  | mk reply after =>
    cases reply with
    | error e =>
      rw [perform_error result]
      exact .inl rfl
    | ok u =>
      obtain ⟨r, found, legal⟩ := (lawful_of_guarded guarded).legal after result
      obtain ⟨_, s, _, target, runs⟩ := RunWrite.apply_ok (perform_ok result).2
      by_cases same : id = c.id
      · subst same
        exact .inr ⟨r.state, s.state, by simp [found], by simp [runs], by rw [target]; exact legal⟩
      · exact .inl (by simp [runs, same])

theorem history_head (id : RunID) (db : DB) (calls : List RunCall) :
    ∃ rest, history id db calls = (db.run? id).map (·.state) :: rest := by
  cases calls <;> exact ⟨_, rfl⟩

theorem history_chain {calls : List RunCall} (guarded : AllGuarded db calls) (id : RunID) :
    (history id db calls).IsChain Moves := by
  induction calls generalizing db with
  | nil => exact .singleton _
  | cons c calls ih =>
    obtain ⟨first, rest⟩ := guarded
    have chain := ih rest
    obtain ⟨tail, shape⟩ := history_head id (c.perform db).2 calls
    rw [history, shape]
    rw [shape] at chain
    exact .cons_cons (RunCall.moves first id) chain

/-- The store enforces the lifecycle exactly where no success write meets a run that was
cancelled or timed out, and a run's history is then a path of the relation. -/
theorem run_lifecycle_enforced (db : DB) (c : RunCall) (calls : List RunCall) (id : RunID) :
    (c.Lawful db ↔ c.Guarded db) ∧ (AllGuarded db calls → (history id db calls).IsChain Moves) :=
  ⟨⟨RunCall.guarded_of_lawful, RunCall.lawful_of_guarded⟩, fun guarded => history_chain guarded id⟩

/-- The states of a run that is started, fails and is marked successful. -/
def queuedRun : DagRun := { runID := .manual "etl" 0, dagID := "etl", logicalDate := 0, triggerType := .manual }

def queuedStore : DB := { DB.empty with runs := ⟨[queuedRun], by simp⟩ }

def markedCalls : List RunCall :=
  [⟨queuedRun.runID, .state .running (some 1) none, true⟩, ⟨queuedRun.runID, .state .queued none none, true⟩,
    ⟨queuedRun.runID, .state .failed (some 1) (some 2), true⟩, ⟨queuedRun.runID, .success (some 1) (some 2), true⟩]

theorem marked_run_lifecycle :
    AllGuarded queuedStore markedCalls ∧ (history queuedRun.runID queuedStore markedCalls).IsChain Moves := by
  have guarded : AllGuarded queuedStore markedCalls := by
    refine ⟨?_, ?_, ?_, ?_, trivial⟩
    · rintro - ⟨_, _, ⟨⟩⟩
    · rintro - ⟨_, _, ⟨⟩⟩
    · rintro - ⟨_, _, ⟨⟩⟩
    · intro _ _ r found
      have failed : some { queuedRun with state := .failed, startedAt := some 1, finishedAt := some 2 } = some r := found
      cases failed
      exact ⟨by decide, by decide⟩
  exact ⟨guarded, (run_lifecycle_enforced queuedStore ⟨queuedRun.runID, .success none none, true⟩ markedCalls _).2 guarded⟩

/-- A cancelled run, and a success write that the store lets through. -/
def cancelledRun : DagRun := { runID := .manual "etl" 0, dagID := "etl", logicalDate := 0, state := .cancelled, triggerType := .manual }

def cancelledStore : DB := { DB.empty with runs := ⟨[cancelledRun], by simp⟩ }

theorem success_write_over_cancelled_run :
    ¬ (RunCall.mk cancelledRun.runID (.success none (some 1)) true).Lawful cancelledStore := by
  intro lawful
  have served : (RunCall.mk cancelledRun.runID (.success none (some 1)) true).perform cancelledStore =
      (.ok (), ((RunCall.mk cancelledRun.runID (.success none (some 1)) true).perform cancelledStore).2) := by rfl
  obtain ⟨r, found, legal⟩ := lawful.legal _ served
  obtain rfl : cancelledRun = r := by simpa using (show some cancelledRun = some r from found)
  revert legal
  decide

end Cronova.Store
