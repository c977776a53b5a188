import Cronova.Store.Effects

/-! Bounded run admission: `CreateDagRunBounded` and `CreateManualDagRunBounded` of both
stores, statement by statement.

The sqlite store inserts in one conditional statement. The postgres store takes an advisory
lock for the length of a transaction around the same statement. Both read the DAG again
afterwards to tell why nothing was inserted.
-/

set_option autoImplicit false

namespace Cronova.Store.Admission

open Model
open Calendar (Time)

inductive Backend where
  | sqlite | postgres
  deriving DecidableEq

/-- A call with its run; the bound per DAG is that of the manual variant. -/
structure Call where
  run : DagRun
  perDAG : Option Int := none

inductive Outcome where
  | created | alreadyExists | notFound | queueFull | failed
  deriving DecidableEq

inductive Phase where
  | waiting
  /-- The advisory lock is held. -/
  | locked
  /-- The row is inserted and not committed. -/
  | inserted
  /-- The insert selected no row and is not committed. -/
  | missed
  /-- `GetDAG` is to tell the reason. -/
  | looking
  | done (outcome : Outcome)
  deriving DecidableEq

/-- The committed tables, the holder of the advisory lock and the calls. -/
structure State where
  db : DB
  lock : Option Nat := none
  phase : Nat → Phase := fun _ => .waiting

inductive Move where
  | lock (i : Nat)
  | insert (i : Nat)
  | commit (i : Nat)
  | lookup (i : Nat)
  /-- A statement of the call fails; its transaction is rolled back. -/
  | fail (i : Nat)
  /-- The commit takes effect and its reply is lost. -/
  | lose (i : Nat)
  | archive (dag : DagID)
  | revive (d : DAG)
  /-- A run moves on, in another request. -/
  | advance (run : RunID) (state : RunState) (started finished : Option Time)

def Move.call : Move → Option Nat
  | lock i | insert i | commit i | lookup i | fail i | lose i => some i
  | archive _ | revive _ | advance _ _ _ _ => none

/-- No failure of the database and no archiving or revival of a DAG. -/
def Move.isQuiet : Move → Bool
  | lock _ | insert _ | commit _ | lookup _ | advance _ _ _ _ => true
  | fail _ | lose _ | archive _ | revive _ => false

section Steps

variable (backend : Backend) (calls : Nat → Call) (global : Int)

/-- The bounds of the conditional insert. -/
def Call.bounded (c : Call) (db : DB) : Bool :=
  c.perDAG.all (fun perDAG => decide (db.countActiveRuns c.run.dagID < perDAG)) && decide (db.queuedCount < global)

def State.become (s : State) (i : Nat) (phase : Phase) : State := { s with phase := Function.update s.phase i phase }

@[simp] theorem State.become_phase (s : State) (i : Nat) (phase : Phase) :
    (s.become i phase).phase = Function.update s.phase i phase := rfl

/-- The end of a transaction gives the lock back. -/
def State.settle (s : State) (i : Nat) (phase : Phase) : State :=
  { s.become i phase with lock := if s.lock = some i then none else s.lock }

@[simp] theorem State.settle_phase (s : State) (i : Nat) (phase : Phase) :
    (s.settle i phase).phase = Function.update s.phase i phase := rfl

def insertStep (s : State) (i : Nat) : Option State :=
  let c := calls i
  match backend, s.phase i with
  | .sqlite, .waiting =>
    if s.db.dagActive c.run.dagID && c.bounded global s.db then
      match s.db.insertRun c.run with
      | .ok db => some ({ s with db }.become i (.done .created))
      | .error _ => some (s.become i (.done .alreadyExists))
    else some (s.become i .looking)
  | .postgres, .locked =>
    if s.db.dagActive c.run.dagID && c.bounded global s.db then
      match s.db.insertRun c.run with
      | .ok _ => some (s.become i .inserted)
      | .error _ => some (s.settle i (.done .alreadyExists))
    else some (s.become i .missed)
  | _, _ => none

def commitStep (s : State) (i : Nat) (outcome : Outcome) : Option State :=
  match s.phase i with
  | .inserted => some ({ s with db := (s.db.insertRun (calls i).run).toOption.getD s.db }.settle i (.done outcome))
  | _ => none

def step (s : State) : Move → Option State
  | .lock i =>
    if backend = .postgres ∧ s.phase i = .waiting ∧ s.lock = none then some { s.become i .locked with lock := some i }
    else none
  | .insert i => insertStep backend calls global s i
  | .commit i => match s.phase i with
    | .missed => some (s.settle i .looking)
    | _ => commitStep calls s i .created
  | .lookup i => match s.phase i with
    | .looking => some (s.become i (.done (if s.db.dagActive (calls i).run.dagID then .queueFull else .notFound)))
    | _ => none
  | .fail i => match s.phase i with
    | .done _ => none
    -- an error of `GetDAG` is reported as a missing DAG
    | .looking => some (s.become i (.done .notFound))
    | _ => some (s.settle i (.done .failed))
  | .lose i => commitStep calls s i .failed
  | .archive dag => some { s with db := (s.db.softDeleteDAG dag).toOption.getD s.db }
  | .revive d => some { s with db := s.db.upsertDAG d }
  | .advance run state started finished =>
    some { s with db := (s.db.updateDagRunState run state started finished).toOption.getD s.db }

/-- A step that was taken. -/
structure Taken where
  before : State
  move : Move
  after : State

/-- The states that any interleaving of the calls reaches, with the steps that led there. -/
inductive Run (db : DB) : List Taken → State → Prop where
  | start : Run db [] { db }
  | step {trail : List Taken} {s t : State} (move : Move) : Run db trail s → step backend calls global s move = some t →
      Run db (trail ++ [⟨s, move, t⟩]) t

end Steps

/-- The insert of an undisturbed call is the store's function. -/
theorem bounded_eq (db : DB) (r : DagRun) (global : Int) : db.createDagRunBounded r global =
    if db.dagActive r.dagID && Call.bounded global ⟨r, none⟩ db then db.insertRun r else .error (db.refusal r.dagID) := by
  simp [DB.createDagRunBounded, Call.bounded]

theorem manual_bounded_eq (db : DB) (r : DagRun) (perDAG global : Int) : db.createManualDagRunBounded r perDAG global =
    if db.dagActive r.dagID && Call.bounded global ⟨r, some perDAG⟩ db then db.insertRun r
    else .error (db.refusal r.dagID) := by
  simp [DB.createManualDagRunBounded, Call.bounded, Bool.and_assoc]

/-! ### The count of queued runs -/

section Counts

variable {db after : DB}

theorem queuedCount_insertRun {r : DagRun} (ok : db.insertRun r = .ok after) :
    after.queuedCount = db.queuedCount + if r.state = .queued then 1 else 0 := by
  obtain ⟨_, rows, _⟩ := DB.insertRun_ok ok
  simp only [DB.queuedCount, rows, List.countP_append, List.countP_singleton, beq_iff_eq]
  split <;> rfl

theorem keys_updateDagRunState {id : RunID} {state : RunState} {started finished : Option Time}
    (ok : db.updateDagRunState id state started finished = .ok after) :
    after.runs.rows.map runKey = db.runs.rows.map runKey := by
  unfold DB.updateDagRunState at ok
  simp only at ok
  split at ok
  · cases ok
  · split at ok
    · cases ok
    · split at ok
      · cases ok
        exact Table.keys_modify _ _ _ (DB.runKey_setRunState _ _ _)
      · cases ok

/-- No run becomes queued again. -/
theorem queuedCount_updateDagRunState {id : RunID} {state : RunState} {started finished : Option Time}
    (ok : db.updateDagRunState id state started finished = .ok after) : after.queuedCount ≤ db.queuedCount := by
  have moved : state ≠ .queued := by
    rintro rfl
    cases ok
  unfold DB.updateDagRunState at ok
  simp only at ok
  split at ok
  · cases ok
  · split at ok
    · cases ok
    · split at ok
      · cases ok
        simp only [DB.queuedCount, DB.updateRun, Table.modify, List.countP_map]
        apply Int.ofNat_le.mpr
        apply List.countP_mono_left
        intro r _ queued
        simp only [Function.comp_apply] at queued
        split at queued
        · simp [DB.setRunState, moved] at queued
        · exact queued
      · cases ok

end Counts

/-! ### What a step can do -/

section Inversion

variable (backend : Backend) (calls : Nat → Call) (global : Int)

/-- The insert selects a row. -/
def Admits (s : State) (i : Nat) : Prop :=
  s.db.dagActive (calls i).run.dagID = true ∧ (calls i).bounded global s.db = true

/-- The phase in which a call inserts. -/
def Ready (s : State) (i : Nat) : Prop :=
  backend = .sqlite ∧ s.phase i = .waiting ∨ backend = .postgres ∧ s.phase i = .locked

inductive Stepped (s : State) : Move → State → Prop where
  | locks (i : Nat) : backend = .postgres → s.phase i = .waiting → s.lock = none →
      Stepped s (.lock i) { s.become i .locked with lock := some i }
  /-- The single statement of the sqlite store is its own transaction. -/
  | creates (i : Nat) (db : DB) : backend = .sqlite → s.phase i = .waiting → Admits calls global s i →
      s.db.insertRun (calls i).run = .ok db → Stepped s (.insert i) ({ s with db }.become i (.done .created))
  | inserts (i : Nat) (db : DB) : s.phase i = .locked → Admits calls global s i → s.db.insertRun (calls i).run = .ok db →
      Stepped s (.insert i) (s.become i .inserted)
  | clashes (i : Nat) (e : StoreError) (lock : Option Nat) : Ready backend s i → Admits calls global s i →
      s.db.insertRun (calls i).run = .error e → (lock = s.lock ∨ s.lock = some i ∧ lock = none) →
      Stepped s (.insert i) { s.become i (.done .alreadyExists) with lock }
  | misses (i : Nat) (phase : Phase) : Ready backend s i → ¬ Admits calls global s i →
      (phase = .looking ∨ s.phase i = .locked ∧ phase = .missed) → Stepped s (.insert i) (s.become i phase)
  | commits (i : Nat) (move : Move) (outcome : Outcome) : s.phase i = .inserted →
      (move = .commit i ∧ outcome = .created ∨ move = .lose i ∧ outcome = .failed) →
      Stepped s move ({ s with db := (s.db.insertRun (calls i).run).toOption.getD s.db }.settle i (.done outcome))
  | concedes (i : Nat) : s.phase i = .missed → Stepped s (.commit i) (s.settle i .looking)
  | looks (i : Nat) : s.phase i = .looking → Stepped s (.lookup i)
      (s.become i (.done (if s.db.dagActive (calls i).run.dagID then .queueFull else .notFound)))
  | fails (i : Nat) (outcome : Outcome) (lock : Option Nat) : (∀ o, s.phase i ≠ .done o) →
      (outcome = .failed ∨ outcome = .notFound) → (lock = s.lock ∨ s.lock = some i ∧ lock = none) →
      Stepped s (.fail i) { s.become i (.done outcome) with lock }
  | archives (dag : DagID) : Stepped s (.archive dag) { s with db := (s.db.softDeleteDAG dag).toOption.getD s.db }
  | revives (d : DAG) : Stepped s (.revive d) { s with db := s.db.upsertDAG d }
  | advances (run : RunID) (state : RunState) (started finished : Option Time) : Stepped s (.advance run state started finished)
      { s with db := (s.db.updateDagRunState run state started finished).toOption.getD s.db }

variable {backend calls global} {s t : State} {move : Move}

theorem settle_lock (s : State) (i : Nat) : (if s.lock = some i then none else s.lock) = s.lock ∨
    s.lock = some i ∧ (if s.lock = some i then none else s.lock) = none := by
  by_cases held : s.lock = some i
  · exact .inr ⟨held, if_pos held⟩
  · exact .inl (if_neg held)

theorem stepped_commit {i : Nat} {outcome : Outcome} (taken : commitStep calls s i outcome = some t)
    (how : move = .commit i ∧ outcome = .created ∨ move = .lose i ∧ outcome = .failed) :
    Stepped backend calls global s move t := by
  unfold commitStep at taken
  split at taken
  · rename_i phase
    cases taken
    exact .commits i move outcome phase how
  · cases taken

theorem stepped_insert {i : Nat} (taken : insertStep backend calls global s i = some t) :
    Stepped backend calls global s (.insert i) t := by
  unfold insertStep at taken
  dsimp only at taken
  split at taken
  · rename_i phase
    split at taken
    · rename_i guard
      simp only [Bool.and_eq_true] at guard
      split at taken
      · rename_i db inserted
        cases taken
        exact .creates i db rfl phase guard inserted
      · rename_i e clash
        cases taken
        exact .clashes i e s.lock (.inl ⟨rfl, phase⟩) guard clash (.inl rfl)
    · rename_i guard
      simp only [Bool.and_eq_true] at guard
      cases taken
      exact .misses i .looking (.inl ⟨rfl, phase⟩) guard (.inl rfl)
  · rename_i phase
    split at taken
    · rename_i guard
      simp only [Bool.and_eq_true] at guard
      split at taken
      · rename_i db inserted
        cases taken
        exact .inserts i db phase guard inserted
      · rename_i e clash
        cases taken
        exact .clashes i e _ (.inr ⟨rfl, phase⟩) guard clash (settle_lock s i)
    · rename_i guard
      simp only [Bool.and_eq_true] at guard
      cases taken
      exact .misses i .missed (.inr ⟨rfl, phase⟩) guard (.inr ⟨phase, rfl⟩)
  · cases taken

theorem stepped (taken : step backend calls global s move = some t) : Stepped backend calls global s move t := by
  cases move with
  | lock i =>
    simp only [step] at taken
    split at taken
    · rename_i ready
      cases taken
      exact .locks i ready.1 ready.2.1 ready.2.2
    · cases taken
  | insert i => exact stepped_insert taken
  | commit i =>
    simp only [step] at taken
    split at taken
    · rename_i phase
      cases taken
      exact .concedes i phase
    · exact stepped_commit taken (.inl ⟨rfl, rfl⟩)
  | lookup i =>
    simp only [step] at taken
    split at taken
    · rename_i phase
      cases taken
      exact .looks i phase
    · cases taken
  | fail i =>
    simp only [step] at taken
    split at taken
    · cases taken
    · rename_i phase
      cases taken
      exact .fails i .notFound s.lock (by simp [phase]) (.inr rfl) (.inl rfl)
    · rename_i other _
      cases taken
      exact .fails i .failed _ other (.inl rfl) (settle_lock s i)
  | lose i => exact stepped_commit taken (.inr ⟨rfl, rfl⟩)
  | archive dag => cases taken; exact .archives dag
  | revive d => cases taken; exact .revives d
  | advance run state started finished => cases taken; exact .advances run state started finished

end Inversion

/-! ### The bound -/

section Bound

variable {backend : Backend} {calls : Nat → Call} {global : Int} {s t : State} {move : Move}

/-- A run with the id, or with the DAG and the date, of another one. -/
def Clashes (db : DB) (r : DagRun) : Prop :=
  ∃ x ∈ db.runs, x.runID = r.runID ∨ x.dagID = r.dagID ∧ x.logicalDate = r.logicalDate

/-- Between lock and commit a call is alone, and its row still fits. -/
structure Inv (backend : Backend) (calls : Nat → Call) (global : Int) (s : State) : Prop where
  held : ∀ i, s.phase i = .locked ∨ s.phase i = .inserted ∨ s.phase i = .missed →
    s.lock = some i ∧ backend = .postgres
  bound : s.db.queuedCount ≤ global
  room : ∀ i, s.phase i = .inserted → s.db.queuedCount < global
  fresh : ∀ i, s.phase i = .inserted → ¬ Clashes s.db (calls i).run

/-- A move of another request: the calls stand where they stood. -/
structure Aside (s t : State) : Prop where
  phase : t.phase = s.phase
  lock : t.lock = s.lock
  keys : t.db.runs.rows.map runKey = s.db.runs.rows.map runKey
  queued : t.db.queuedCount ≤ s.db.queuedCount

theorem clashes_iff {db after : DB} (keys : after.runs.rows.map runKey = db.runs.rows.map runKey) (r : DagRun) :
    Clashes after r ↔ Clashes db r := by
  have listed (db : DB) : Clashes db r ↔ ∃ k ∈ db.runs.rows.map runKey,
      k.run = r.runID ∨ k.dag = r.dagID ∧ k.date = r.logicalDate := by
    simp only [Clashes, List.mem_map]
    constructor
    · rintro ⟨x, stored, same⟩
      exact ⟨runKey x, ⟨x, stored, rfl⟩, same⟩
    · rintro ⟨_, ⟨x, stored, rfl⟩, same⟩
      exact ⟨x, stored, same⟩
  rw [listed, listed, keys]

theorem insertRun_ok_iff {db : DB} {r : DagRun} : (∃ after, db.insertRun r = .ok after) ↔ ¬ Clashes db r := by
  constructor
  · rintro ⟨after, inserted⟩ ⟨x, stored, same⟩
    have apart := (DB.insertRun_ok inserted).1 x stored
    rcases same with id | date
    · exact apart.1 id
    · exact apart.2 date
  · intro free
    obtain ⟨runs, inserted⟩ := Table.insert?_isSome (t := db.runs) (r := r) fun x stored =>
      ⟨fun id => free ⟨x, stored, .inl id⟩, fun date => free ⟨x, stored, .inr date⟩⟩
    refine ⟨{ db with runs }, ?_⟩
    simp [DB.insertRun, inserted]

theorem Inv.aside (inv : Inv backend calls global s) (aside : Aside s t) : Inv backend calls global t := by
  refine ⟨fun i phase => ?_, aside.queued.trans inv.bound, fun i phase => ?_, fun i phase => ?_⟩
  · rw [aside.phase] at phase
    rw [aside.lock]
    exact inv.held i phase
  · rw [aside.phase] at phase
    exact aside.queued.trans_lt (inv.room i phase)
  · rw [aside.phase] at phase
    rw [clashes_iff aside.keys]
    exact inv.fresh i phase

/-- A step of a call that leaves the tables alone and inserts nothing. -/
theorem Inv.become (inv : Inv backend calls global s) {i : Nat} {phase : Phase} {lock : Option Nat}
    (idle : phase ≠ .inserted) (kept : phase = .locked ∨ phase = .missed → lock = some i ∧ backend = .postgres)
    (others : lock = s.lock ∨ s.lock = some i ∨ s.lock = none) :
    Inv backend calls global { s.become i phase with lock } := by
  have elsewhere {j : Nat} (other : j ≠ i) : Function.update s.phase i phase j = s.phase j := Function.update_of_ne other _ _
  refine ⟨fun j busy => ?_, inv.bound, fun j busy => ?_, fun j busy => ?_⟩
  · by_cases own : j = i
    · subst own
      replace busy : phase = .locked ∨ phase = .inserted ∨ phase = .missed := by simpa using busy
      rcases busy with busy | busy | busy
      · exact kept (.inl busy)
      · exact absurd busy idle
      · exact kept (.inr busy)
    · obtain ⟨lock', postgres⟩ := inv.held j (by simpa [elsewhere own] using busy)
      refine ⟨?_, postgres⟩
      rcases others with same | held | free
      · exact same.trans lock'
      · rw [lock', Option.some.injEq] at held
        exact absurd held own
      · rw [lock'] at free
        cases free
  · by_cases own : j = i
    · subst own
      exact absurd (by simpa using busy) idle
    · exact inv.room j (by simpa [elsewhere own] using busy)
  · by_cases own : j = i
    · subst own
      exact absurd (by simpa using busy) idle
    · exact inv.fresh j (by simpa [elsewhere own] using busy)

/-- Inside its transaction a call is the only one that is busy. -/
theorem Inv.alone (inv : Inv backend calls global s) {i : Nat} (mine : s.lock = some i ∨ backend = .sqlite) {j : Nat}
    (busy : s.phase j = .locked ∨ s.phase j = .inserted ∨ s.phase j = .missed) : j = i := by
  obtain ⟨lock, postgres⟩ := inv.held j busy
  rcases mine with held | sqlite
  · rw [lock, Option.some.injEq] at held
    exact held
  · rw [postgres] at sqlite
    cases sqlite

/-- A row arrives: nobody else was about to insert one. -/
theorem Inv.arrives (inv : Inv backend calls global s) {i : Nat} {db : DB} {outcome : Outcome} {lock : Option Nat}
    (mine : s.lock = some i ∨ backend = .sqlite) (room : s.db.queuedCount < global)
    (inserted : s.db.insertRun (calls i).run = .ok db) :
    Inv backend calls global { { s with db }.become i (.done outcome) with lock } := by
  have settled (j : Nat) (busy : Function.update s.phase i (.done outcome) j = .locked ∨
      Function.update s.phase i (.done outcome) j = .inserted ∨
      Function.update s.phase i (.done outcome) j = .missed) : False := by
    by_cases own : j = i
    · subst own
      simp at busy
    · rw [Function.update_of_ne own] at busy
      exact own (inv.alone mine busy)
  refine ⟨fun j busy => (settled j busy).elim, ?_, fun j busy => (settled j (.inr (.inl busy))).elim,
    fun j busy => (settled j (.inr (.inl busy))).elim⟩
  have count := queuedCount_insertRun inserted
  show db.queuedCount ≤ global
  split at count <;> omega

theorem Inv.step (inv : Inv backend calls global s) (taken : Stepped backend calls global s move t) :
    Inv backend calls global t := by
  have result {result : Except StoreError DB} (ok : ∀ after, result = .ok after → Aside s { s with db := after }) :
      Aside s { s with db := result.toOption.getD s.db } := by
    cases result with
    | ok after => exact ok after rfl
    | error e => exact ⟨rfl, rfl, rfl, le_refl _⟩
  cases taken with
  | locks i postgres waiting free =>
    exact inv.become (by simp) (fun _ => ⟨rfl, postgres⟩) (.inr (.inr free))
  | creates i db sqlite waiting admits inserted =>
    simp only [Admits, Call.bounded, Bool.and_eq_true, decide_eq_true_eq] at admits
    exact inv.arrives (.inr sqlite) admits.2.2 inserted
  | inserts i db locked admits inserted =>
    obtain ⟨held, postgres⟩ := inv.held i (.inl locked)
    simp only [Admits, Call.bounded, Bool.and_eq_true, decide_eq_true_eq] at admits
    have only (j : Nat) (busy : Function.update s.phase i Phase.inserted j = .locked ∨
        Function.update s.phase i Phase.inserted j = .inserted ∨ Function.update s.phase i Phase.inserted j = .missed) : j = i := by
      by_contra other
      rw [Function.update_of_ne other] at busy
      exact other (inv.alone (.inl held) busy)
    refine ⟨fun j busy => ?_, inv.bound, fun j busy => admits.2.2, fun j busy => ?_⟩
    · obtain rfl := only j busy
      exact ⟨held, postgres⟩
    · obtain rfl := only j (.inr (.inl busy))
      exact insertRun_ok_iff.mp ⟨db, inserted⟩
  | clashes i e lock ready admits clash released =>
    refine inv.become (by simp) (by simp) ?_
    rcases released with same | ⟨held, _⟩
    · exact .inl same
    · exact .inr (.inl held)
  | misses i phase ready refuses which =>
    refine inv.become ?_ ?_ (.inl rfl)
    · rcases which with rfl | ⟨_, rfl⟩ <;> simp
    · rcases which with rfl | ⟨locked, rfl⟩
      · simp
      · exact fun _ => inv.held i (.inl locked)
  | commits i _ outcome phase how =>
    obtain ⟨held, _⟩ := inv.held i (.inr (.inl phase))
    obtain ⟨db, inserted⟩ := insertRun_ok_iff.mpr (inv.fresh i phase)
    simp only [inserted, Except.toOption, Option.getD_some]
    exact inv.arrives (.inl held) (inv.room i phase) inserted
  | concedes i phase =>
    refine inv.become (by simp) (by simp) ?_
    exact .inr (.inl (inv.held i (.inr (.inr phase))).1)
  | looks i phase => exact inv.become (by simp) (by simp) (.inl rfl)
  | fails i outcome lock busy _ released =>
    refine inv.become (by simp) (by simp) ?_
    rcases released with same | ⟨held, _⟩
    · exact .inl same
    · exact .inr (.inl held)
  | archives dag =>
    refine inv.aside (result fun after ok => ?_)
    obtain ⟨runs, _⟩ := DB.softDeleteDAG_rows ok
    exact ⟨rfl, rfl, by rw [runs], by simp [DB.queuedCount, runs]⟩
  | revives d =>
    obtain ⟨runs, _⟩ := DB.upsertDAG_rows s.db d
    exact inv.aside ⟨rfl, rfl, by rw [runs], by simp [DB.queuedCount, runs]⟩
  | advances run state started finished =>
    refine inv.aside (result fun after ok => ?_)
    exact ⟨rfl, rfl, keys_updateDagRunState ok, queuedCount_updateDagRunState ok⟩

theorem Inv.run {db : DB} {trail : List Taken} (within : db.queuedCount ≤ global)
    (ran : Run backend calls global db trail s) : Inv backend calls global s := by
  induction ran with
  | start =>
    refine ⟨fun i busy => ?_, within, fun i busy => ?_, fun i busy => ?_⟩
    · simp at busy
    · cases busy
    · cases busy
  | step move _ taken ih => exact ih.step (stepped taken)

end Bound

/-! ### The reasons -/

section Reasons

variable {backend : Backend} {calls : Nat → Call} {global : Int} {s t : State} {move : Move}

/-- A finished call takes no further step. -/
theorem Stepped.done (taken : Stepped backend calls global s move t) {i : Nat} {o : Outcome} (done : s.phase i = .done o) :
    t.phase i = .done o ∧ move.call ≠ some i := by
  have other {j : Nat} {phase : Phase} (running : ∀ o, s.phase j ≠ .done o) :
      Function.update s.phase j phase i = .done o ∧ j ≠ i := by
    have apart : j ≠ i := fun same => running o (same ▸ done)
    exact ⟨by rw [Function.update_of_ne apart.symm, done], apart⟩
  cases taken with
  | locks j _ phase _ => simpa [Move.call] using other (j := j) (by simp [phase])
  | creates j _ _ phase _ _ => simpa [Move.call] using other (j := j) (by simp [phase])
  | inserts j _ phase _ _ => simpa [Move.call] using other (j := j) (by simp [phase])
  | clashes j _ _ ready _ _ _ =>
    rcases ready with ⟨_, phase⟩ | ⟨_, phase⟩ <;> simpa [Move.call] using other (j := j) (by simp [phase])
  | misses j _ ready _ _ =>
    rcases ready with ⟨_, phase⟩ | ⟨_, phase⟩ <;> simpa [Move.call] using other (j := j) (by simp [phase])
  | commits j _ _ phase how =>
    rcases how with ⟨rfl, _⟩ | ⟨rfl, _⟩ <;> simpa [Move.call] using other (j := j) (by simp [phase])
  | concedes j phase => simpa [Move.call] using other (j := j) (by simp [phase])
  | looks j phase => simpa [Move.call] using other (j := j) (by simp [phase])
  | fails j _ _ running _ _ => simpa [Move.call] using other (j := j) running
  | archives _ => exact ⟨done, by simp [Move.call]⟩
  | revives _ => exact ⟨done, by simp [Move.call]⟩
  | advances _ _ _ _ => exact ⟨done, by simp [Move.call]⟩

/-- A step of a call changes the tables only when it creates the run. -/
theorem Stepped.unchanged (taken : Stepped backend calls global s move t) {i : Nat} (own : move.call = some i) :
    t.db = s.db ∨ t.phase i = .done .created ∨ t.phase i = .done .failed := by
  cases taken with
  | creates j _ _ _ _ _ =>
    obtain rfl : j = i := by simpa [Move.call] using own
    exact .inr (.inl (by simp))
  | commits j _ _ _ how =>
    rcases how with ⟨rfl, rfl⟩ | ⟨rfl, rfl⟩
    · obtain rfl : j = i := by simpa [Move.call] using own
      exact .inr (.inl (by simp))
    · obtain rfl : j = i := by simpa [Move.call] using own
      exact .inr (.inr (by simp))
  | archives _ => cases own
  | revives _ => cases own
  | advances _ _ _ _ => cases own
  | _ => exact .inl rfl

/-- A bound was reached when the call was to insert. -/
def BoundReached (calls : Nat → Call) (global : Int) (i : Nat) (trail : List Taken) : Prop :=
  ∃ step ∈ trail, step.move = .insert i ∧ (calls i).bounded global step.before.db = false

/-- What the phase of a call says about its DAG, its run and the bounds. -/
def Justified (calls : Nat → Call) (global : Int) (trail : List Taken) (s : State) (i : Nat) : Prop :=
  match s.phase i with
  | .waiting | .locked => True
  | .inserted | .done .created => s.db.dagActive (calls i).run.dagID = true
  | .missed | .looking => s.db.dagActive (calls i).run.dagID = true → BoundReached calls global i trail
  | .done .alreadyExists => s.db.dagActive (calls i).run.dagID = true ∧ Clashes s.db (calls i).run
  | .done .notFound => s.db.dagActive (calls i).run.dagID = false
  | .done .queueFull => s.db.dagActive (calls i).run.dagID = true ∧ BoundReached calls global i trail
  | .done .failed => False

/-- Without archiving and failures, a step keeps the DAGs and loses no run. -/
theorem Stepped.keeps (taken : Stepped backend calls global s move t) (quiet : move.isQuiet = true) :
    t.db.dags = s.db.dags ∧ ∀ r, Clashes s.db r → Clashes t.db r := by
  have inserts {r : DagRun} {db : DB} (inserted : s.db.insertRun r = .ok db) :
      db.dags = s.db.dags ∧ ∀ r, Clashes s.db r → Clashes db r := by
    obtain ⟨_, rows, _, _, _, _, dags, _⟩ := DB.insertRun_ok inserted
    refine ⟨dags, ?_⟩
    rintro r ⟨x, stored, same⟩
    refine ⟨x, ?_, same⟩
    rw [Table.mem_def, rows]
    exact List.mem_append_left _ stored
  cases taken with
  | creates _ _ _ _ _ inserted => exact inserts inserted
  | commits i _ _ _ _ =>
    cases inserted : s.db.insertRun (calls i).run with
    | ok db => exact inserts inserted
    | error e => exact ⟨rfl, fun _ clash => clash⟩
  | fails _ _ _ _ _ _ => cases quiet
  | archives _ => cases quiet
  | revives _ => cases quiet
  | advances run state started finished =>
    cases written : s.db.updateDagRunState run state started finished with
    | error e => exact ⟨rfl, fun _ clash => clash⟩
    | ok db =>
      obtain ⟨_, _, _, _, _, _, _, dags, _⟩ := DB.updateDagRunState_ok written
      exact ⟨dags, fun r => (clashes_iff (keys_updateDagRunState written) r).mpr⟩
  | _ => exact ⟨rfl, fun _ clash => clash⟩

theorem dagActive_eq {db after : DB} (dags : after.dags = db.dags) (dag : DagID) : after.dagActive dag = db.dagActive dag := by
  rw [DB.dagActive, DB.dagActive, dags]

theorem BoundReached.later {i : Nat} {trail : List Taken} (reached : BoundReached calls global i trail) (more : List Taken) :
    BoundReached calls global i (trail ++ more) := by
  obtain ⟨step, member, rest⟩ := reached
  exact ⟨step, List.mem_append_left _ member, rest⟩

/-- A call that did not step is as justified as it was. -/
theorem Justified.elsewhere {trail more : List Taken} {i : Nat} (justified : Justified calls global trail s i)
    (phase : t.phase i = s.phase i) (dags : t.db.dags = s.db.dags) (kept : ∀ r, Clashes s.db r → Clashes t.db r) :
    Justified calls global (trail ++ more) t i := by
  unfold Justified at justified ⊢
  rw [phase, dagActive_eq dags]
  split at justified
  · exact justified
  · exact justified
  · exact justified
  · exact justified
  · exact fun active => (justified active).later more
  · exact fun active => (justified active).later more
  · exact ⟨justified.1, kept _ justified.2⟩
  · exact justified
  · exact ⟨justified.1, justified.2.later more⟩
  · exact justified

/-- A step concerns one call at most. -/
theorem Stepped.elsewhere (taken : Stepped backend calls global s move t) {i : Nat} (other : move.call ≠ some i) :
    t.phase i = s.phase i := by
  have apart {j : Nat} {phase : Phase} (call : move.call = some j) : Function.update s.phase j phase i = s.phase i :=
    Function.update_of_ne (fun same : i = j => other (call.trans (congrArg some same.symm))) _ _
  cases taken with
  | commits j _ _ _ how => rcases how with ⟨rfl, _⟩ | ⟨rfl, _⟩ <;> exact apart rfl
  | archives _ => rfl
  | revives _ => rfl
  | advances _ _ _ _ => rfl
  | _ => exact apart rfl

theorem Justified.step {trail : List Taken} {i : Nat} (justified : Justified calls global trail s i)
    (taken : Stepped backend calls global s move t) (quiet : move.isQuiet = true) :
    Justified calls global (trail ++ [⟨s, move, t⟩]) t i := by
  obtain ⟨dags, kept⟩ := taken.keeps quiet
  by_cases own : move.call = some i
  case neg => exact justified.elsewhere (taken.elsewhere own) dags kept
  have active := dagActive_eq dags (calls i).run.dagID
  unfold Justified at justified ⊢
  cases taken with
  | locks j _ _ _ =>
    obtain rfl : j = i := by simpa [Move.call] using own
    simp
  | creates j _ _ _ admits _ =>
    obtain rfl : j = i := by simpa [Move.call] using own
    rw [active]
    simpa using admits.1
  | inserts j _ _ admits _ =>
    obtain rfl : j = i := by simpa [Move.call] using own
    rw [active]
    simpa using admits.1
  | clashes j e _ _ admits clash _ =>
    obtain rfl : j = i := by simpa [Move.call] using own
    rw [active]
    have taken : Clashes s.db (calls j).run := by
      by_contra free
      obtain ⟨db, inserted⟩ := insertRun_ok_iff.mpr free
      rw [inserted] at clash
      cases clash
    simpa using ⟨admits.1, taken⟩
  | misses j phase _ refuses which =>
    obtain rfl : j = i := by simpa [Move.call] using own
    have reached (live : s.db.dagActive (calls j).run.dagID = true) :
        BoundReached calls global j (trail ++ [⟨s, .insert j, s.become j phase⟩]) := by
      refine ⟨_, List.mem_append_right _ (List.mem_singleton_self _), rfl, ?_⟩
      by_contra bounded
      exact refuses ⟨live, by simpa using bounded⟩
    rw [active]
    rcases which with rfl | ⟨_, rfl⟩ <;> simpa using reached
  | commits j _ outcome phase how =>
    rcases how with ⟨rfl, rfl⟩ | ⟨rfl, rfl⟩
    · obtain rfl : j = i := by simpa [Move.call] using own
      rw [phase] at justified
      rw [active]
      simpa using justified
    · cases quiet
  | concedes j phase =>
    obtain rfl : j = i := by simpa [Move.call] using own
    rw [phase] at justified
    rw [active]
    simpa using fun live => (justified live).later _
  | looks j phase =>
    obtain rfl : j = i := by simpa [Move.call] using own
    rw [phase] at justified
    rw [active]
    cases live : s.db.dagActive (calls j).run.dagID with
    | true => simpa using (justified live).later _
    | false => simp
  | fails _ _ _ _ _ _ => cases quiet
  | archives _ => cases own
  | revives _ => cases own
  | advances _ _ _ _ => cases own

end Reasons

end Cronova.Store.Admission
