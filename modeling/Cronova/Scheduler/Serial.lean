import Cronova.Scheduler.Exclusion

/-! Serial execution policies: how many runs of such a DAG run at a time.

Only the promotion of a queued run goes through the gate of the policy; a retry or a mark
makes a run running without it. A DAG has one running run at most in every run of the process
in which these come when no other run of the DAG runs or is about to.
-/

set_option autoImplicit false

namespace Cronova.Scheduler

open Model Store Process

/-- No two runs of the DAG are running. -/
def OneRunning (dag : DagID) (db : DB) : Prop :=
  ∀ id id' row row', db.run? id = some row → db.run? id' = some row' → row.dagID = dag → row'.dagID = dag →
    row.state = .running → row'.state = .running → id = id'

def NoneRunning (dag : DagID) (db : DB) : Prop := ∀ id row, db.run? id = some row → row.dagID = dag → row.state ≠ .running

/-- A tick that has seen no run of the DAG running and has a queued run of it to start. -/
def View.mayStart (v : View) (dag : DagID) : Prop :=
  v.promoting = true ∧ dag ∉ v.seen ∧ ∃ run ∈ v.listed, run.dagID = dag ∧ run.state = .queued

section Views

variable {v : View} {o : Op} {reply : o.Reply} {dag : DagID}

theorem View.mem_entries_after {entry : DagID × Option CachedDAG} (member : entry ∈ (v.after o reply).entries) :
    entry ∈ v.entries ∨ ∃ dag cached, (⟨o, reply⟩ : Issued statements) = ⟨.cachedDAG dag, cached⟩ ∧ entry = (dag, cached) := by
  cases o with
  | cachedDAG dag => exact (List.mem_cons.mp member).symm.imp_right fun same => ⟨dag, reply, rfl, same⟩
  | _ => exact .inl member

theorem World.perform_cachedDAG {tid : Nat} {a : Answer} {w w' : World} {entry : Option CachedDAG} {spawned : List Request}
    (performed : World.perform tid (.cachedDAG dag) a w = some (entry, w', spawned)) : entry = w.cached dag := by
  cases performed
  rfl

/-- Apart from the listing of the running runs, no statement makes a tick ready to start a run. -/
theorem View.mayStart_after (may : (v.after o reply).mayStart dag) :
    v.mayStart dag ∨ ∃ state rows, (⟨o, reply⟩ : Issued statements) = ⟨.listDagRunsByState state, rows⟩ := by
  obtain ⟨promoting, unseen, run, listed, own⟩ := may
  rcases View.after_promoting promoting with before | ⟨state, rfl⟩
  · cases o with
    | listDagRunsByState state => exact .inr ⟨state, reply, rfl⟩
    | listDagRunsByStateLimited => cases promoting
    | updateDagRunState id state started finished =>
      exact .inl ⟨before, fun seen => unseen (View.seen_updateDagRunState_mono seen id state started finished reply), run, listed, own⟩
    | _ => exact .inl ⟨before, unseen, run, listed, own⟩
  · exact .inr ⟨state, reply, rfl⟩

/-- A retry or a mark is no promotion. -/
theorem View.Reactivates.unpromoted {id : RunID} (reactivates : v.Reactivates id) : v.promotion id = none := by
  cases promotes : v.promotion id with
  | none => rfl
  | some run =>
    obtain ⟨inside, _, _, unread⟩ := View.promotion_some promotes
    rcases reactivates with ⟨_, _, row, read, _⟩ | ⟨task, target, _, marks⟩
    · cases unread.symm.trans read
    · cases inside.symm.trans marks

end Views

section Rows

variable {db after : DB} {dag : DagID}

/-- Every run of the DAG that is running was running before. -/
def Calmer (dag : DagID) (db after : DB) : Prop :=
  ∀ id row', after.run? id = some row' → row'.dagID = dag → row'.state = .running →
    ∃ row, db.run? id = some row ∧ row.dagID = dag ∧ row.state = .running

theorem Calmer.one (calmer : Calmer dag db after) (one : OneRunning dag db) : OneRunning dag after := by
  intro id id' row row' found found' own own' runs runs'
  obtain ⟨old, stored, was, ran⟩ := calmer id row found own runs
  obtain ⟨old', stored', was', ran'⟩ := calmer id' row' found' own' runs'
  exact one id id' old old' stored stored' was was' ran ran'

theorem Calmer.none (calmer : Calmer dag db after) (none : NoneRunning dag db) : NoneRunning dag after := by
  intro id row found own runs
  obtain ⟨old, stored, was, ran⟩ := calmer id row found own runs
  exact none id old stored was ran

/-- The write that makes a run running changes nothing for another DAG. -/
theorem Calmer.of_running {id : RunID} {row : DagRun} {started finished : Option Calendar.Time}
    (rows : ∀ x, after.run? x = if x = id then some (DB.setRunState .running started finished row) else db.run? x)
    (other : row.dagID ≠ dag) : Calmer dag db after := by
  intro x row' found own runs
  rw [rows] at found
  split at found
  · cases found
    exact absurd own other
  · exact ⟨row', found, own, runs⟩

/-- Only the write of `running` makes a run running. -/
theorem Footprint.calmer {env : Env} {tid : Nat} {o : Op} {a : Answer} {w w' : World} {reply : o.Reply} {spawned : List Request}
    {v : View} (permitted : Footprint env o v) (performed : World.perform tid o a w = some (reply, w', spawned))
    (other : ∀ id started finished, o ≠ .updateDagRunState id .running started finished) : Calmer dag w.db w'.db := by
  intro id row' found own runs
  rcases World.perform_run? performed id with same | changed
  · exact ⟨row', same ▸ found, own, runs⟩
  · cases o with
    | createDagRunBounded run global =>
      obtain ⟨_, _, now⟩ := changed
      cases found.symm.trans now
      cases permitted.1.symm.trans runs
    | createManualDagRunBounded run perDAG global =>
      obtain ⟨_, _, now⟩ := changed
      cases found.symm.trans now
      cases permitted.1.symm.trans runs
    | updateDagRunState run state started finished =>
      obtain ⟨_, row, _, _, now⟩ := changed
      cases found.symm.trans now
      cases runs
      exact absurd rfl (other run started finished)
    | updateDagRunSuccess run started finished =>
      obtain ⟨_, row, _, now⟩ := changed
      cases found.symm.trans now
      cases runs
    | updateDagRunDefinition run yaml hash =>
      obtain ⟨_, row, stored, now⟩ := changed
      cases found.symm.trans now
      exact ⟨row, stored, own, runs⟩
    | _ => exact changed.elim

end Rows

/-- A run of the DAG is made running past the gate only while no other run of it runs or is about
to be started, and the listing against which the gate counts is served. -/
def SerialOp (dag : DagID) (p : State) (v : View) (a : Answer) : Op → Prop
  | .updateDagRunState id .running _ _ => v.promotion id = none → ∀ row, p.state.db.run? id = some row → row.dagID = dag →
    (∀ other r, p.state.db.run? other = some r → r.dagID = dag → r.state = .running → other = id) ∧
      ∀ t u, live p t = some u → ¬ u.mayStart dag
  | .listDagRunsByState _ => a.served = true
  | _ => True

/-- The DAG is serial and stays so, and every statement is one that `SerialOp` allows. -/
def SerialStep (env : Env) (dag : DagID) (p : State) (move : Step) : Prop :=
  View.serial (((scheduler env).step p move).state.cached dag) ∧ match move with
    | .step tid a => ∀ o v, p.next tid = some o → live p tid = some v → SerialOp dag p v a o
    | _ => True

/-- The invariant: a tick that may start a run of the DAG does so while none runs. -/
structure SerialDAG (dag : DagID) (p : State) : Prop where
  solo : Solo p
  listing : Listing p
  entries : ∀ t v entry, live p t = some v → (dag, entry) ∈ v.entries → View.serial entry
  waits : ∀ t v, live p t = some v → v.mayStart dag → NoneRunning dag p.state.db
  one : OneRunning dag p.state.db
  cached : View.serial (p.state.cached dag)

section Step

variable {env : Env} {dag : DagID} {p : State} {w : World} {tid : Nat} {a : Answer} {v : View} {o : Op} {reply : o.Reply}
  {spawned : List Request}

/-- The write of `running`: promoted by the tick or, past the gate, while nothing else runs. -/
theorem SerialDAG.runs (kept : SerialDAG dag p) {id : RunID} {started finished : Option Calendar.Time}
    {reply : Except StoreError Unit} (issuer : live p tid = some v)
    (permitted : Footprint env (.updateDagRunState id .running started finished) v)
    (performed : World.perform tid (.updateDagRunState id .running started finished) a p.state = some (reply, w, spawned))
    (allowed : SerialOp dag p v a (.updateDagRunState id .running started finished)) :
    OneRunning dag w.db ∧
      ∀ t u, live p t = some u → u.mayStart dag →
        (t = tid → (v.after (.updateDagRunState id .running started finished) reply).mayStart dag) → NoneRunning dag w.db := by
  obtain ⟨_, ⟨db, written, rfl, after⟩ | ⟨_, same⟩⟩ := World.write_some performed
  · subst after
    obtain ⟨row, found, legal, rows, _⟩ := DB.updateDagRunState_ok written
    by_cases own : row.dagID = dag
    · have idle : row.state ≠ .running := by
        intro runs
        rw [runs] at legal
        simp [legalPriorRunStates] at legal
      -- one run of the DAG runs afterwards, if no other did before
      have alone (others : ∀ other r, p.state.db.run? other = some r → r.dagID = dag → r.state = .running → other = id) :
          OneRunning dag db := by
        have only : ∀ x r, db.run? x = some r → r.dagID = dag → r.state = .running → x = id := by
          intro x r found' own' runs
          rw [rows] at found'
          split at found'
          · assumption
          · exact others x r found' own' runs
        intro x x' r r' found found' own own' runs runs'
        rw [only x r found own runs, only x' r' found' own' runs']
      cases promotes : v.promotion id with
      | none =>
        obtain ⟨others, nobody⟩ := allowed promotes row found own
        exact ⟨alone others, fun t u alive may _ => absurd may (nobody t u alive)⟩
      | some run =>
        obtain ⟨inside, ofRun, queued, _⟩ := View.promotion_some promotes
        rcases permitted with ⟨run', promotes', ⟨_, origin, _⟩, promoting, entry, known, gate⟩ | reactivates
        · obtain rfl := Option.some.inj (promotes.symm.trans promotes')
          have member := kept.listing.processed tid v run issuer inside
          obtain ⟨row', found', same⟩ := kept.listing.listed tid v run issuer member
          rw [ofRun, found] at found'
          cases found'
          have ofDAG : run.dagID = dag := same.symm.trans own
          subst ofDAG
          have unseen := gate (kept.entries tid v entry issuer known)
          have none := kept.waits tid v issuer ⟨promoting, unseen, run, member, rfl, queued⟩
          refine ⟨alone fun other r found own runs => absurd runs (none other r found own), fun t u alive may after => ?_⟩
          -- the tick that has started the run counts it; there is no other tick
          have same : t = tid := kept.solo t tid u v alive issuer (by simp [kept.listing.loop t u alive may.1, Request.isLoop])
            (by simp [origin, Request.isLoop])
          refine absurd ?_ (after same).2.1
          simp [View.after, View.learns, promotes]
        · simp [reactivates.unpromoted] at promotes
    · have calmer := Calmer.of_running rows own
      exact ⟨calmer.one kept.one, fun t u alive may _ => calmer.none (kept.waits t u alive may)⟩
  · rw [same]
    exact ⟨kept.one, fun t u alive may _ => kept.waits t u alive may⟩

/-- The listing of the running runs says which DAGs have none. -/
theorem seen_of_listing {state : RunState} {rows : Except StoreError (List DagRun)} (running : state = .running)
    (served : a.served = true) (performed : World.perform tid (.listDagRunsByState state) a p.state = some (rows, w, spawned))
    (unseen : dag ∉ (v.after (.listDagRunsByState state) rows).seen) : NoneRunning dag p.state.db := by
  subst running
  have answered : rows = .ok (p.state.db.listDagRunsByState .running) := by
    have read := World.read_served (w := p.state) (x := .ok (p.state.db.listDagRunsByState .running)) served
    rw [World.perform, read] at performed
    cases performed
    rfl
  subst answered
  intro id row found own runs
  have stored := (DB.run?_some found).1
  exact unseen (List.mem_map.mpr ⟨row, DB.mem_listDagRunsByState.mpr ⟨stored, runs⟩, own⟩)

theorem SerialDAG.performs (kept : SerialDAG dag p) (allowed : SerialOp dag p v a o) (issuer : live p tid = some v) (permitted : Footprint env o v)
    (performed : World.perform tid o a p.state = some (reply, w, spawned)) :
    OneRunning dag w.db ∧
      (∀ t u, live p t = some u → u.mayStart dag → (t = tid → (v.after o reply).mayStart dag) → NoneRunning dag w.db) ∧
      ((v.after o reply).mayStart dag → NoneRunning dag w.db) := by
  by_cases runs : ∃ id started finished, o = .updateDagRunState id .running started finished
  · obtain ⟨id, started, finished, rfl⟩ := runs
    obtain ⟨one, waits⟩ := kept.runs issuer permitted performed allowed
    refine ⟨one, waits, fun may => ?_⟩
    rcases View.mayStart_after may with before | ⟨state, rows, same⟩
    · exact waits tid v issuer before fun _ => may
    · cases same
  · have calmer : Calmer dag p.state.db w.db :=
      permitted.calmer performed fun id started finished same => runs ⟨id, started, finished, same⟩
    refine ⟨calmer.one kept.one, fun t u alive may _ => calmer.none (kept.waits t u alive may), fun may => calmer.none ?_⟩
    rcases View.mayStart_after may with before | ⟨state, rows, same⟩
    · exact kept.waits tid v issuer before
    · cases same
      exact seen_of_listing permitted.2 allowed performed may.2.1

theorem SerialDAG.step {move : Step} (kept : SerialDAG dag p) (allowed : SerialStep env dag p move)
    (stepped : Stepped env p move ((scheduler env).step p move)) : SerialDAG dag ((scheduler env).step p move) := by
  obtain ⟨serial, allowed⟩ := allowed
  have solo := kept.solo.step stepped
  have listing := kept.listing.step stepped
  generalize (scheduler env).step p move = q at serial solo listing stepped ⊢
  cases stepped with
  | idle => exact kept
  | starts admitted state threads history =>
    -- a goroutine that has just started has neither listed nor read anything
    refine ⟨solo, listing, fun t v entry found member => ?_, fun t v found may => ?_, state ▸ kept.one, serial⟩
    · rcases threads t v found with old | ⟨_, rfl⟩
      · exact kept.entries t v entry old member
      · cases member
    · rcases threads t v found with old | ⟨_, rfl⟩
      · exact state ▸ kept.waits t v old may
      · cases may.1
  | restarts state threads history =>
    refine ⟨solo, listing, fun t v entry found member => ?_, fun t v found may => ?_, ?_, serial⟩
    · cases (threads t v found).2
      cases member
    · cases (threads t v found).2
      cases may.1
    · rw [state]
      exact kept.one
  | @performs _ tid a v o reply spawned next issuer permitted honest performed threads history =>
    obtain ⟨one, waits, own⟩ := kept.performs (allowed o v next issuer) issuer permitted performed
    refine ⟨solo, listing, fun t u entry found member => ?_, fun t u found may => ?_, one, serial⟩
    · rcases threads t u found with ⟨rfl, rfl⟩ | ⟨_, old⟩ | ⟨_, task, epoch, _, _, rfl⟩
      · rcases View.mem_entries_after member with before | ⟨looked, cached, same, pair⟩
        · exact kept.entries t v entry issuer before
        · cases same
          cases pair
          exact World.perform_cachedDAG performed ▸ kept.cached
      · exact kept.entries t u entry old member
      · cases member
    · rcases threads t u found with ⟨rfl, rfl⟩ | ⟨apart, old⟩ | ⟨_, task, epoch, _, _, rfl⟩
      · exact own may
      · exact waits t u old may fun same => absurd same apart
      · cases may.1

end Step

/-- A DAG with a serial policy has one running run at most, in every state that steps of the
process lead to from one in which it has. -/
theorem serial_dag_one_running (env : Env) (dag : DagID) (w : World) (serial : View.serial (w.cached dag))
    (one : OneRunning dag w.db) {q : State} (reaches : (scheduler env).Reaches (SerialStep env dag) (idle w) q) :
    OneRunning dag q.state.db := by
  have start : SerialDAG dag (idle w) :=
    ⟨idle_solo w, idle_listing w, fun _ _ _ found => (idle_empty found).elim, fun _ _ found => (idle_empty found).elim, one, serial⟩
  exact (Reaches.keeps reaches (idle_traced w) start fun p move kept allowed stepped => kept.step allowed stepped).one

section Witness

/-- A workflow whose runs wait for one another. -/
def serialLoad : DAG where
  dagID := "etl"
  definitionYAML := "load"
  executionPolicy := .serialWait
  tasks := [{ id := "load" }]

def loadEnv : Env where
  parse yaml := if yaml = "load" then some serialLoad else none
  hash yaml := yaml
  shift _ _ _ := none
  parseSchedule _ _ := none
  decodePayload _ := none

/-- Its run that has failed, with the failed load. -/
def failedRun : DagRun where
  runID := .manual "etl" 0
  dagID := "etl"
  logicalDate := 0
  state := .failed
  triggerType := .manual
  definitionYAML := "load"
  definitionHash := "load"

theorem serialLoad_distinct : (([⟨serialLoad, none⟩] : List CachedDAG).map CachedDAG.id).Pairwise distinctIDs :=
  List.pairwise_singleton _ _

/-- The failed run and a later one in the given state. -/
def serialWorld (state : RunState) : World where
  db := { DB.empty with
    runs := ⟨[failedRun, { failedRun with runID := .manual "etl" 1, logicalDate := 1, state }], by
      simp [failedRun, runKey, RunKey.apart]⟩
    taskInstances := ⟨[{ runID := .manual "etl" 0, taskID := "load", state := .failed, tryNumber := 1 }], by
      simp [InstanceKey.apart]⟩ }
  cache := ⟨[⟨serialLoad, none⟩], serialLoad_distinct⟩

theorem serialWorld_one (state : RunState) : OneRunning "etl" (serialWorld state).db := by
  have only (id : RunID) (row : DagRun) (found : (serialWorld state).db.run? id = some row) (runs : row.state = .running) :
      id = .manual "etl" 1 := by
    obtain ⟨member, rfl⟩ := DB.run?_some found
    simp only [serialWorld, Table.mem_def, List.mem_cons, List.not_mem_nil, or_false] at member
    rcases member with rfl | rfl
    · cases runs
    · rfl
  intro id id' row row' found found' _ _ runs runs'
  rw [only id row found runs, only id' row' found' runs']

/-- A tick up to the start of the queued run. -/
def startingTick : List Step := .start .tick :: List.replicate 15 (.step 0 {})

/-- The tick starts the queued run, and it is the only one that runs. -/
theorem queued_run_started : OneRunning "etl" ((scheduler loadEnv).run (idle (serialWorld .queued)) startingTick).state.db ∧
    (((scheduler loadEnv).run (idle (serialWorld .queued)) startingTick).state.db.run? (.manual "etl" 1)).map (·.state) =
      some .running := by
  have follows : (scheduler loadEnv).Follows (SerialStep loadEnv "etl") (idle (serialWorld .queued)) startingTick := by
    refine ⟨⟨⟨_, rfl, by decide⟩, trivial⟩, ?_⟩
    -- the listing is served, and the write of `running` is a promotion
    iterate 15
      refine ⟨⟨⟨_, rfl, by decide⟩, ?_⟩, ?_⟩
      · rintro o v ⟨⟩ ⟨⟩
        first
          | trivial
          | rfl
          | exact nofun
    trivial
  refine ⟨?_, rfl⟩
  exact serial_dag_one_running loadEnv "etl" _ ⟨_, rfl, by decide⟩ (serialWorld_one .queued) (follows.reaches (.refl _))

/-- The loop, and the operators' requests about runs. -/
def Request.onRuns : Request → Bool
  | .tick | .triggerManual _ _ _ | .backfill _ _ _ | .cancelRun _ | .retryRun _ | .retryTask _ _ | .markTask _ _ _
  | .markRun _ _ => true
  | _ => false

/-- These requests only, with a store that serves every statement. -/
def RunRequests (_ : State) : Step → Prop
  | .step _ a => a.served = true
  | .start request => request.onRuns = true
  | .restart _ => False

def retrySteps : List Step := .start (.retryRun (.manual "etl" 0)) :: List.replicate 11 (.step 0 {})

/-- The retry of a failed run of a serial DAG makes it running beside the one that runs. -/
theorem retry_beside_running_run : ¬ ∀ (env : Env) (dag : DagID) (w : World), View.serial (w.cached dag) → OneRunning dag w.db →
    ∀ q, (scheduler env).Reaches RunRequests (idle w) q → OneRunning dag q.state.db := by
  intro claim
  have follows : (scheduler loadEnv).Follows RunRequests (idle (serialWorld .running)) retrySteps := by
    refine ⟨rfl, ?_⟩
    iterate 11 refine ⟨rfl, ?_⟩
    trivial
  have one := claim loadEnv "etl" (serialWorld .running) ⟨_, rfl, by decide⟩ (serialWorld_one .running) _
    (follows.reaches (.refl _))
  have same := one (.manual "etl" 0) (.manual "etl" 1) _ _ rfl rfl rfl rfl rfl rfl
  cases same

end Witness

end Cronova.Scheduler
