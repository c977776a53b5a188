import Cronova.Scheduler.Priority

/-! `max_active_tasks` in an admission pass: a limit that one task brings along is spent on the
tasks of every version of its DAG. -/

set_option autoImplicit false

namespace Cronova.Scheduler

open Model Store Process

/-! ### What counts against a DAG's limit -/

section Occupancy

variable {db after : DB} {dag : DagID}

/-- What attempts do to the store while the pass holds the lock: runs stay with their DAG, and
attempts end. -/
structure Releases (db after : DB) : Prop where
  dags : ∀ run, (after.run? run).map (·.dagID) = (db.run? run).map (·.dagID)
  came : ∀ row ∈ after.taskInstances, DB.occupies row = true → ∃ old ∈ db.taskInstances,
    DB.occupies old = true ∧ old.key = row.key

theorem Releases.refl (db : DB) : Releases db db where
  dags _ := rfl
  came row member occupies := ⟨row, member, occupies, rfl⟩

theorem Releases.trans {mid : DB} (first : Releases db mid) (second : Releases mid after) : Releases db after where
  dags run := (second.dags run).trans (first.dags run)
  came row member occupies := by
    obtain ⟨mid, between, occupied, key⟩ := second.came row member occupies
    obtain ⟨old, known, occupied', key'⟩ := first.came mid between occupied
    exact ⟨old, known, occupied', key'.trans key⟩

/-- The instance belongs to a run of the DAG. -/
def DB.ofDag (db : DB) (dag : DagID) (run : RunID) : Bool := (db.run? run).any (·.dagID == dag)

theorem DB.ofDag_congr {run : RunID} (same : (after.run? run).map (·.dagID) = (db.run? run).map (·.dagID)) (dag : DagID) :
    DB.ofDag after dag run = DB.ofDag db dag run := by
  unfold DB.ofDag
  cases found : after.run? run <;> cases known : db.run? run <;> simp_all

theorem Releases.countActive (releases : Releases db after) : after.countActiveTaskInstances ≤ db.countActiveTaskInstances := by
  apply Int.ofNat_le.mpr
  apply Table.countP_le_countP
  intro row member occupies
  exact releases.came row member occupies

theorem Releases.countDag (releases : Releases db after) (dag : DagID) :
    after.countActiveTasksForDag dag ≤ db.countActiveTasksForDag dag := by
  apply Int.ofNat_le.mpr
  apply Table.countP_le_countP
  intro row member counted
  obtain ⟨own, occupies⟩ := Bool.and_eq_true_iff.mp counted
  obtain ⟨old, known, occupied, key⟩ := releases.came row member occupies
  have run : old.runID = row.runID := congrArg InstanceKey.run key
  have own' : DB.ofDag db dag old.runID = true := by
    rw [run, ← DB.ofDag_congr (releases.dags row.runID)]
    exact own
  exact ⟨old, known, Bool.and_eq_true_iff.mpr ⟨own', occupied⟩, key⟩

/-- A launch counts against one DAG. -/
theorem countDag_writeInstance (db : DB) (ti : TaskInstance) (guard : TaskInstance → Bool) (dag : DagID) :
    (db.writeInstance ti guard).countActiveTasksForDag dag ≤
      db.countActiveTasksForDag dag + if DB.ofDag db dag ti.runID then 1 else 0 := by
  split
  · apply Int.ofNat_le.mpr
    refine Table.countP_modify_le_succ _ _ (DB.key_rewrite ti) _ (k := ti.key) ?_
    intro row chosen
    exact beq_iff_eq.mp (Bool.and_eq_true_iff.mp chosen).1
  · rename_i other
    rw [Int.add_zero]
    apply Int.ofNat_le.mpr
    refine Table.countP_modify_le _ _ (DB.key_rewrite ti) _ ?_
    intro row chosen
    have own : row.key = ti.key := beq_iff_eq.mp (Bool.and_eq_true_iff.mp chosen).1
    have run : (DB.rewrite ti row).runID = ti.runID := congrArg InstanceKey.run ((DB.key_rewrite ti row).trans own)
    have none : DB.ofDag db dag (DB.rewrite ti row).runID = false := by
      rw [run]
      simpa using other
    exact Bool.and_eq_false_iff.mpr (.inl none)

end Occupancy

/-! ### The pass and its environment -/

section Limiting

variable (env : Env) (ready : List ReadyTask)

/-- The candidates of the DAG that bring no limit along. -/
def unlimitedOf (dag : DagID) (tasks : List ReadyTask) : Nat :=
  tasks.countP fun rt => rt.run.dagID == dag && decide (rt.dagMaxTasks ≤ 0)

/-- The candidates whose worker group is up: the others are left out before anything is counted. -/
def reached (up : String → Bool) (tasks : List ReadyTask) : List ReadyTask :=
  tasks.filter fun rt => rt.t.workerGroup == "" || up rt.t.workerGroup

/-- Whichever worker groups are up, no limit is below the one that is spent in its place: that of the
DAG's first limited candidate, with the candidates that have none and that stand between the two. -/
def LimitsAgree : Prop :=
  ∀ up earlier a between c later, reached up (admissionOrder ready) = earlier ++ a :: (between ++ c :: later) →
    (∀ x ∈ earlier, x.run.dagID = c.run.dagID → x.dagMaxTasks ≤ 0) →
    a.run.dagID = c.run.dagID → 0 < a.dagMaxTasks → 0 < c.dagMaxTasks →
    min (a.dagMaxTasks + (unlimitedOf c.run.dagID between : Int)) env.maxConcurrentTasks ≤ c.dagMaxTasks

/-- The store gives every candidate's instance to a run of the candidate's DAG. -/
def Belong (db : DB) : Prop := ∀ rt ∈ ready, (db.run? rt.ti.runID).map (·.dagID) = some rt.run.dagID

variable {env ready} {db after : DB} {dag : DagID} {rt : ReadyTask}

theorem Belong.releases (belong : Belong ready db) (releases : Releases db after) : Belong ready after :=
  fun rt member => (releases.dags rt.ti.runID).trans (belong rt member)

theorem Belong.ofDag (belong : Belong ready db) (member : rt ∈ ready) (dag : DagID) :
    DB.ofDag db dag rt.ti.runID = decide (rt.run.dagID = dag) := by
  have known := belong rt member
  unfold DB.ofDag
  cases found : db.run? rt.ti.runID with
  | none => simp [found] at known
  | some run =>
    rw [found] at known
    rw [Option.any_some, ← Option.some.inj known]
    exact beq_eq_decide _ _

end Limiting

/-! ### Verification of the pass -/

section Allowance

variable {env : Env} {ready passed : List ReadyTask} {dag : DagID} {rt : ReadyTask} {db after : DB} {b : Budgets} {m n : Int}

/-- The first limit among these candidates, with those after it that have none, covers `n` tasks. -/
def Grants (passed : List ReadyTask) (dag : DagID) (n : Int) : Prop :=
  ∃ before a between, passed = before ++ a :: between ∧ (∀ x ∈ before, x.run.dagID = dag → x.dagMaxTasks ≤ 0) ∧
    a.run.dagID = dag ∧ 0 < a.dagMaxTasks ∧ n ≤ a.dagMaxTasks + unlimitedOf dag between

theorem Grants.mono (grants : Grants passed dag n) (less : m ≤ n) : Grants passed dag m := by
  obtain ⟨before, a, between, split, first, own, limited, enough⟩ := grants
  exact ⟨before, a, between, split, first, own, limited, less.trans enough⟩

theorem unlimitedOf_append (dag : DagID) (tasks : List ReadyTask) (rt : ReadyTask) :
    unlimitedOf dag (tasks ++ [rt]) = unlimitedOf dag tasks + if rt.run.dagID = dag ∧ rt.dagMaxTasks ≤ 0 then 1 else 0 := by
  simp only [unlimitedOf, List.countP_append, List.countP_singleton]
  simp

/-- One more candidate without a limit may be launched on top. -/
theorem Grants.next (grants : Grants passed dag n) (rt : ReadyTask) :
    Grants (passed ++ [rt]) dag (n + if rt.run.dagID = dag ∧ rt.dagMaxTasks ≤ 0 then 1 else 0) := by
  obtain ⟨before, a, between, rfl, first, own, limited, enough⟩ := grants
  refine ⟨before, a, between ++ [rt], by simp, first, own, limited, ?_⟩
  rw [unlimitedOf_append]
  split
  · omega
  · omega

/-- What is granted to a limited candidate is within its own limit, or more than the executors take. -/
theorem Grants.within {up : String → Bool} {later : List ReadyTask} (agree : LimitsAgree env ready)
    (order : reached up (admissionOrder ready) = passed ++ rt :: later) (limited : 0 < rt.dagMaxTasks)
    (grants : Grants (passed ++ [rt]) rt.run.dagID n) (room : n ≤ env.maxConcurrentTasks) : n ≤ rt.dagMaxTasks := by
  obtain ⟨before, a, between, split, first, own, limited', enough⟩ := grants
  rcases List.eq_nil_or_concat between with rfl | ⟨between, last, rfl⟩
  · obtain ⟨_, same⟩ := List.append_inj' split rfl
    obtain rfl : rt = a := List.singleton_inj.mp same
    simpa [unlimitedOf] using enough
  · rw [List.concat_eq_append, ← List.cons_append, ← List.append_assoc] at split
    obtain ⟨rfl, same⟩ := List.append_inj' split rfl
    obtain rfl : rt = last := List.singleton_inj.mp same
    have covered := agree up before a between rt later (by rw [order]; simp) first own limited' limited
    rw [List.concat_eq_append, unlimitedOf_append, if_neg (by omega), Nat.add_zero] at enough
    exact (le_min enough room).trans covered

/-- What the budgets promise after these candidates. -/
structure Allowance (env : Env) (b : Budgets) (db : DB) (passed : List ReadyTask) : Prop where
  left : db.countActiveTaskInstances + b.global ≤ env.maxConcurrentTasks
  counted : ∀ dag rem, b.dags dag = some rem → Grants passed dag (db.countActiveTasksForDag dag + rem)
  uncounted : ∀ dag, b.dags dag = none → ∀ x ∈ passed, x.run.dagID = dag → x.dagMaxTasks ≤ 0

/-- What they promise while it is the turn of one: a launch without a limit is still to come. -/
structure OnTurn (env : Env) (b : Budgets) (db : DB) (passed : List ReadyTask) (rt : ReadyTask) : Prop where
  left : db.countActiveTaskInstances + b.global ≤ env.maxConcurrentTasks
  counted : ∀ dag rem, b.dags dag = some rem → Grants (passed ++ [rt]) dag
    (db.countActiveTasksForDag dag + rem + if rt.run.dagID = dag ∧ rt.dagMaxTasks ≤ 0 then 1 else 0)
  uncounted : ∀ dag, b.dags dag = none → ∀ x ∈ passed ++ [rt], x.run.dagID = dag → x.dagMaxTasks ≤ 0

theorem OnTurn.pass (turn : OnTurn env b db passed rt) : Allowance env b db (passed ++ [rt]) where
  left := turn.left
  counted dag rem granted := (turn.counted dag rem granted).mono (by split <;> omega)
  uncounted := turn.uncounted

theorem Allowance.releases (allowance : Allowance env b db passed) (releases : Releases db after) :
    Allowance env b after passed where
  left := (Int.add_le_add_right releases.countActive _).trans allowance.left
  counted dag rem granted := (allowance.counted dag rem granted).mono (Int.add_le_add_right (releases.countDag dag) _)
  uncounted := allowance.uncounted

theorem OnTurn.releases (turn : OnTurn env b db passed rt) (releases : Releases db after) : OnTurn env b after passed rt where
  left := (Int.add_le_add_right releases.countActive _).trans turn.left
  counted dag rem granted :=
    (turn.counted dag rem granted).mono (Int.add_le_add_right (Int.add_le_add_right (releases.countDag dag) _) _)
  uncounted := turn.uncounted

theorem Allowance.congr {b' : Budgets} (allowance : Allowance env b db passed) (global : b'.global = b.global)
    (dags : b'.dags = b.dags) : Allowance env b' db passed where
  left := global ▸ allowance.left
  counted := dags ▸ allowance.counted
  uncounted := dags ▸ allowance.uncounted

/-- A count that is taken for a limited candidate, the first of its DAG, is charged to its limit. -/
theorem Allowance.count (allowance : Allowance env b db passed) (limited : 0 < rt.dagMaxTasks) (unknown : b.dags rt.run.dagID = none) :
    OnTurn env { b with dags := Function.update b.dags rt.run.dagID (some (rt.dagMaxTasks - db.countActiveTasksForDag rt.run.dagID)) }
      db passed rt where
  left := allowance.left
  counted dag rem granted := by
    dsimp only at granted
    by_cases own : dag = rt.run.dagID
    · subst own
      rw [Function.update_self] at granted
      cases granted
      refine ⟨passed, rt, [], rfl, allowance.uncounted _ unknown, rfl, limited, ?_⟩
      rw [if_neg (by omega), unlimitedOf, List.countP_nil]
      omega
    · rw [Function.update_of_ne own] at granted
      exact (allowance.counted dag rem granted).next rt
  uncounted dag none x member own := by
    dsimp only at none
    by_cases same : dag = rt.run.dagID
    · subst same
      rw [Function.update_self] at none
      cases none
    · rw [Function.update_of_ne same] at none
      rcases List.mem_append.mp member with before | last
      · exact allowance.uncounted dag none x before own
      · obtain rfl := List.mem_singleton.mp last
        exact absurd own.symm same

/-- The budgets after a launch. -/
def Budgets.launched (b : Budgets) (rt : ReadyTask) (pools : String → Option Int) : Budgets :=
  { b with
    global := b.global - 1
    pools := pools
    dags := if rt.dagMaxTasks > 0 then Function.update b.dags rt.run.dagID ((b.dags rt.run.dagID).map (· - 1)) else b.dags }

/-- A launch is paid for. -/
theorem OnTurn.launch {ti : TaskInstance} (turn : OnTurn env b db passed rt)
    (own : ∀ dag, DB.ofDag db dag ti.runID = decide (rt.run.dagID = dag)) (guard : TaskInstance → Bool) (pools : String → Option Int) :
    Allowance env (b.launched rt pools) (db.writeInstance ti guard) (passed ++ [rt]) where
  left := by
    have grown := countActive_writeInstance db ti guard
    have room := turn.left
    dsimp only [Budgets.launched]
    omega
  counted dag rem granted := by
    have grown := countDag_writeInstance db ti guard dag
    rw [own dag] at grown
    dsimp only [Budgets.launched] at granted
    split at granted
    · rename_i limited
      by_cases same : dag = rt.run.dagID
      · subst same
        rw [Function.update_self, Option.map_eq_some_iff] at granted
        obtain ⟨before, granted, rfl⟩ := granted
        have grants := turn.counted _ before granted
        rw [if_neg (by omega)] at grants
        simp only [decide_true, if_true] at grown
        exact grants.mono (by omega)
      · rw [Function.update_of_ne same] at granted
        have grants := turn.counted dag rem granted
        rw [if_neg (fun both => same both.1.symm)] at grants
        simp only [Ne.symm same, decide_false, Bool.false_eq_true, if_false] at grown
        exact grants.mono (by omega)
    · rename_i unlimited
      have grants := turn.counted dag rem granted
      by_cases same : rt.run.dagID = dag
      · rw [if_pos ⟨same, by omega⟩] at grants
        simp only [same, decide_true, if_true] at grown
        exact grants.mono (by omega)
      · rw [if_neg (fun both => same both.1)] at grants
        simp only [same, decide_false, Bool.false_eq_true, if_false] at grown
        exact grants.mono (by omega)
  uncounted dag none := by
    apply turn.uncounted dag
    dsimp only [Budgets.launched] at none
    split at none
    · by_cases same : dag = rt.run.dagID
      · subst same
        rw [Function.update_self, Option.map_eq_none_iff] at none
        exact none
      · rw [Function.update_of_ne same] at none
        exact none
    · exact none

end Allowance

/-! ### Worker groups -/

section Groups

variable {groups groups' : String → Option Bool} {done passed : List ReadyTask} {rt : ReadyTask}

/-- The groups that were found up. -/
def upIn (groups : String → Option Bool) (group : String) : Bool := groups group == some true

/-- Of the candidates that had their turn, these passed their group's check. -/
structure Asked (groups : String → Option Bool) (done passed : List ReadyTask) : Prop where
  passed : passed = reached (upIn groups) done
  known : ∀ x ∈ done, x.t.workerGroup = "" ∨ (groups x.t.workerGroup).isSome

theorem Asked.next (asked : Asked groups done passed) (rt : ReadyTask) (grows : ∀ group up, groups group = some up → groups' group = some up)
    (known : rt.t.workerGroup = "" ∨ (groups' rt.t.workerGroup).isSome) :
    Asked groups' (done ++ [rt]) (passed ++ reached (upIn groups') [rt]) where
  passed := by
    have same : reached (upIn groups') done = reached (upIn groups) done := by
      apply List.filter_congr
      intro x member
      rcases asked.known x member with none | some
      · simp [none]
      · obtain ⟨up, found⟩ := Option.isSome_iff_exists.mp some
        rw [upIn, upIn, found, grows _ up found]
    rw [asked.passed, ← same, reached, reached, reached, List.filter_append]
  known x member := by
    rcases List.mem_append.mp member with before | last
    · refine (asked.known x before).imp id fun some => ?_
      obtain ⟨up, found⟩ := Option.isSome_iff_exists.mp some
      rw [grows _ up found]
      rfl
    · rw [List.mem_singleton.mp last]
      exact known

end Groups

section Verification

variable {env : Env} {ready done passed later : List ReadyTask} {rt : ReadyTask} {w : World} {b : Budgets}

theorem Allowance.read {v u : World} {passed : List ReadyTask} (allowance : Allowance env b w.db passed) (releases : Releases w.db v.db)
    (same : u.db = v.db) : Allowance env b u.db passed :=
  same ▸ allowance.releases releases

theorem OnTurn.read {v u : World} (turn : OnTurn env b w.db passed rt) (releases : Releases w.db v.db) (same : u.db = v.db) :
    OnTurn env b u.db passed rt :=
  same ▸ turn.releases releases

/-- What the pass keeps: nothing is left, or the budgets cover what was launched. -/
inductive Spending (env : Env) (ready rest : List ReadyTask) (b : Budgets) (db : DB) : Prop where
  | spent (none : b.global ≤ 0)
  | going (done passed : List ReadyTask) (order : admissionOrder ready = done ++ rest) (asked : Asked b.groups done passed)
      (allowance : Allowance env b db passed)

theorem Spending.start (env : Env) (ready : List ReadyTask) (db : DB) :
    Spending env ready (admissionOrder ready) { global := env.maxConcurrentTasks - db.countActiveTaskInstances } db := by
  refine .going [] [] rfl ⟨rfl, fun x none => absurd none List.not_mem_nil⟩ ⟨?_, fun _ _ known => ?_, fun _ _ x none => ?_⟩
  · dsimp only
    omega
  · cases known
  · exact absurd none List.not_mem_nil

end Verification

/-! ### Two versions of a DAG -/

end Cronova.Scheduler
