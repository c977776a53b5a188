import Cronova.Scheduler.Frame
import Cronova.Scheduler.Schedule
import Cronova.Scheduler.Tick

/-! The budgets of an admission pass: how many tasks the executors hold after it, in all and
per pool. Attempts may finish while the pass runs, and any of its launches may fail. -/

set_option autoImplicit false

namespace Cronova.Scheduler

open Model Store Process

/-! ### What occupies an executor -/

/-- The slots of a pool: 16 where it has no row, and never less than one. -/
def effectiveSlots (db : DB) (pool : String) : Int :=
  match db.getPool pool with
  | .error _ => defaultPoolSlots
  | .ok p => max 1 (min p.slots maxPoolSlots)

section Occupancy

variable {db after : DB}

/-- The row waits for an admission or occupies an executor. -/
def Stands (row : TaskInstance) : Prop := row.state = .scheduled ∨ DB.occupies row = true

/-- What attempts do to the store while an admission pass holds the lock: they leave the
pools alone, they end, and one that found no worker goes back to where it came from. -/
structure Settles (db after : DB) : Prop where
  pools : after.pools = db.pools
  came : ∀ row ∈ after.taskInstances, Stands row → ∃ old ∈ db.taskInstances,
    Stands old ∧ old.key = row.key ∧ old.pool = row.pool ∧ (DB.occupies row = true → DB.occupies old = true)

theorem Settles.refl (db : DB) : Settles db db where
  pools := rfl
  came row member stands := ⟨row, member, stands, rfl, rfl, id⟩

theorem Settles.trans {mid : DB} (first : Settles db mid) (second : Settles mid after) : Settles db after where
  pools := second.pools.trans first.pools
  came row member stands := by
    obtain ⟨mid, between, still, key, pool, occupied⟩ := second.came row member stands
    obtain ⟨old, known, stood, key', pool', occupied'⟩ := first.came mid between still
    exact ⟨old, known, stood, key'.trans key, pool'.trans pool, fun occupies => occupied' (occupied occupies)⟩

theorem Settles.effectiveSlots (settles : Settles db after) (pool : String) :
    effectiveSlots after pool = Scheduler.effectiveSlots db pool := by
  simp only [Scheduler.effectiveSlots, DB.getPool, settles.pools]

theorem Settles.countActive (settles : Settles db after) :
    after.countActiveTaskInstances ≤ db.countActiveTaskInstances := by
  apply Int.ofNat_le.mpr
  apply Table.countP_le_countP
  intro row member occupies
  obtain ⟨old, known, _, key, _, occupied⟩ := settles.came row member (.inr occupies)
  exact ⟨old, known, occupied occupies, key⟩

theorem Settles.countRunning (settles : Settles db after) (pool : String) :
    after.countRunningInPool pool ≤ db.countRunningInPool pool := by
  apply Int.ofNat_le.mpr
  apply Table.countP_le_countP
  intro row member counted
  obtain ⟨own, occupies⟩ := Bool.and_eq_true_iff.mp counted
  obtain ⟨old, known, _, key, same, occupied⟩ := settles.came row member (.inr occupies)
  exact ⟨old, known, by simp [same, occupied occupies, beq_iff_eq.mp own], key⟩

/-- A write that the attempt's reference guards settles, if it leaves the pool alone. -/
theorem Settles.guarded (ti : TaskInstance) (ref : ExecutorRef)
    (stored : ∀ row ∈ db.taskInstances, row.key = ti.key → DB.holdsAttempt ref row = true →
      DB.occupies row = true ∧ row.pool = ti.pool) :
    Settles db (db.updateTaskInstanceGuarded ti ref).2 where
  pools := rfl
  came row member stands := by
    rcases (Table.mem_modify_iff _ _ _ (DB.key_rewrite ti) row).mp member with ⟨same, _⟩ | ⟨old, known, chosen, rfl⟩
    · exact ⟨row, same, stands, rfl, rfl, id⟩
    · obtain ⟨own, holds⟩ := Bool.and_eq_true_iff.mp chosen
      obtain ⟨occupied, pool⟩ := stored old known (beq_iff_eq.mp own) holds
      exact ⟨old, known, .inr occupied, (DB.key_rewrite ti old).symm, pool, fun _ => occupied⟩

/-- One write of an instance raises the number of occupied executors by one at most. -/
theorem countActive_writeInstance (db : DB) (ti : TaskInstance) (guard : TaskInstance → Bool) :
    (db.writeInstance ti guard).countActiveTaskInstances ≤ db.countActiveTaskInstances + 1 := by
  apply Int.ofNat_le.mpr
  refine Table.countP_modify_le_succ _ _ (DB.key_rewrite ti) _ (k := ti.key) ?_
  intro row chosen
  exact beq_iff_eq.mp (Bool.and_eq_true_iff.mp chosen).1

/-- It raises the number for no other pool than its own. -/
theorem countRunning_writeInstance (db : DB) (ti : TaskInstance) (guard : TaskInstance → Bool) (pool : String) :
    (db.writeInstance ti guard).countRunningInPool pool ≤ db.countRunningInPool pool + if ti.pool = pool then 1 else 0 := by
  split
  · apply Int.ofNat_le.mpr
    refine Table.countP_modify_le_succ _ _ (DB.key_rewrite ti) _ (k := ti.key) ?_
    intro row chosen
    exact beq_iff_eq.mp (Bool.and_eq_true_iff.mp chosen).1
  · rename_i other
    rw [Int.add_zero]
    apply Int.ofNat_le.mpr
    refine Table.countP_modify_le _ _ (DB.key_rewrite ti) _ ?_
    intro row _
    simp [DB.rewrite, other]

end Occupancy

/-! ### The pass and its environment -/

section Budgeting

variable (env : Env) (ready : List ReadyTask)

/-- Every collected task that still stands is in the pool it was collected with. -/
def Fresh (db : DB) : Prop :=
  ∀ rt ∈ ready, ∀ row ∈ db.taskInstances, row.key = rt.ti.key → Stands row → row.pool = rt.ti.pool

/-- A row that may be launched now. -/
structure Fits (db : DB) (ti : TaskInstance) : Prop where
  launched : ti.state = .queued
  collected : ∀ rt ∈ ready, rt.ti.key = ti.key → ti.pool = rt.ti.pool
  active : db.countActiveTaskInstances < env.maxConcurrentTasks
  slots : db.countRunningInPool ti.pool < effectiveSlots db ti.pool

/-- The bounds on the store, relative to the store at the start. -/
structure Budgeted (start db : DB) : Prop where
  pools : db.pools = start.pools
  active : db.countActiveTaskInstances ≤ max start.countActiveTaskInstances env.maxConcurrentTasks
  slots : ∀ pool, db.countRunningInPool pool ≤ max (start.countRunningInPool pool) (effectiveSlots start pool)
  fresh : Fresh ready db

/-- An admission pass beside running attempts. A pool's row may fail to be read only where the
default is no more than the pool has. -/
def admission (start : DB) : Contract statements World where
  step o w reply v := ∃ tid a spawned,
    (∀ pool, o = .getPool pool → a.served = true ∨ defaultPoolSlots ≤ effectiveSlots w.db pool) ∧
      World.perform tid o a w = some (reply, v, spawned)
  inv v := Budgeted env ready start v.db
  rely w v := Settles w.db v.db
  may o v := (∀ db, o.writes db = none) ∨ ∃ ti, o = .updateTaskInstance ti ∧ Fits env ready v.db ti

variable {env ready} {start db after : DB}

theorem Fresh.settles (fresh : Fresh ready db) (settles : Settles db after) : Fresh ready after := by
  intro rt member row known key stands
  obtain ⟨old, was, stood, own, pool, _⟩ := settles.came row known stands
  exact pool ▸ fresh rt member old was (own.trans key) stood

theorem Budgeted.settles (within : Budgeted env ready start db) (settles : Settles db after) : Budgeted env ready start after where
  pools := settles.pools.trans within.pools
  active := settles.countActive.trans within.active
  slots pool := (settles.countRunning pool).trans (within.slots pool)
  fresh := within.fresh.settles settles

theorem Budgeted.effectiveSlots (within : Budgeted env ready start db) (pool : String) :
    effectiveSlots db pool = Scheduler.effectiveSlots start pool := by
  simp only [Scheduler.effectiveSlots, DB.getPool, within.pools]

/-- The launch of a row that fits keeps the bounds. -/
theorem Budgeted.launch {ti : TaskInstance} (within : Budgeted env ready start db) (fits : Fits env ready db ti)
    (guard : TaskInstance → Bool) : Budgeted env ready start (db.writeInstance ti guard) where
  pools := within.pools
  active := by
    have grown := countActive_writeInstance db ti guard
    have room := fits.active
    omega
  slots pool := by
    have grown := countRunning_writeInstance db ti guard pool
    have room := fits.slots
    have before := within.slots pool
    have slots := within.effectiveSlots pool
    split at grown
    · rename_i own
      rw [own, slots] at room
      omega
    · omega
  fresh := by
    intro rt member row known key stands
    rcases (Table.mem_modify_iff _ _ _ (DB.key_rewrite ti) row).mp known with ⟨same, _⟩ | ⟨old, _, chosen, rfl⟩
    · exact within.fresh rt member row same key stands
    · have own : old.key = ti.key := beq_iff_eq.mp (Bool.and_eq_true_iff.mp chosen).1
      exact fits.collected rt member (key.symm.trans ((DB.key_rewrite ti old).trans own))

end Budgeting

/-! ### Verification of the pass -/

section Verification

variable {env : Env} {ready : List ReadyTask} {start : DB} {w : World} {b : Budgets}

/-- What the budgets promise: a remainder that is left is really there. -/
structure Room (env : Env) (b : Budgets) (db : DB) : Prop where
  active : 0 < b.global → db.countActiveTaskInstances + b.global ≤ env.maxConcurrentTasks
  slots : ∀ pool rem, b.pools pool = some rem → 0 < rem → db.countRunningInPool pool + rem ≤ effectiveSlots db pool

theorem Room.settles {db after : DB} (room : Room env b db) (settles : Settles db after) : Room env b after where
  active left := by
    have fewer := settles.countActive
    have before := room.active left
    omega
  slots pool rem counted left := by
    have fewer := settles.countRunning pool
    have before := room.slots pool rem counted left
    rw [settles.effectiveSlots]
    omega

/-- What a launch costs. -/
def Budgets.charged (b : Budgets) (pool : String) : Budgets :=
  { b with global := b.global - 1, pools := Function.update b.pools pool ((b.pools pool).map (· - 1)) }

theorem Budgets.charged_global (b : Budgets) (pool : String) : (b.charged pool).global = b.global - 1 := rfl

theorem Budgets.charged_pools (b : Budgets) (pool : String) :
    (b.charged pool).pools = Function.update b.pools pool ((b.pools pool).map (· - 1)) := rfl

/-- The launch of a row is paid for by its own pool. -/
theorem Room.launch {db : DB} {ti : TaskInstance} (room : Room env b db) (guard : TaskInstance → Bool) :
    Room env (b.charged ti.pool) (db.writeInstance ti guard) where
  active left := by
    have grown := countActive_writeInstance db ti guard
    rw [Budgets.charged_global] at left ⊢
    have before := room.active (by omega)
    omega
  slots pool rem counted left := by
    have grown := countRunning_writeInstance db ti guard pool
    have same : effectiveSlots (db.writeInstance ti guard) pool = effectiveSlots db pool := rfl
    rw [same]
    by_cases own : pool = ti.pool
    · subst own
      rw [Budgets.charged_pools, Function.update_self, Option.map_eq_some_iff] at counted
      obtain ⟨before, counted, rfl⟩ := counted
      have paid := room.slots _ _ counted (by omega)
      rw [if_pos rfl] at grown
      omega
    · rw [Budgets.charged_pools, Function.update_of_ne own] at counted
      have paid := room.slots _ _ counted left
      rw [if_neg (Ne.symm own)] at grown
      omega

theorem Room.congr {db : DB} {b' : Budgets} (room : Room env b db) (global : b'.global = b.global) (pools : b'.pools = b.pools) :
    Room env b' db where
  active := global ▸ room.active
  slots := pools ▸ room.slots

def Budgets.noted (b : Budgets) (pool : String) (rem : Int) : Budgets :=
  { b with pools := Function.update b.pools pool (some rem) }

/-- A count that is noted leaves room if it is there. -/
theorem Room.noted {db : DB} {pool : String} {rem : Int} (room : Room env b db)
    (counted : 0 < rem → db.countRunningInPool pool + rem ≤ effectiveSlots db pool) : Room env (b.noted pool rem) db where
  active := room.active
  slots other left found positive := by
    rw [Budgets.noted] at found
    dsimp only at found
    by_cases own : other = pool
    · subst own
      rw [Function.update_self] at found
      cases found
      exact counted positive
    · rw [Function.update_of_ne own] at found
      exact room.slots other left found positive

abbrev Admits {A : Type} (env : Env) (ready : List ReadyTask) (start : DB) (p : Act A) (post : A → World → Prop) (w : World) : Prop :=
  p.Safe (admission env ready start) (Prog.returns post) w

/-- The room stays across such a statement. -/
theorem Room.read {v u : World} (room : Room env b w.db) (settles : Settles w.db v.db) (same : u.db = v.db) : Room env b u.db :=
  same ▸ room.settles settles

theorem getTaskInstance_ok {db : DB} {key : InstanceKey} {ti : TaskInstance} (found : db.getTaskInstance key = .ok ti) :
    ti ∈ db.taskInstances ∧ ti.key = key := by
  rw [DB.getTaskInstance] at found
  cases stored : db.instance? key with
  | none => simp [stored] at found
  | some row =>
    rw [stored] at found
    cases found
    exact DB.instance?_some stored

/-- What a launch in the pool leaves of any budgets, and what a failed one does. -/
def Charges (env : Env) (pool : String) (launched : Bool) (db after : DB) : Prop :=
  ∀ b, Room env b db → Room env (if launched then b.charged pool else b) after

theorem Charges.settles {pool : String} {launched : Bool} {db mid after : DB} (charges : Charges env pool launched db mid)
    (settles : Settles mid after) : Charges env pool launched db after :=
  fun b room => (charges b room).settles settles

theorem Charges.nothing {pool : String} {db after : DB} (settles : Settles db after) : Charges env pool false db after :=
  fun _ room => room.settles settles

end Verification

/-! ### A pool that changed after the collection -/

def loadRun : DagRun := { runID := .manual "load" 0, dagID := "load", logicalDate := 0, state := .running, triggerType := .manual }

def extractTask : Task := { id := "extract" }

/-- `extract` waits for a slot of the pool. -/
def waitsIn (pool : String) : TaskInstance := { runID := loadRun.runID, taskID := "extract", pool }

end Cronova.Scheduler
