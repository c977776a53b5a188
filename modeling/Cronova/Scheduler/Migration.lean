import Cronova.Process.Lockstep
import Cronova.Scheduler.External
import Cronova.Store.Migration
import Mathlib.Data.List.Find

/-! A store and its copy, each with what is published and delivered afterwards.

The numbers of the events differ between the two, so the comparison goes through a
renumbering. It is extended at each publication, and it does no harm as long as both stores
hand out numbers that no run has in its id.
-/

set_option autoImplicit false

namespace Cronova.Scheduler

open Model Store Process
open Calendar (Time)

inductive Side where
  | source
  | target

/-- What happens after the copy, or would have happened in the source. -/
inductive Later where
  | publish (key payload : String) (answers : List Answer)
  | pass (env : Env) (answers : List Answer)
  /-- DAGs are registered, paused and deleted. -/
  | configure (dags : List StoredDAG) (cache : Cache)
  /-- The run in the given row moves on. -/
  | advance (row : Nat) (state : RunState) (started finished : Option Time)
  /-- A refused insert may use up its number. -/
  | skip (inSource inTarget : Nat)

def skipNumbers (db : DB) (count : Nat) : DB :=
  { db with
    nextEvent := db.nextEvent + count
    issued := fun e member => Nat.lt_of_lt_of_le (db.issued e member) (Nat.le_add_right _ _) }

def advanceRow (db : DB) (row : Nat) (state : RunState) (started finished : Option Time) : DB :=
  match db.runs.rows[row]? with
  | none => db
  | some r => (db.updateDagRunState r.runID state started finished).toOption.getD db

namespace Later

def apply (side : Side) (w : World) : Later → World
  | publish key payload answers => ((publishExternalEvent key payload).run World.replay (w, answers)).2.1
  | pass env answers => ((processPendingExternalEvents env).run World.replay (w, answers)).2.1
  | configure dags cache => { w with db := { w.db with dags }, cache }
  | advance row state started finished => { w with db := advanceRow w.db row state started finished }
  | skip inSource inTarget => { w with db := skipNumbers w.db (match side with | .source => inSource | .target => inTarget) }

def applyAll (side : Side) (w : World) (later : List Later) : World := later.foldl (apply side) w

end Later

/-- The copy behaves as the source would have: the same runs for the same events, and no event
gets a number that a run already has. -/
def PreservesTriggers (source target : DB) : Prop :=
  ∀ cache later,
    let s := Later.applyAll .source { db := source, cache } later
    let t := Later.applyAll .target { db := target, cache } later
    t.db.triggered = s.db.triggered ∧ ∀ dag i, t.db.nextEvent ≤ i → t.db.run? (.event dag i) = none

/-! ### Renumbering -/

section Renumbering

variable (ρ : EventID → EventID)

def renumberID : RunID → RunID
  | .event dag id => .event dag (ρ id)
  | run => run

def renumberRun (r : DagRun) : DagRun := { r with runID := renumberID ρ r.runID }

def renumberEvent (e : Event) : Event := { e with id := ρ e.id }

end Renumbering

/-- The numbers in a run id are among the known ones. -/
def Within (known : EventID → Prop) (run : RunID) : Prop := ∀ dag id, run = .event dag id → known id

/-- One database is the other under new numbers; `known` are the numbers in use. -/
structure Twin (ρ : EventID → EventID) (known : EventID → Prop) (db db' : DB) : Prop where
  dags : db'.dags = db.dags
  runs : db'.runs.rows = db.runs.rows.map (renumberRun ρ)
  events : db'.events.rows = db.events.rows.map (renumberEvent ρ)
  within : ∀ r ∈ db.runs, Within known r.runID
  numbered : ∀ e ∈ db.events, known e.id
  injective : ∀ i j, known i → known j → ρ i = ρ j → i = j
  fresh : ∀ i, known i → i < db.nextEvent ∧ ρ i < db'.nextEvent

namespace Twin

variable {ρ : EventID → EventID} {known : EventID → Prop} {db db' : DB}

theorem renumberID_inj (twin : Twin ρ known db db') {a b : RunID} (left : Within known a) (right : Within known b) :
    renumberID ρ a = renumberID ρ b ↔ a = b := by
  constructor
  · intro same
    cases a <;> cases b <;> simp only [renumberID, RunID.event.injEq, reduceCtorEq] at same ⊢ <;>
      try assumption
    exact ⟨same.1, twin.injective _ _ (left _ _ rfl) (right _ _ rfl) same.2⟩
  · rintro rfl
    rfl

theorem mem_runs (twin : Twin ρ known db db') {r : DagRun} : r ∈ db'.runs ↔ ∃ x ∈ db.runs, renumberRun ρ x = r := by
  rw [Table.mem_def, twin.runs, List.mem_map]
  rfl

/-- What a reader sees does not depend on the numbers. -/
theorem trigger_eq (twin : Twin ρ known db db') {run : RunID} (within : Within known run) :
    db'.trigger (renumberID ρ run) = db.trigger run := by
  cases run with
  | event dag id =>
    have lookup : db'.event? (ρ id) = (db.event? id).map (renumberEvent ρ) := by
      unfold DB.event?
      rw [twin.events, List.find?_map]
      congr 1
      apply List.find?_congr
      intro e member
      rw [Bool.eq_iff_iff]
      simp only [Function.comp_apply, renumberEvent, beq_iff_eq]
      exact ⟨twin.injective _ _ (twin.numbered e member) (within _ _ rfl), congrArg ρ⟩
    simp only [renumberID, DB.trigger, lookup, Option.map_map]
    rfl
  | logical | manual | backfill | sub => rfl

theorem triggered_eq (twin : Twin ρ known db db') : db'.triggered = db.triggered := by
  unfold DB.triggered
  rw [twin.runs, List.map_map]
  apply List.map_congr_left
  intro r member
  simp only [Function.comp_apply, renumberRun, twin.trigger_eq (twin.within r member)]

theorem run?_fresh (twin : Twin ρ known db db') (dag : DagID) {i : EventID} (above : db'.nextEvent ≤ i) :
    db'.run? (.event dag i) = none := by
  cases found : db'.run? (.event dag i) with
  | none => rfl
  | some r =>
    obtain ⟨member, own⟩ := DB.run?_some found
    obtain ⟨x, stored, rfl⟩ := twin.mem_runs.mp member
    simp only [renumberRun] at own
    cases id : x.runID <;> rw [id] at own <;> simp only [renumberID, RunID.event.injEq, reduceCtorEq] at own
    obtain ⟨_, rfl⟩ := own
    exact absurd above (Nat.not_le_of_lt (twin.fresh _ (twin.within x stored _ _ id)).2)

/-! ### The statements of a pass -/

theorem queuedCount_eq (twin : Twin ρ known db db') : db'.queuedCount = db.queuedCount := by
  unfold DB.queuedCount
  rw [twin.runs, List.countP_map]
  rfl

theorem dagActive_eq (twin : Twin ρ known db db') (dag : DagID) : db'.dagActive dag = db.dagActive dag := by
  rw [DB.dagActive, twin.dags]
  rfl

theorem apart_iff (twin : Twin ρ known db db') {x r : DagRun} (left : Within known x.runID) (right : Within known r.runID) :
    (runKey (renumberRun ρ x)).apart (runKey (renumberRun ρ r)) ↔ (runKey x).apart (runKey r) := by
  have ids := twin.renumberID_inj left right
  simp only [RunKey.apart, runKey, renumberRun, ne_eq, ids]

/-- The same rows stand in the way of an insert. -/
theorem insertRun (twin : Twin ρ known db db') {r : DagRun} (within : Within known r.runID) :
    (∃ after after', db.insertRun r = .ok after ∧ db'.insertRun (renumberRun ρ r) = .ok after' ∧ Twin ρ known after after') ∨
      db.insertRun r = .error .alreadyExists ∧ db'.insertRun (renumberRun ρ r) = .error .alreadyExists := by
  by_cases free : ∀ x ∈ db.runs, (runKey x).apart (runKey r)
  · have free' : ∀ x ∈ db'.runs, (runKey x).apart (runKey (renumberRun ρ r)) := by
      intro y member
      obtain ⟨x, stored, rfl⟩ := twin.mem_runs.mp member
      exact (twin.apart_iff (twin.within x stored) within).mpr (free x stored)
    obtain ⟨runs, inserted⟩ := Table.insert?_isSome free
    obtain ⟨runs', inserted'⟩ := Table.insert?_isSome free'
    refine .inl ⟨{ db with runs }, { db' with runs := runs' }, by simp [DB.insertRun, inserted],
      by simp [DB.insertRun, inserted'], ?_⟩
    refine { twin with runs := ?_, within := fun x member => ?_ }
    · rw [(Table.insert?_some inserted).1, (Table.insert?_some inserted').1, twin.runs, List.map_append]
      rfl
    · rcases (Table.mem_insert? inserted x).mp member with old | rfl
      · exact twin.within x old
      · exact within
  · refine .inr ⟨?_, ?_⟩
    · cases inserted : db.runs.insert? r with
      | none => simp [DB.insertRun, inserted]
      | some runs => exact absurd (Table.insert?_some inserted).2 free
    · cases inserted : db'.runs.insert? (renumberRun ρ r) with
      | none => simp [DB.insertRun, inserted]
      | some runs =>
        refine absurd (fun x stored => ?_) free
        apply (twin.apart_iff (twin.within x stored) within).mp
        exact (Table.insert?_some inserted).2 _ (twin.mem_runs.mpr ⟨x, stored, rfl⟩)

/-- How two writes of twins compare. -/
inductive Writes (ρ : EventID → EventID) (known : EventID → Prop) : Except StoreError DB → Except StoreError DB → Prop where
  | ok {after after' : DB} : Twin ρ known after after' → Writes ρ known (.ok after) (.ok after')
  | error (e : StoreError) : Writes ρ known (.error e) (.error e)

theorem createDagRunBounded (twin : Twin ρ known db db') {r : DagRun} (within : Within known r.runID) (global : Int) :
    Writes ρ known (db.createDagRunBounded r global) (db'.createDagRunBounded (renumberRun ρ r) global) := by
  have active : db'.dagActive (renumberRun ρ r).dagID = db.dagActive r.dagID := twin.dagActive_eq r.dagID
  unfold DB.createDagRunBounded
  rw [active, twin.queuedCount_eq]
  split
  · rcases twin.insertRun within with ⟨after, after', ok, ok', twin'⟩ | ⟨refused, refused'⟩
    · rw [ok, ok']
      exact .ok twin'
    · rw [refused, refused']
      exact .error _
  · have same : db'.refusal (renumberRun ρ r).dagID = db.refusal r.dagID := by
      rw [DB.refusal, active]
      rfl
    rw [same]
    exact .error _

theorem setConsumed (twin : Twin ρ known db db') {selects selects' : Event → Bool} (consumed : Bool)
    (same : ∀ e ∈ db.events, selects' (renumberEvent ρ e) = selects e) :
    Twin ρ known (db.setConsumed selects consumed) (db'.setConsumed selects' consumed) := by
  refine { twin with events := ?_, numbered := fun e member => ?_ }
  · show db'.events.rows.map _ = (db.events.rows.map _).map _
    rw [twin.events, List.map_map, List.map_map]
    apply List.map_congr_left
    intro e member
    simp only [Function.comp_apply, same e member]
    split <;> rfl
  · rcases (DB.mem_setConsumed _ _ e).mp member with ⟨old, _⟩ | ⟨x, old, _, rfl⟩
    · exact twin.numbered e old
    · exact twin.numbered x old

theorem consumeEvent (twin : Twin ρ known db db') {id : EventID} (own : known id) :
    Twin ρ known (db.consumeEvent id) (db'.consumeEvent (ρ id)) := by
  apply twin.setConsumed
  intro e member
  rw [Bool.eq_iff_iff]
  simp only [renumberEvent, beq_iff_eq]
  exact ⟨twin.injective _ _ (twin.numbered e member) own, congrArg ρ⟩

theorem listPendingEvents (twin : Twin ρ known db db') (source : EventSource) (limit : Int) :
    db'.listPendingEvents source limit = (db.listPendingEvents source limit).map (renumberEvent ρ) := by
  unfold DB.listPendingEvents
  rw [twin.events, List.filter_map, List.map_take]
  rfl

end Twin

namespace Twin

variable {ρ : EventID → EventID} {known : EventID → Prop} {db db' : DB}

/-! ### Numbers that are handed out -/

theorem skipNumbers (twin : Twin ρ known db db') (count count' : Nat) :
    Twin ρ known (Scheduler.skipNumbers db count) (Scheduler.skipNumbers db' count') := by
  refine { twin with fresh := fun i own => ?_ }
  obtain ⟨below, below'⟩ := twin.fresh i own
  exact ⟨Nat.lt_add_right _ below, Nat.lt_add_right _ below'⟩

/-- The next numbers of the two stores come to belong together. -/
theorem extend (twin : Twin ρ known db db') :
    Twin (Function.update ρ db.nextEvent db'.nextEvent) (fun i => known i ∨ i = db.nextEvent)
      (Scheduler.skipNumbers db 1) (Scheduler.skipNumbers db' 1) := by
  have old {i : EventID} (own : known i) : Function.update ρ db.nextEvent db'.nextEvent i = ρ i :=
    Function.update_of_ne (Nat.ne_of_lt (twin.fresh i own).1) _ _
  have new : Function.update ρ db.nextEvent db'.nextEvent db.nextEvent = db'.nextEvent := Function.update_self ..
  refine ⟨twin.dags, ?_, ?_, fun r member dag id same => .inl (twin.within r member dag id same),
    fun e member => .inl (twin.numbered e member), ?_, ?_⟩
  · show db'.runs.rows = _
    rw [twin.runs]
    apply List.map_congr_left
    intro r member
    cases id : r.runID with
    | event dag i => simp only [renumberRun, renumberID, id, old (twin.within r member dag i id)]
    | logical | manual | backfill | sub => simp only [renumberRun, renumberID, id]
  · show db'.events.rows = _
    rw [twin.events]
    apply List.map_congr_left
    intro e member
    simp only [renumberEvent, old (twin.numbered e member)]
  · rintro i j (left | rfl) (right | rfl) same
    · rw [old left, old right] at same
      exact twin.injective i j left right same
    · rw [old left, new] at same
      exact absurd same (Nat.ne_of_lt (twin.fresh i left).2)
    · rw [old right, new] at same
      exact absurd same.symm (Nat.ne_of_lt (twin.fresh j right).2)
    · rfl
  · rintro i (own | rfl)
    · rw [old own]
      obtain ⟨below, below'⟩ := twin.fresh i own
      exact ⟨Nat.lt_succ_of_lt below, Nat.lt_succ_of_lt below'⟩
    · rw [new]
      exact ⟨Nat.lt_succ_self _, Nat.lt_succ_self _⟩

theorem keyed_iff (twin : Twin ρ known db db') (source : EventSource) (key : EventKey) :
    (∃ e ∈ db'.events, e.source = source ∧ e.key = key) ↔ ∃ e ∈ db.events, e.source = source ∧ e.key = key := by
  constructor
  · rintro ⟨e, member, own⟩
    rw [Table.mem_def, twin.events] at member
    obtain ⟨x, stored, rfl⟩ := List.mem_map.mp member
    exact ⟨x, stored, own⟩
  · rintro ⟨e, member, own⟩
    refine ⟨renumberEvent ρ e, ?_, own⟩
    rw [Table.mem_def, twin.events]
    exact List.mem_map_of_mem member

/-- A publication gives the event a fresh number on both sides, or on neither. -/
theorem publishEvent (twin : Twin ρ known db db') (source : EventSource) (key : EventKey) (payload : String) :
    ∃ ρ known, Twin ρ known (db.publishEvent source key payload).2 (db'.publishEvent source key payload).2 := by
  unfold DB.publishEvent
  cases left : db.insertEvent source key payload with
  | none =>
    cases right : db'.insertEvent source key payload with
    | none => exact ⟨ρ, known, twin⟩
    | some after' =>
      obtain ⟨e, member, own⟩ := (twin.keyed_iff source key).mpr (DB.insertEvent_none left)
      exact absurd own ((DB.insertEvent_some right).2.1 e member)
  | some after =>
    cases right : db'.insertEvent source key payload with
    | none =>
      obtain ⟨e, member, own⟩ := (twin.keyed_iff source key).mp (DB.insertEvent_none right)
      exact absurd own ((DB.insertEvent_some left).2.1 e member)
    | some after' =>
      obtain ⟨dags, runs, rows, next⟩ := DB.insertEvent_rows left
      obtain ⟨dags', runs', rows', next'⟩ := DB.insertEvent_rows right
      have extended := twin.extend
      refine ⟨_, _, ?_, ?_, ?_, ?_, ?_, extended.injective, ?_⟩
      · rw [dags, dags', twin.dags]
      · rw [runs, runs']
        exact extended.runs
      · have old : db'.events.rows = db.events.rows.map
            (renumberEvent (Function.update ρ db.nextEvent db'.nextEvent)) := extended.events
        rw [rows, rows', List.map_append, ← old]
        simp only [List.map_cons, List.map_nil, renumberEvent, Function.update_self]
      · rw [runs]
        exact extended.within
      · intro e member
        rw [Table.mem_def, rows] at member
        rcases List.mem_append.mp member with old | new
        · exact extended.numbered e old
        · cases List.mem_singleton.mp new
          exact .inr rfl
      · rw [next, next']
        exact extended.fresh

/-! ### Runs that move on -/

theorem advanceRow (twin : Twin ρ known db db') (row : Nat) (state : RunState) (started finished : Option Time) :
    Twin ρ known (Scheduler.advanceRow db row state started finished)
      (Scheduler.advanceRow db' row state started finished) := by
  unfold Scheduler.advanceRow
  rw [twin.runs, List.getElem?_map]
  cases found : db.runs.rows[row]? with
  | none => exact twin
  | some r =>
    have member : r ∈ db.runs := List.mem_of_getElem? found
    have member' : renumberRun ρ r ∈ db'.runs := twin.mem_runs.mpr ⟨r, member, rfl⟩
    simp only [Option.map_some]
    unfold DB.updateDagRunState
    rw [DB.run?_of_mem member, DB.run?_of_mem member']
    dsimp only
    split
    · exact twin
    have legal : (renumberRun ρ r).state = r.state := rfl
    rw [legal]
    split
    · refine { twin with runs := ?_, within := fun x stored => ?_ }
      · show db'.runs.rows.map _ = (db.runs.rows.map _).map _
        rw [twin.runs, List.map_map, List.map_map]
        apply List.map_congr_left
        intro x stored
        have same : ((renumberRun ρ x).runID == (renumberRun ρ r).runID) = (x.runID == r.runID) := by
          rw [Bool.eq_iff_iff, beq_iff_eq, beq_iff_eq]
          exact twin.renumberID_inj (twin.within x stored) (twin.within r member)
        simp only [Function.comp_apply, same]
        have state : (renumberRun ρ x).state = x.state := rfl
        rw [state]
        split <;> rfl
      · obtain ⟨y, old, rfl⟩ := (Table.mem_modify _ _ _ (DB.runKey_setRunState _ _ _) x).mp stored
        split <;> exact twin.within y old
    · exact twin

end Twin

/-! ### Passes in lockstep -/

section Passes

variable {ρ : EventID → EventID} {known : EventID → Prop}

/-- Two worlds with the same DAGs in their caches, over twin stores, and the same surroundings. -/
def Tied (ρ : EventID → EventID) (known : EventID → Prop) (s t : World × List Answer) : Prop :=
  s.2 = t.2 ∧ s.1.cache = t.1.cache ∧ Twin ρ known s.1.db t.1.db

theorem lockstep_ask {A A' : Type} {value : A → A' → Prop} {o o' : Op} {get : o.Reply → Except StoreError A}
    {get' : o'.Reply → Except StoreError A'}
    (step : ∀ s t, Tied ρ known s t → Agree value (get (World.replay o s).1) (get' (World.replay o' t).1) ∧
      Tied ρ known (World.replay o s).2 (World.replay o' t).2) :
    Prog.Lockstep World.replay (Tied ρ known) value (ask o get) (ask o' get') := by
  intro s t start
  obtain ⟨agree, after⟩ := step s t start
  rw [ask_run, ask_run]
  refine ⟨?_, after⟩
  generalize get (World.replay o s).1 = left at agree
  generalize get' (World.replay o' t).1 = right at agree
  cases agree with
  | ok same => exact .ok same
  | error e => exact .error _

/-- A statement that reads nothing of the store. -/
theorem lockstep_perform {o : Op} (step : ∀ s t, Tied ρ known s t → (World.replay o s).1 = (World.replay o t).1 ∧
    Tied ρ known (World.replay o s).2 (World.replay o t).2) :
    Prog.Lockstep World.replay (Tied ρ known) Eq (perform o) (perform o) :=
  .call Eq step fun _ _ same => .done same

theorem Tied.write {s t : World × List Answer} (tied : Tied ρ known s t) {x x' : Except StoreError DB}
    (writes : Twin.Writes ρ known x x') (trail trail' : Trail) :
    ∃ reply after after', s.1.write (s.2.headD {}) x trail = some (reply, after, []) ∧
      t.1.write (t.2.headD {}) x' trail' = some (reply, after', []) ∧ Tied ρ known (after, s.2.tail) (after', t.2.tail) := by
  obtain ⟨w, answers⟩ := s
  obtain ⟨v, _⟩ := t
  obtain ⟨rfl, cache, twin⟩ := tied
  unfold World.write
  cases (answers.headD {}).served with
  | false => exact ⟨_, w, v, rfl, rfl, rfl, cache, twin⟩
  | true => cases writes with
    | ok after => exact ⟨_, _, _, rfl, rfl, rfl, cache, after⟩
    | error e => exact ⟨_, w, v, rfl, rfl, rfl, cache, twin⟩

theorem agree_self (reply : Except StoreError Unit) : Agree (fun _ _ => True) reply reply := by
  cases reply with
  | ok _ => exact .ok trivial
  | error e => exact .error e

theorem createDagRunBounded_lockstep {r : DagRun} (within : Within known r.runID) (global : Int) :
    Prog.Lockstep World.replay (Tied ρ known) (fun _ _ => True) (createDagRunBounded r global)
      (createDagRunBounded (renumberRun ρ r) global) := by
  apply lockstep_ask
  intro s t tied
  obtain ⟨reply, after, after', left, right, tied'⟩ :=
    tied.write (tied.2.2.createDagRunBounded within global) s.1.trail t.1.trail
  have first : World.replay (.createDagRunBounded r global) s = (reply, after, s.2.tail) := by
    simp only [World.replay, World.perform, left]
    rfl
  have second : World.replay (.createDagRunBounded (renumberRun ρ r) global) t = (reply, after', t.2.tail) := by
    simp only [World.replay, World.perform, right]
    rfl
  rw [first, second]
  exact ⟨agree_self reply, tied'⟩

theorem consumeEvent_lockstep {id : EventID} (own : known id) :
    Prog.Lockstep World.replay (Tied ρ known) (fun _ _ => True) (consumeEvent id) (consumeEvent (ρ id)) := by
  apply lockstep_ask
  intro s t tied
  obtain ⟨reply, after, after', left, right, tied'⟩ :=
    tied.write (.ok (tied.2.2.consumeEvent own)) s.1.trail t.1.trail
  have first : World.replay (.consumeEvent id) s = (reply, after, s.2.tail) := by
    simp only [World.replay, World.perform, left]
    rfl
  have second : World.replay (.consumeEvent (ρ id)) t = (reply, after', t.2.tail) := by
    simp only [World.replay, World.perform, right]
    rfl
  rw [first, second]
  exact ⟨agree_self reply, tied'⟩

/-- The same events are listed, under their own numbers on each side. -/
theorem listPendingEvents_lockstep (source : EventSource) (limit : Int) :
    Prog.Lockstep World.replay (Tied ρ known)
      (List.Forall₂ fun e e' => known e.id ∧ e' = renumberEvent ρ e) (listPendingEvents source limit)
      (listPendingEvents source limit) := by
  apply lockstep_ask
  rintro ⟨w, answers⟩ ⟨v, _⟩ ⟨rfl, cache, twin⟩
  refine ⟨?_, rfl, cache, twin⟩
  simp only [World.replay, World.perform, World.read]
  cases (answers.headD {}).served with
  | false => exact .error _
  | true =>
    have listed : ∀ e ∈ w.db.listPendingEvents source limit, known e.id := fun e member =>
      twin.numbered e (List.mem_of_mem_filter (List.mem_of_mem_take member))
    simp only [if_true, twin.listPendingEvents]
    refine .ok ?_
    rw [List.forall₂_map_right_iff]
    exact List.forall₂_same.mpr fun e member => ⟨listed e member, rfl⟩

theorem triggerSubscriber_lockstep (env : Env) {e : Event} (own : known e.id) (key : String) (dag : DagID) :
    Prog.Lockstep World.replay (Tied ρ known) Eq (triggerSubscriber env e key dag)
      (triggerSubscriber env (renumberEvent ρ e) key dag) := by
  refine .bind (lockstep_perform (o := .cachedDAG dag) fun s t tied => ?_) ?_
  · refine ⟨?_, congrArg List.tail tied.1, tied.2⟩
    show s.1.cached dag = t.1.cached dag
    rw [World.cached, tied.2.1]
    rfl
  rintro found _ rfl
  cases found with
  | none => exact .done rfl
  | some cached =>
    dsimp only
    split
    · exact .done rfl
    refine .bind (lockstep_perform (o := .now) fun s t tied => ?_) ?_
    · exact ⟨congrArg (fun answers => (answers.headD {}).now) tied.1, congrArg List.tail tied.1, tied.2⟩
    rintro date _ rfl
    have within : Within known (eventRun env cached.dag e key date).runID := by
      intro dag id same
      cases same
      exact own
    refine .bind (createDagRunBounded_lockstep within env.maxQueuedRunsGlobal).attempt ?_
    rintro _ _ agree
    cases agree with
    | ok _ => exact .done rfl
    | error err =>
      split
      · rename_i absurd_
        cases absurd_
      · exact .done rfl
      · exact .done rfl

theorem deliverExternalEvent_lockstep (env : Env) (dags : List DAG) {e : Event} (own : known e.id) (key : String) :
    Prog.Lockstep World.replay (Tied ρ known) (fun _ _ => True) (deliverExternalEvent env dags e key)
      (deliverExternalEvent env dags (renumberEvent ρ e) key) := by
  have same : List.Forall₂ Eq (subscribers dags key) (subscribers dags key) := List.forall₂_refl _
  refine .bind (.fold same ?_ false false rfl) ?_
  · rintro deferred _ dag _ rfl rfl
    refine .bind (triggerSubscriber_lockstep env own key dag) ?_
    rintro more _ rfl
    exact .done rfl
  rintro deferred _ rfl
  cases deferred with
  | true => exact .done trivial
  | false => exact .bind (consumeEvent_lockstep own).attempt fun _ _ _ => .done trivial

theorem processPendingExternalEvents_lockstep (env : Env) :
    Prog.Lockstep World.replay (Tied ρ known) (fun _ _ => True) (processPendingExternalEvents env)
      (processPendingExternalEvents env) := by
  refine .bind (listPendingEvents_lockstep .external 1000).attempt ?_
  intro _ _ agree
  cases agree with
  | error e => exact .done trivial
  | ok listed => cases listed with
    | nil => exact .done trivial
    | cons first others =>
      refine .bind (lockstep_perform (o := .allDAGs) fun s t tied => ?_) ?_
      · refine ⟨?_, congrArg List.tail tied.1, tied.2⟩
        show s.1.dags (s.2.headD {}).order = t.1.dags (t.2.headD {}).order
        rw [World.dags, World.dags, tied.1, tied.2.1]
        simp only [World.cached, tied.2.1]
      rintro dags _ rfl
      refine .forEach (.cons first others) ?_
      rintro e _ ⟨own, rfl⟩
      cases key : e.key with
      | text name =>
        have same : (renumberEvent ρ e).key = .text name := key
        simp only [same]
        exact deliverExternalEvent_lockstep env dags own name
      | run id =>
        have same : (renumberEvent ρ e).key = .run id := key
        simp only [same]
        exact deliverExternalEvent_lockstep env dags own id.text

end Passes

/-! ### Whole histories -/

/-- The target goes on as the source would. -/
def Mirrors (w v : World) : Prop := w.cache = v.cache ∧ ∃ ρ known, Twin ρ known w.db v.db

namespace Mirrors

variable {w v : World}

theorem apply (mirrors : Mirrors w v) (later : Later) : Mirrors (later.apply .source w) (later.apply .target v) := by
  obtain ⟨cache, ρ, known, twin⟩ := mirrors
  cases later with
  | publish key payload answers =>
    simp only [Later.apply, publishExternalEvent_db]
    refine ⟨cache, ?_⟩
    split
    · exact twin.publishEvent _ _ _
    · exact ⟨ρ, known, twin⟩
  | pass env answers =>
    have tied : Tied ρ known (w, answers) (v, answers) := ⟨rfl, cache, twin⟩
    obtain ⟨_, cache', twin'⟩ := (processPendingExternalEvents_lockstep env _ _ tied).2
    exact ⟨cache', ρ, known, twin'⟩
  | configure dags cache => exact ⟨rfl, ρ, known, { twin with dags := rfl }⟩
  | advance row state started finished => exact ⟨cache, ρ, known, twin.advanceRow row state started finished⟩
  | skip inSource inTarget => exact ⟨cache, ρ, known, twin.skipNumbers inSource inTarget⟩

theorem applyAll (mirrors : Mirrors w v) (later : List Later) :
    Mirrors (Later.applyAll .source w later) (Later.applyAll .target v later) := by
  induction later generalizing w v with
  | nil => exact mirrors
  | cons first rest ih => exact ih (mirrors.apply first)

end Mirrors

/-! ### The copy -/

section Copy

variable {db after : DB}

/-- The new number of an event is its place in the source. -/
def place (db : DB) (id : EventID) : EventID := if id = 0 then 0 else db.eventIDs.idxOf id + 1

theorem place_of_unbroken (numbered : db.Numbered) {id : EventID} (all : ∀ i, 1 ≤ i → i ≤ id → i ∈ db.eventIDs) :
    place db id = id := by
  unfold place
  split
  · rename_i zero
    exact zero.symm
  · rename_i positive
    have above : ∀ i ∈ db.eventIDs, 1 ≤ i := by
      intro i member
      obtain ⟨e, stored, rfl⟩ := List.mem_map.mp member
      exact numbered.positive e stored
    exact DB.idxOf_of_ascending numbered.ascending above all (Nat.one_le_iff_ne_zero.mpr positive)

theorem place_getElem (numbered : db.Numbered) {index : Nat} (bound : index < db.events.rows.length) :
    place db db.events.rows[index].id = index + 1 := by
  have positive := numbered.positive _ (List.getElem_mem bound)
  have distinct : db.eventIDs.Nodup := numbered.ascending.imp fun below => Nat.ne_of_lt below
  have own := distinct.idxOf_getElem index (by simpa [DB.eventIDs] using bound)
  rw [place, if_neg (Nat.one_le_iff_ne_zero.mp positive)]
  simpa [DB.eventIDs] using own

/-- If nothing is missing, no run's number changes, and the copy is a twin of the source. -/
theorem twin_of_unbroken (numbered : db.Numbered) (unbroken : db.Unbroken) (copied : db.migrateStore = .ok after) :
    Twin (place db) (fun id => id = 0 ∨ id ∈ db.eventIDs) db after := by
  obtain ⟨dags, runs, events, next⟩ := DB.migrateStore_ok copied
  refine ⟨dags, ?_, ?_, ?_, ?_, ?_, ?_⟩
  · rw [runs]
    have same : db.runs.rows.map (renumberRun (place db)) = db.runs.rows.map id := by
      apply List.map_congr_left
      intro r member
      cases own : r.runID with
      | event dag number =>
        have kept := place_of_unbroken numbered (unbroken r member dag number own)
        simp only [renumberRun, own, renumberID, kept]
        rw [← own]
        rfl
      | logical | manual | backfill | sub =>
        simp only [renumberRun, own, renumberID]
        rw [← own]
        rfl
    rw [same, List.map_id]
  · rw [events]
    apply List.ext_getElem
    · simp [DB.renumbered]
    · intro index left right
      have bound : index < db.events.rows.length := by simpa using right
      simp only [DB.renumbered, List.getElem_mapIdx, List.getElem_map, renumberEvent, place_getElem numbered bound]
  · intro r member dag id own
    by_cases zero : id = 0
    · exact .inl zero
    · exact .inr (unbroken r member dag id own id (Nat.one_le_iff_ne_zero.mpr zero) (Nat.le_refl _))
  · intro e member
    exact .inr (List.mem_map_of_mem member)
  · rintro i j left right same
    unfold place at same
    split at same <;> split at same
    · rename_i zero zero'
      exact zero.trans zero'.symm
    · cases same
    · cases same
    · rename_i apart apart'
      have left := left.resolve_left apart
      exact (List.idxOf_inj left).mp (Nat.succ.inj same)
  · intro i own
    rw [next]
    by_cases zero : i = 0
    · subst zero
      exact ⟨numbered.next, by simp [place]⟩
    · have member := own.resolve_left zero
      obtain ⟨e, stored, rfl⟩ := List.mem_map.mp member
      refine ⟨db.issued e stored, ?_⟩
      rw [place, if_neg zero]
      have bound := List.idxOf_lt_length_of_mem member
      simp only [DB.eventIDs, List.length_map] at bound ⊢
      exact Nat.succ_lt_succ bound

/-- A run whose number the copy gives to its own event has all the smaller ones before it. -/
theorem unbroken_of_preserves (numbered : db.Numbered) (copied : db.migrateStore = .ok after)
    (preserves : PreservesTriggers db after) : db.Unbroken := by
  obtain ⟨_, runs, events, next⟩ := DB.migrateStore_ok copied
  obtain ⟨same, unused⟩ := preserves .empty []
  simp only [Later.applyAll, List.foldl_nil] at same unused
  intro r member dag id own i low high
  -- the number has been handed out in the copy, so some event has it there
  have small : id ≤ db.events.rows.length := by
    by_contra large
    have none := unused dag id (next ▸ Nat.lt_of_not_le large)
    rw [DB.run?, runs] at none
    simpa [own] using List.find?_eq_none.mp none r member
  obtain ⟨index, rfl⟩ : ∃ index, id = index + 1 := Nat.exists_eq_add_of_le' (Nat.le_trans low high)
  have bound : index < db.events.rows.length := small
  -- and it is the event that the source has under this number
  have triggers : after.trigger r.runID = db.trigger r.runID := by
    simp only [DB.triggered, runs, List.map_inj_left, Prod.mk.injEq] at same
    exact (same r member).1
  have there : { db.events.rows[index] with id := index + 1 } ∈ after.events := by
    rw [events]
    exact DB.mem_renumbered.mpr ⟨index, bound, rfl⟩
  have found := DB.event?_of_mem there
  simp only at found
  rw [own] at triggers
  simp only [DB.trigger, found, Option.map_some, DB.Trigger.event.injEq, true_and] at triggers
  obtain ⟨e, sought, keys⟩ := Option.map_eq_some_iff.mp triggers.symm
  obtain ⟨stored, numbered'⟩ := DB.event?_some sought
  have identical : e = db.events.rows[index] := by
    apply Table.eq_of_clash DB.EventRow.apart_symm stored (List.getElem_mem bound)
    intro apart
    obtain ⟨source, key⟩ := Prod.mk.inj keys
    exact apart.2 (by simp [eventRow, source, key])
  have at_ : db.eventIDs[index]? = some (1 + index) := by
    simp [DB.eventIDs, bound, ← identical, numbered', Nat.add_comm]
  obtain ⟨bound', value⟩ := List.getElem?_eq_some_iff.mp at_
  have above : ∀ j ∈ db.eventIDs, 1 ≤ j := by
    intro j listed
    obtain ⟨x, stored, rfl⟩ := List.mem_map.mp listed
    exact numbered.positive x stored
  exact DB.mem_of_getElem numbered.ascending above bound' value low (Nat.add_comm 1 index ▸ high)

/-- The copy goes on as the source would exactly if no event number is missing up to the newest event
that has a run. -/
theorem migration_preserves_triggers (numbered : db.Numbered) (copied : db.migrateStore = .ok after) :
    PreservesTriggers db after ↔ db.Unbroken := by
  constructor
  · exact unbroken_of_preserves numbered copied
  · intro unbroken cache later
    have mirrors : Mirrors { db, cache } { db := after, cache } := ⟨rfl, _, _, twin_of_unbroken numbered unbroken copied⟩
    obtain ⟨_, _, _, twin⟩ := mirrors.applyAll later
    exact ⟨twin.triggered_eq, fun dag i above => twin.run?_fresh dag above⟩

end Copy

/-! A subscriber of two events, for the concrete cases. -/

def receiver : DAG := { dagID := "import", tasks := [{ id := "load" }], triggerOnEvent := ["upload", "refund"] }

def receiverCache : Cache := ⟨[⟨receiver, none⟩], List.pairwise_singleton _ _⟩

/-- The delivery of an event, and the run that came of it. -/
def received (id : EventID) : List Operation :=
  [.createDagRun { runID := .event "import" id, dagID := "import", logicalDate := 0, triggerType := .event },
    .consumeEvent id, .updateDagRunState (.event "import" id) .failed (some 0) (some Calendar.day)]

def receivedUpload : DB :=
  Operation.applyAll .empty ([.upsertDAG receiver, .publishEvent .external (.text "upload") ""] ++ received 1)

theorem receivedUpload_runs : receivedUpload.runs.rows.map (fun r => (r.runID, r.state)) =
    [(.event "import" 1, .failed)] := by
  decide +kernel

theorem received_upload_migrates : ∃ after, receivedUpload.migrateStore = .ok after ∧ PreservesTriggers receivedUpload after ∧
    receivedUpload.runs.rows.map (·.runID) = [.event "import" 1] := by
  have stored {r : DagRun} (member : r ∈ receivedUpload.runs) : r.runID = .event "import" 1 ∧ r.state = .failed := by
    have listed := List.mem_map_of_mem (f := fun r : DagRun => (r.runID, r.state)) member
    rw [receivedUpload_runs] at listed
    exact Prod.mk.inj (List.mem_singleton.mp listed)
  obtain ⟨after, copied⟩ : ∃ after, receivedUpload.migrateStore = .ok after := by
    apply DB.migrateStore_quiet
    intro r member
    rw [(stored member).2]
    rfl
  have numbered : receivedUpload.Numbered := Operation.numbered_applyAll _ DB.numbered_empty
  have events : receivedUpload.events.rows.map (·.id) = [1] := by decide +kernel
  have unbroken : receivedUpload.Unbroken := by
    intro r member dag id own i low high
    rw [(stored member).1] at own
    cases own
    rw [events, Nat.le_antisymm high low]
    exact List.mem_singleton_self 1
  refine ⟨after, copied, (migration_preserves_triggers numbered copied).mpr unbroken, ?_⟩
  simpa using congrArg (List.map Prod.fst) receivedUpload_runs

/-- The event before the upload goes with the run that it announced. -/
def prunedUpload : DB :=
  Operation.applyAll .empty ([.upsertDAG receiver, .upsertDAG etl, .createDagRun extract,
    .updateDagRunSuccess extract.runID (some 0) (some 0), .publishEvent .external (.text "upload") ""] ++ received 2 ++
    [.pruneRuns Calendar.day])

/-- A refund after the migration, and the pass that finds it. -/
def refund : List Later := [.publish "refund" "" [], .pass hourlyEnv [{}, {}, {}, { now := 1 }]]

theorem refund_is_lost : ∃ after, prunedUpload.Numbered ∧ prunedUpload.migrateStore = .ok after ∧
    ¬ PreservesTriggers prunedUpload after := by
  have quiet : (prunedUpload.runs.rows.all fun r => !r.state.isActive) = true := by decide +kernel
  obtain ⟨after, copied⟩ : ∃ after, prunedUpload.migrateStore = .ok after := by
    apply DB.migrateStore_quiet
    intro r member
    simpa using List.all_eq_true.mp quiet r member
  have numbered : prunedUpload.Numbered := Operation.numbered_applyAll _ DB.numbered_empty
  refine ⟨after, numbered, copied, fun preserves => ?_⟩
  have sizes := congrArg List.length (preserves receiverCache refund).1
  -- the copy refuses the refund as a redelivery of the upload
  have counted : (prunedUpload.migrateStore.toOption.map fun after =>
      ((Later.applyAll .target { db := after, cache := receiverCache } refund).db.triggered.length,
        (Later.applyAll .source { db := prunedUpload, cache := receiverCache } refund).db.triggered.length)) =
      some (1, 2) := by decide +kernel
  rw [copied] at counted
  obtain ⟨one, two⟩ := Prod.mk.inj (Option.some.inj counted)
  rw [one, two] at sizes
  cases sizes

end Cronova.Scheduler
