import Cronova.Scheduler.Delivery
import Cronova.Scheduler.Frame
import Cronova.Scheduler.Schedule

/-! External events: what the deliveries of an event amount to, whatever the queue and the
store do to single subscribers in between. -/

set_option autoImplicit false

namespace Cronova.Scheduler

open Model Store Process
open Calendar (Time)

/-- A world, the surroundings still to come, and what was issued so far. -/
abbrev Recording := (World × List Answer) × List (Issued statements)

namespace Recording

def world (s : Recording) : World := s.1.1

def log (s : Recording) : List (Issued statements) := s.2

end Recording

/-- The key column of an event. -/
def EventKey.column : EventKey → String
  | .run id => id.text
  | .text key => key

/-- The DAG is cached with a subscription to the key. -/
def World.Listens (w : World) (dag : DagID) (key : String) : Prop := ∃ c, w.cached dag = some c ∧ key ∈ c.dag.triggerOnEvent

/-- The subscription is live: the DAG is neither paused nor empty. -/
def World.Subscribes (w : World) (dag : DagID) (key : String) : Prop :=
  ∃ c, w.cached dag = some c ∧ key ∈ c.dag.triggerOnEvent ∧ c.dag.paused = false ∧ c.dag.tasks ≠ []

/-- A pass of `processPendingExternalEvents`: where it starts and its surroundings. -/
structure ExternalPass where
  world : World
  answers : List Answer

namespace ExternalPass

variable (env : Env) (p : ExternalPass)

def outcome : Recording :=
  ((processPendingExternalEvents env).run (Prog.recorded World.replay) ((p.world, p.answers), [])).2

def after : World := (p.outcome env).world

/-- The event was among those that the pass listed. -/
def Saw (e : Event) : Prop :=
  ∃ events, ⟨.listPendingEvents .external 1000, .ok events⟩ ∈ (p.outcome env).log ∧ e ∈ events

/-- The pass tried to consume the event. -/
def Consumes (id : EventID) : Prop := ∃ reply, ⟨.consumeEvent id, reply⟩ ∈ (p.outcome env).log

/-- The store refused a run that the pass asked for. -/
def Refused (run : DagRun) (e : StoreError) : Prop :=
  ∃ global, ⟨.createDagRunBounded run global, .error e⟩ ∈ (p.outcome env).log

end ExternalPass

/-- The clock readings are distinct: no other run of the DAG has the date of a run that was
refused because it exists. -/
def DistinctDates (s : Recording) : Prop :=
  ∀ run global, ⟨.createDagRunBounded run global, .error .alreadyExists⟩ ∈ s.log →
    ∀ key ∈ s.world.db.runs.rows.map runKey, key.dag = run.dagID → key.date = run.logicalDate → key.run = run.runID

/-- What else may happen: anything that leaves external events and the runs they made alone. -/
structure Meanwhile (w v : World) : Prop where
  events : ∀ e, e.source = .external → (e ∈ v.db.events ↔ e ∈ w.db.events)
  runs : ∀ dag id, (∃ r ∈ v.db.runs, r.runID = .event dag id) ↔ ∃ r ∈ w.db.runs, r.runID = .event dag id

/-- A history of publications and passes. -/
inductive Deliveries (env : Env) : World → List ExternalPass → Prop where
  | start {w : World} : (∀ e ∈ w.db.events, e.source = .external → e.consumed = false) →
      (∀ r ∈ w.db.runs, ∀ dag id, r.runID ≠ .event dag id) → Deliveries env w []
  | publish {w : World} {passes : List ExternalPass} (key payload : String) (answers : List Answer) :
      Deliveries env w passes →
      Deliveries env ((publishExternalEvent key payload).run World.replay (w, answers)).2.1 passes
  | meanwhile {w v : World} {passes : List ExternalPass} : Deliveries env w passes → Meanwhile w v → Deliveries env v passes
  | pass {w : World} {passes : List ExternalPass} (answers : List Answer) : Deliveries env w passes →
      DistinctDates (ExternalPass.outcome env ⟨w, answers⟩) →
      Deliveries env (ExternalPass.after env ⟨w, answers⟩) (passes ++ [⟨w, answers⟩])

section Step

variable {o : Op} {s t : Recording} {reply : o.Reply}

/-- One statement of a recorded run. -/
theorem recorded_step (stepped : Prog.recorded World.replay o s = (reply, t)) :
    t.log = s.log ++ [⟨o, reply⟩] ∧
      ((∃ a spawned, World.perform 0 o a s.world = some (reply, t.world, spawned)) ∨
        (∃ a, World.perform 0 o a s.world = none) ∧ t.world = s.world) := by
  obtain ⟨inner, log⟩ := s
  have issued : World.replay o inner = (reply, t.1) := by
    cases stepped
    rfl
  refine ⟨?_, World.replay_step issued⟩
  cases stepped
  rfl

theorem DistinctDates.back (o : Op) (s : Recording) (later : DistinctDates (Prog.recorded World.replay o s).2) :
    DistinctDates s := by
  obtain ⟨log, performed⟩ := recorded_step (Prod.mk.eta (p := Prog.recorded World.replay o s)).symm
  intro run global refused key stored
  refine later run global (log ▸ List.mem_append_left _ refused) key ?_
  obtain ⟨a, spawned, performed⟩ | ⟨_, same⟩ := performed
  · obtain ⟨_, _, _, same | written⟩ := World.perform_some performed
    · rw [same]
      exact stored
    · exact (Op.writes_runKeys written).subset stored
  · rw [same]
    exact stored

end Step

/-! ### One pass -/

/-- What a pass has done so far with the events it listed. -/
structure Delivering (w₀ : World) (listed : List Event) (s : Recording) : Prop where
  cache : s.world.cache = w₀.cache
  kept : ∀ r ∈ w₀.db.runs, r ∈ s.world.db.runs
  made : ∀ r ∈ s.world.db.runs, r ∈ w₀.db.runs ∨
    ∃ e ∈ listed, ∃ dag, r.runID = .event dag e.id ∧ w₀.Listens dag (EventKey.column e.key)
  rows : ∀ e ∈ s.world.db.events, ∃ e₀ ∈ w₀.db.events, eventRow e₀ = eventRow e
  consumed : ∀ e ∈ s.world.db.events, e.consumed = true → e ∈ w₀.db.events ∨
    (∃ e' ∈ listed, eventRow e' = eventRow e) ∧
      ∀ dag, w₀.Subscribes dag (EventKey.column e.key) → ∃ r ∈ s.world.db.runs, r.runID = .event dag e.id

/-- What the log says of the events that are done with; `rest` are still to come. -/
structure Logged (rest : List EventID) (log : List (Issued statements)) : Prop where
  sound : ∀ id reply, ⟨.consumeEvent id, reply⟩ ∈ log → ∀ run global err dag,
    ⟨.createDagRunBounded run global, .error err⟩ ∈ log → run.runID = .event dag id → err = .alreadyExists
  consumes : ∀ id reply, ⟨.consumeEvent id, reply⟩ ∈ log → id ∉ rest
  creates : ∀ run global reply, ⟨.createDagRunBounded run global, reply⟩ ∈ log →
    ∃ dag id, run.runID = .event dag id ∧ id ∉ rest

/-- The log while the subscribers of the event `id` are served. -/
structure Serving (id : EventID) (rest : List EventID) (deferred : Bool) (log : List (Issued statements)) : Prop where
  logged : Logged rest log
  pending : ∀ reply, ⟨.consumeEvent id, reply⟩ ∉ log
  clean : deferred = false → ∀ run global err dag, ⟨.createDagRunBounded run global, .error err⟩ ∈ log →
    run.runID = .event dag id → err = .alreadyExists

theorem Logged.serving {id : EventID} {rest : List EventID} {log : List (Issued statements)} (logged : Logged (id :: rest) log) :
    Serving id rest false log := by
  refine ⟨⟨logged.sound, ?_, ?_⟩, ?_, ?_⟩
  · intro other reply listed member
    exact logged.consumes other reply listed (.tail _ member)
  · intro run global reply listed
    obtain ⟨dag, other, same, fresh⟩ := logged.creates run global reply listed
    exact ⟨dag, other, same, fun member => fresh (.tail _ member)⟩
  · intro reply listed
    exact logged.consumes id reply listed (.head _)
  · intro _ run global err dag listed same
    obtain ⟨dag', other, same', fresh⟩ := logged.creates run global _ listed
    rw [same] at same'
    cases same'
    exact absurd (.head _) fresh

/-- A statement that neither creates a run nor consumes an event. -/
def Neutral : Op → Prop
  | .createDagRunBounded _ _ | .consumeEvent _ => False
  | _ => True

section Logs

variable {id : EventID} {rest : List EventID} {deferred : Bool} {log : List (Issued statements)}

theorem mem_neutral {o : Op} {reply : o.Reply} {x : Issued statements} (neutral : Neutral o) (active : ¬ Neutral x.1)
    (member : x ∈ log ++ [⟨o, reply⟩]) : x ∈ log := by
  rcases List.mem_append.mp member with old | new
  · exact old
  · cases List.mem_singleton.mp new
    exact absurd neutral active

theorem created_neutral {o : Op} {reply : o.Reply} (neutral : Neutral o) {run : DagRun} {global : Int}
    {answer : Except StoreError Unit} (listed : ⟨.createDagRunBounded run global, answer⟩ ∈ log ++ [⟨o, reply⟩]) :
    (⟨.createDagRunBounded run global, answer⟩ : Issued statements) ∈ log :=
  mem_neutral (x := ⟨.createDagRunBounded run global, answer⟩) neutral (fun active => active) listed

theorem consumed_neutral {o : Op} {reply : o.Reply} (neutral : Neutral o) {other : EventID}
    {answer : Except StoreError Unit} (listed : ⟨.consumeEvent other, answer⟩ ∈ log ++ [⟨o, reply⟩]) :
    (⟨.consumeEvent other, answer⟩ : Issued statements) ∈ log :=
  mem_neutral (x := ⟨.consumeEvent other, answer⟩) neutral (fun active => active) listed

theorem Logged.nil (rest : List EventID) : Logged rest [] := ⟨by simp, by simp, by simp⟩

theorem Logged.neutral {o : Op} (neutral : Neutral o) (reply : o.Reply) (logged : Logged rest log) :
    Logged rest (log ++ [⟨o, reply⟩]) := by
  refine ⟨?_, ?_, ?_⟩
  · intro other answer consumed run global err dag refused
    exact logged.sound other answer (consumed_neutral neutral consumed) run global err dag (created_neutral neutral refused)
  · intro other answer consumed
    exact logged.consumes other answer (consumed_neutral neutral consumed)
  · intro run global answer created
    exact logged.creates run global answer (created_neutral neutral created)

theorem Serving.neutral {o : Op} (neutral : Neutral o) (reply : o.Reply) (serving : Serving id rest deferred log) :
    Serving id rest deferred (log ++ [⟨o, reply⟩]) := by
  refine ⟨serving.logged.neutral neutral reply, ?_, ?_⟩
  · intro reply' consumed
    exact serving.pending reply' (consumed_neutral neutral consumed)
  · intro served run global err dag refused
    exact serving.clean served run global err dag (created_neutral neutral refused)

/-- The store's answer to a subscriber's run decides whether the event is deferred. -/
theorem Serving.creates {run : DagRun} {global : Int} {dag : DagID} (own : run.runID = .event dag id) (fresh : id ∉ rest)
    (reply : Except StoreError Unit) (more : Bool) (kept : more = false → ∀ err, reply = .error err → err = .alreadyExists)
    (serving : Serving id rest deferred log) :
    Serving id rest (deferred || more) (log ++ [⟨.createDagRunBounded run global, reply⟩]) := by
  have consumes (other : EventID) (reply' : Except StoreError Unit)
      (member : ⟨.consumeEvent other, reply'⟩ ∈ log ++ [(⟨.createDagRunBounded run global, reply⟩ : Issued statements)]) :
      (⟨.consumeEvent other, reply'⟩ : Issued statements) ∈ log := by
    rcases List.mem_append.mp member with old | new
    · exact old
    · cases List.mem_singleton.mp new
  refine ⟨⟨?_, ?_, ?_⟩, ?_, ?_⟩
  · intro other reply' consumed run' global' err dag' refused same
    replace consumed := consumes other reply' consumed
    rcases List.mem_append.mp refused with old | new
    · exact serving.logged.sound other reply' consumed run' global' err dag' old same
    · cases List.mem_singleton.mp new
      rw [own] at same
      cases same
      exact absurd consumed (serving.pending reply')
  · intro other reply' consumed
    exact serving.logged.consumes other reply' (consumes other reply' consumed)
  · intro run' global' reply' created
    rcases List.mem_append.mp created with old | new
    · exact serving.logged.creates run' global' reply' old
    · cases List.mem_singleton.mp new
      exact ⟨dag, id, own, fresh⟩
  · intro reply' consumed
    exact serving.pending reply' (consumes id reply' consumed)
  · intro served run' global' err dag' refused same
    obtain ⟨before, now⟩ := Bool.or_eq_false_iff.mp served
    rcases List.mem_append.mp refused with old | new
    · exact serving.clean before run' global' err dag' old same
    · cases List.mem_singleton.mp new
      exact kept now err rfl

/-- The event is consumed once all its subscribers are served. -/
theorem Serving.consumes (fresh : id ∉ rest) (reply : Except StoreError Unit) (serving : Serving id rest false log) :
    Logged rest (log ++ [⟨.consumeEvent id, reply⟩]) := by
  have creates (run : DagRun) (global : Int) (reply' : Except StoreError Unit)
      (member : ⟨.createDagRunBounded run global, reply'⟩ ∈ log ++ [(⟨.consumeEvent id, reply⟩ : Issued statements)]) :
      (⟨.createDagRunBounded run global, reply'⟩ : Issued statements) ∈ log := by
    rcases List.mem_append.mp member with old | new
    · exact old
    · cases List.mem_singleton.mp new
  refine ⟨?_, ?_, ?_⟩
  · intro other reply' consumed run global err dag refused same
    replace refused := creates run global _ refused
    rcases List.mem_append.mp consumed with old | new
    · exact serving.logged.sound other reply' old run global err dag refused same
    · cases List.mem_singleton.mp new
      exact serving.clean rfl run global err dag refused same
  · intro other reply' consumed
    rcases List.mem_append.mp consumed with old | new
    · exact serving.logged.consumes other reply' old
    · cases List.mem_singleton.mp new
      exact fresh
  · intro run global reply' created
    exact serving.logged.creates run global reply' (creates run global reply' created)

end Logs

section Worlds

variable {w₀ : World} {listed : List Event} {s t : Recording} {e : Event}

/-- The run of an event for a DAG is stored. -/
def Recording.Has (s : Recording) (dag : DagID) (id : EventID) : Prop := ∃ r ∈ s.world.db.runs, r.runID = .event dag id

theorem Delivering.same (delivering : Delivering w₀ listed s) (world : t.world = s.world) : Delivering w₀ listed t := by
  obtain ⟨cache, kept, made, rows, consumed⟩ := delivering
  exact ⟨world ▸ cache, world ▸ kept, world ▸ made, world ▸ rows, world ▸ consumed⟩

theorem Delivering.creates (delivering : Delivering w₀ listed s) (listed_ : e ∈ listed) {r : DagRun} {global : Int} {db : DB}
    {dag : DagID} (own : r.runID = .event dag e.id) (listens : w₀.Listens dag (EventKey.column e.key))
    (created : s.world.db.createDagRunBounded r global = .ok db) (world : t.world = { s.world with db }) :
    Delivering w₀ listed t ∧ (∀ x ∈ s.world.db.runs, x ∈ t.world.db.runs) ∧ t.Has dag e.id := by
  obtain ⟨_, _, inserted⟩ := DB.createDagRunBounded_ok created
  obtain ⟨_, rows, _, _, events, _⟩ := DB.insertRun_ok inserted
  have runs (x : DagRun) : x ∈ t.world.db.runs ↔ x ∈ s.world.db.runs ∨ x = r := by
    simp [Table.mem_def, world, rows]
  have same (x : Event) : x ∈ t.world.db.events ↔ x ∈ s.world.db.events := by rw [world, ← events]
  refine ⟨⟨world ▸ delivering.cache, ?_, ?_, ?_, ?_⟩, fun x member => (runs x).mpr (.inl member), r, (runs r).mpr (.inr rfl), own⟩
  · exact fun x member => (runs x).mpr (.inl (delivering.kept x member))
  · intro x member
    rcases (runs x).mp member with old | rfl
    · exact delivering.made x old
    · exact .inr ⟨e, listed_, dag, own, listens⟩
  · exact fun x member => delivering.rows x ((same x).mp member)
  · intro x member taken
    rcases delivering.consumed x ((same x).mp member) taken with old | ⟨seen, served⟩
    · exact .inl old
    · refine .inr ⟨seen, fun dag' subscribes => ?_⟩
      obtain ⟨y, stored, id⟩ := served dag' subscribes
      exact ⟨y, (runs y).mpr (.inl stored), id⟩

theorem Delivering.consumes (delivering : Delivering w₀ listed s) (known : ∀ x ∈ listed, x ∈ w₀.db.events) (listed_ : e ∈ listed)
    (served : ∀ dag, w₀.Subscribes dag (EventKey.column e.key) → s.Has dag e.id)
    (world : t.world = { s.world with db := s.world.db.consumeEvent e.id }) : Delivering w₀ listed t := by
  have events (x : Event) : x ∈ t.world.db.events ↔ (x ∈ s.world.db.events ∧ (x.id == e.id) = false) ∨
      ∃ y ∈ s.world.db.events, (y.id == e.id) = true ∧ { y with consumed := true } = x := by
    rw [world]
    exact DB.mem_setConsumed _ _ _
  have runs : t.world.db.runs = s.world.db.runs := by
    rw [world]
    rfl
  -- the row with the id of `e` has its key too
  have key (y : Event) (member : y ∈ s.world.db.events) (id : (y.id == e.id) = true) : eventRow e = eventRow y := by
    obtain ⟨y₀, stored, row⟩ := delivering.rows y member
    have clash : ¬ EventRow.apart (eventRow y₀) (eventRow e) := by
      intro apart
      rw [row] at apart
      exact apart.1 (beq_iff_eq.mp id)
    rw [← row, Table.eq_of_clash DB.EventRow.apart_symm stored (known e listed_) clash]
  refine ⟨world ▸ delivering.cache, runs ▸ delivering.kept, runs ▸ delivering.made, ?_, ?_⟩
  · intro x member
    rcases (events x).mp member with ⟨old, _⟩ | ⟨y, old, _, rfl⟩
    · exact delivering.rows x old
    · exact delivering.rows y old
  · intro x member taken
    rcases (events x).mp member with ⟨old, _⟩ | ⟨y, old, chosen, rfl⟩
    · rcases delivering.consumed x old taken with before | ⟨seen, done⟩
      · exact .inl before
      · exact .inr ⟨seen, runs ▸ done⟩
    · have row := key y old chosen
      have same : e.key = y.key := congrArg EventRow.key row
      have id : e.id = y.id := congrArg EventRow.id row
      refine .inr ⟨⟨e, listed_, row⟩, ?_⟩
      rw [runs, ← same, ← id]
      exact served

end Worlds

section Verification

variable (env : Env) {w₀ : World} {listed : List Event} {e : Event} {rest : List EventID}

abbrev external : Contract statements Recording := Prog.sequential (Prog.recorded World.replay) DistinctDates

theorem mem_subscribers {w : World} {order : Shuffle} {key : String} {dag : DagID} :
    dag ∈ subscribers (w.dags order) key ↔ w.Listens dag key := by
  unfold subscribers World.Listens
  simp only [List.mem_flatMap, List.mem_map, List.mem_filter, beq_iff_eq]
  constructor
  · rintro ⟨d, listed, _, ⟨subscribed, rfl⟩, rfl⟩
    obtain ⟨id, _, found⟩ := List.mem_filterMap.mp listed
    obtain ⟨c, lookup, rfl⟩ := Option.map_eq_some_iff.mp found
    exact ⟨c, (World.cached_id lookup).symm ▸ lookup, subscribed⟩
  · rintro ⟨c, lookup, subscribed⟩
    have owner : c.dag.dagID = dag := World.cached_id lookup
    exact ⟨c.dag, World.mem_dags (d := c.dag) (owner ▸ lookup) order, key, ⟨subscribed, rfl⟩, owner⟩

/-- The state between two subscribers of an event. -/
structure Round (w₀ : World) (listed : List Event) (e : Event) (rest : List EventID) (deferred : Bool) (s : Recording) : Prop where
  delivering : Delivering w₀ listed s
  serving : Serving e.id rest deferred s.log
  listing : ⟨.listPendingEvents .external 1000, .ok listed⟩ ∈ s.log

theorem Round.neutral {deferred : Bool} {s t : Recording} {o : Op} {reply : o.Reply} (neutral : Neutral o)
    (round : Round w₀ listed e rest deferred s) (log : t.log = s.log ++ [⟨o, reply⟩]) (world : t.world = s.world) :
    Round w₀ listed e rest deferred t := by
  refine ⟨round.delivering.same world, ?_, ?_⟩
  · rw [log]
    exact round.serving.neutral neutral reply
  · rw [log]
    exact List.mem_append_left _ round.listing

theorem triggerSubscriber_safe (listed_ : e ∈ listed) (fresh : e.id ∉ rest) {dag : DagID}
    (listens : w₀.Listens dag (EventKey.column e.key)) (deferred : Bool) (s : Recording) (round : Round w₀ listed e rest deferred s) :
    (triggerSubscriber env e (EventKey.column e.key) dag).Safe external
      (Prog.returns fun more t => Round w₀ listed e rest (deferred || more) t ∧ (∀ x ∈ s.world.db.runs, x ∈ t.world.db.runs) ∧
        (more = false → w₀.Subscribes dag (EventKey.column e.key) → t.Has dag e.id)) s := by
  rintro _ rfl _
  refine ⟨trivial, fun reply t stepped _ => ?_⟩
  obtain ⟨read, world, log⟩ : reply = s.world.cached dag ∧ t.world = s.world ∧ t.log = s.log ++ [⟨.cachedDAG dag, reply⟩] := by
    cases stepped
    exact ⟨rfl, rfl, rfl⟩
  have view : reply = w₀.cached dag := by rw [read, World.cached, round.delivering.cache]; rfl
  replace round := round.neutral (o := .cachedDAG dag) trivial log world
  cases reply with
  | none =>
    obtain ⟨c, found, _⟩ := listens
    rw [← view] at found
    cases found
  | some c =>
    show Prog.Safe _ (if (c.dag.paused || c.dag.tasks.isEmpty) = true then _ else _) _ _
    split
    · rename_i missed
      refine ⟨by simpa using round, fun x member => world ▸ member, fun _ subscribes => ?_⟩
      obtain ⟨c', found, _, unpaused, tasks⟩ := subscribes
      rw [← view] at found
      cases found
      simp [unpaused, tasks] at missed
    · rintro _ rfl _
      refine ⟨trivial, fun date u stepped _ => ?_⟩
      obtain ⟨world', log'⟩ : u.world = t.world ∧ u.log = t.log ++ [⟨.now, date⟩] := by
        cases stepped
        exact ⟨rfl, rfl⟩
      replace round := round.neutral (o := .now) trivial log' world'
      rintro _ rfl _
      refine ⟨trivial, fun reply v stepped distinct => ?_⟩
      obtain ⟨log'', ⟨a, spawned, performed⟩ | ⟨⟨a, stuck⟩, _⟩⟩ := recorded_step stepped
      case inr => exact absurd stuck (World.write_ne_none _ _)
      have own : (eventRun env c.dag e (EventKey.column e.key) date).runID = .event dag e.id := by
        rw [← World.cached_id (w := w₀) view.symm]
        rfl
      have keeps : ∀ x ∈ s.world.db.runs, x ∈ u.world.db.runs := by
        rw [world', world]
        exact fun x member => member
      have entry : ⟨.listPendingEvents .external 1000, .ok listed⟩ ∈ v.log := log'' ▸ List.mem_append_left _ round.listing
      obtain ⟨_, ⟨db, created, rfl, after⟩ | ⟨⟨err, rfl⟩, after⟩⟩ := World.write_some performed
      · obtain ⟨delivering, grown, has⟩ := round.delivering.creates listed_ own listens created after
        refine ⟨⟨delivering, ?_, entry⟩, fun x member => grown x (keeps x member), fun _ _ => has⟩
        rw [log'']
        exact round.serving.creates own fresh (.ok ()) false (by rintro _ _ ⟨⟩)
      · have refused (more : Bool) (kept : more = false → err = .alreadyExists) :
            Round w₀ listed e rest (deferred || more) v := by
          refine ⟨round.delivering.same after, ?_, entry⟩
          rw [log'']
          refine round.serving.creates own fresh (.error err) more ?_
          rintro done _ ⟨⟩
          exact kept done
        have grown : ∀ x ∈ s.world.db.runs, x ∈ v.world.db.runs := fun x member => after ▸ keeps x member
        cases err with
        | alreadyExists =>
          refine ⟨refused false fun _ => rfl, grown, fun _ _ => ?_⟩
          have clash : u.world.db.createDagRunBounded (eventRun env c.dag e (EventKey.column e.key) date)
              env.maxQueuedRunsGlobal = .error .alreadyExists := by
            rcases World.write_error performed with same | impossible
            · exact same
            · cases impossible
          obtain ⟨x, stored, clashes⟩ := DB.createDagRunBounded_exists clash
          replace stored : x ∈ v.world.db.runs := after ▸ stored
          refine ⟨x, stored, ?_⟩
          by_contra other
          -- the clash is not one of run ids, so it would be one of dates
          have dates : x.dagID = (eventRun env c.dag e (EventKey.column e.key) date).dagID ∧ x.logicalDate = date := by
            by_contra differ
            exact clashes ⟨fun same => other (same.trans own), differ⟩
          refine other ((distinct _ env.maxQueuedRunsGlobal ?_ (runKey x) (List.mem_map_of_mem stored) dates.1 dates.2).trans own)
          rw [log'']
          exact List.mem_append_right _ (List.mem_singleton.mpr rfl)
        | notFound => exact ⟨refused true (by rintro ⟨⟩), grown, by rintro ⟨⟩⟩
        | queueFull => exact ⟨refused true (by rintro ⟨⟩), grown, by rintro ⟨⟩⟩
        | illegalRunTransition => exact ⟨refused true (by rintro ⟨⟩), grown, by rintro ⟨⟩⟩
        | unavailable => exact ⟨refused true (by rintro ⟨⟩), grown, by rintro ⟨⟩⟩

/-- The state between two events of a pass. -/
structure Outer (w₀ : World) (listed : List Event) (rest : List EventID) (s : Recording) : Prop where
  delivering : Delivering w₀ listed s
  logged : Logged rest s.log
  listing : ⟨.listPendingEvents .external 1000, .ok listed⟩ ∈ s.log

theorem serveSubscribers_safe (listed_ : e ∈ listed) (fresh : e.id ∉ rest) (order : Shuffle) (s : Recording)
    (round : Round w₀ listed e rest false s) :
    (Prog.fold (fun deferred dag => do
      let more ← triggerSubscriber env e (EventKey.column e.key) dag
      pure (deferred || more)) (subscribers (w₀.dags order) (EventKey.column e.key)) false).Safe external
      (Prog.returns fun deferred t => Round w₀ listed e rest deferred t ∧
        (deferred = false → ∀ dag, w₀.Subscribes dag (EventKey.column e.key) → t.Has dag e.id)) s := by
  let subs := subscribers (w₀.dags order) (EventKey.column e.key)
  -- every subscriber is still to come, or has its run, or defers the event
  apply Prog.Safe.fold fun left deferred t => Round w₀ listed e rest deferred t ∧ (∀ dag ∈ left, dag ∈ subs) ∧
    ∀ dag ∈ subs, dag ∈ left ∨ deferred = true ∨ (w₀.Subscribes dag (EventKey.column e.key) → t.Has dag e.id)
  · exact ⟨round, fun dag member => member, fun dag member => .inl member⟩
  · rintro dag left deferred t ⟨round, among, progress⟩
    obtain ⟨own, among⟩ := List.forall_mem_cons.mp among
    refine Prog.Safe.andThen _ (triggerSubscriber_safe env listed_ fresh (mem_subscribers.mp own) deferred t round) ?_
    rintro more u ⟨round, grown, has⟩
    refine ⟨round, among, fun other member => ?_⟩
    rcases progress other member with todo | late | done
    · rcases List.mem_cons.mp todo with rfl | later
      · cases more with
        | true => exact .inr (.inl (Bool.or_true _))
        | false => exact .inr (.inr (has rfl))
      · exact .inl later
    · exact .inr (.inl (by simp [late]))
    · refine .inr (.inr fun subscribes => ?_)
      obtain ⟨x, stored, id⟩ := done subscribes
      exact ⟨x, grown x stored, id⟩
  · rintro deferred t ⟨round, _, progress⟩
    refine ⟨round, fun served dag subscribes => ?_⟩
    obtain ⟨c, found, subscribed, live⟩ := subscribes
    rcases progress dag (mem_subscribers.mpr ⟨c, found, subscribed⟩) with todo | late | done
    · cases todo
    · rw [served] at late
      cases late
    · exact done ⟨c, found, subscribed, live⟩

theorem deliverExternalEvent_safe (known : ∀ x ∈ listed, x ∈ w₀.db.events) (listed_ : e ∈ listed) (fresh : e.id ∉ rest)
    (order : Shuffle) (s : Recording) (outer : Outer w₀ listed (e.id :: rest) s) :
    (deliverExternalEvent env (w₀.dags order) e (EventKey.column e.key)).Safe external
      (Prog.returns fun _ t => Outer w₀ listed rest t) s := by
  have round : Round w₀ listed e rest false s := ⟨outer.delivering, outer.logged.serving, outer.listing⟩
  refine Prog.Safe.andThen _ (serveSubscribers_safe env listed_ fresh order s round) ?_
  rintro deferred t ⟨round, served⟩
  cases deferred with
  | true => exact ⟨round.delivering, round.serving.logged, round.listing⟩
  | false =>
    rintro _ rfl _
    refine ⟨trivial, fun reply u stepped _ => ?_⟩
    obtain ⟨log, ⟨a, spawned, performed⟩ | ⟨⟨a, stuck⟩, _⟩⟩ := recorded_step stepped
    case inr => exact absurd stuck (World.write_ne_none _ _)
    have delivering : Delivering w₀ listed u := by
      obtain ⟨_, ⟨db, written, _, after⟩ | ⟨_, after⟩⟩ := World.write_some performed
      · cases written
        exact round.delivering.consumes known listed_ (served rfl) after
      · exact round.delivering.same after
    have done : Outer w₀ listed rest u := by
      refine ⟨delivering, ?_, ?_⟩
      · rw [log]
        exact round.serving.consumes fresh reply
      · rw [log]
        exact List.mem_append_left _ round.listing
    cases reply with
    | ok _ => exact done
    | error _ => exact done

/-- What a pass leaves behind: the facts of its deliveries, if it listed any event at all. -/
theorem pass_delivers (p : ExternalPass) (distinct : DistinctDates (p.outcome env)) :
    (p.after env).db = p.world.db ∧ Logged [] (p.outcome env).log ∨
      ∃ listed, (∀ e ∈ listed, e ∈ p.world.db.events) ∧ Outer p.world listed [] (p.outcome env) := by
  have idle (s : Recording) (world : s.world = p.world) {o : Op} {reply : o.Reply} (neutral : Neutral o)
      (log : s.log = [⟨o, reply⟩]) : s.world.db = p.world.db ∧ Logged [] s.log := by
    refine ⟨by rw [world], ?_⟩
    rw [log]
    exact Logged.neutral neutral reply (Logged.nil [])
  have safe : (processPendingExternalEvents env).Safe external (fun _ t => t.world.db = p.world.db ∧ Logged [] t.log ∨
      ∃ listed, (∀ e ∈ listed, e ∈ p.world.db.events) ∧ Outer p.world listed [] t) ((p.world, p.answers), []) := by
    rintro _ rfl _
    refine ⟨trivial, fun reply t stepped _ => ?_⟩
    obtain ⟨log, ⟨a, spawned, performed⟩ | ⟨⟨a, stuck⟩, _⟩⟩ := recorded_step stepped
    case inr => cases stuck
    obtain ⟨world, _, answered⟩ := World.read_some performed
    replace log : t.log = [⟨.listPendingEvents .external 1000, reply⟩] := log
    cases reply with
    | error err => exact .inl (idle t world (o := .listPendingEvents .external 1000) trivial log)
    | ok listed =>
      have found : listed = p.world.db.listPendingEvents .external 1000 := by
        rcases answered with same | failed
        · exact Except.ok.inj same
        · cases failed
      cases listed with
      | nil => exact .inl (idle t world (o := .listPendingEvents .external 1000) trivial log)
      | cons first others =>
        have known : ∀ e ∈ first :: others, e ∈ p.world.db.events := by
          intro e member
          rw [found] at member
          exact List.mem_of_mem_filter (List.mem_of_mem_take member)
        have ids : ((first :: others).map (·.id)).Nodup := by
          have rows : (p.world.db.events.rows.map (·.id)).Nodup := by
            have distinct := List.pairwise_map.mp p.world.db.events.distinct
            exact List.pairwise_map.mpr (distinct.imp fun apart => apart.1)
          rw [found]
          exact rows.sublist ((List.take_sublist _ _).trans List.filter_sublist |>.map _)
        rintro _ rfl _
        refine ⟨trivial, fun dags u stepped _ => ?_⟩
        obtain ⟨order, listing, world', log'⟩ : ∃ order, dags = t.world.dags order ∧ u.world = t.world ∧
            u.log = t.log ++ [⟨.allDAGs, dags⟩] := by
          cases stepped
          exact ⟨(t.1.2.headD {}).order, rfl, rfl, rfl⟩
        obtain rfl : dags = p.world.dags order := listing.trans (by rw [world]; rfl)
        have start : Outer p.world (first :: others) ((first :: others).map (·.id)) u := by
          have same : u.world = p.world := world'.trans world
          refine ⟨⟨by rw [same], by rw [same]; exact fun _ member => member, by rw [same]; exact fun _ member => .inl member,
            by rw [same]; exact fun e member => ⟨e, member, rfl⟩, by rw [same]; exact fun _ member _ => .inl member⟩, ?_, ?_⟩
          · rw [log', log]
            exact Logged.neutral (o := .allDAGs) trivial _ (Logged.neutral (o := .listPendingEvents .external 1000)
              trivial _ (Logged.nil _))
          · rw [log', log]
            simp
        -- the loop invariant is `Outer` for the events that are left
        apply Prog.Safe.forEach fun left s => Outer p.world (first :: others) (left.map (·.id)) s ∧
          (left.map (·.id)).Nodup ∧ ∀ e ∈ left, e ∈ first :: others
        · exact ⟨start, ids, fun _ member => member⟩
        · rintro e left s ⟨outer, distinct, among⟩
          obtain ⟨fresh, distinct⟩ := List.nodup_cons.mp distinct
          obtain ⟨listed_, among⟩ := List.forall_mem_cons.mp among
          have delivered := deliverExternalEvent_safe env known listed_ fresh order s outer
          cases key : e.key with
          | text name =>
            rw [key] at delivered
            refine delivered.mono fun r v kept => ?_
            cases r with
            | ok _ => exact ⟨kept, distinct, among⟩
            | error _ => exact kept.elim
          | run id =>
            rw [key] at delivered
            refine delivered.mono fun r v kept => ?_
            cases r with
            | ok _ => exact ⟨kept, distinct, among⟩
            | error _ => exact kept.elim
        · exact fun s kept => .inr ⟨first :: others, known, kept.1⟩
  exact (safe.runs DistinctDates.back distinct).2

end Verification

/-! ### Histories -/

section Histories

variable {env : Env} {w v : World} {passes : List ExternalPass}

/-- A publication is one statement. -/
theorem publishExternalEvent_db (w : World) (key payload : String) (answers : List Answer) :
    ((publishExternalEvent key payload).run World.replay (w, answers)).2.1 =
      { w with db := if (answers.headD {}).served then (w.db.publishEvent .external (.text key) payload).2 else w.db } := by
  have issued : ((publishExternalEvent key payload).run World.replay (w, answers)).2 =
      (World.replay (.publishEvent .external (.text key) payload) (w, answers)).2 := by
    unfold publishExternalEvent
    rw [Prog.bind_eq, Prog.run_bind, ask_run]
    cases (World.replay (.publishEvent .external (.text key) payload) (w, answers)).1 <;> rfl
  rw [issued]
  simp only [World.replay, World.perform, World.writeFlag]
  cases (answers.headD {}).served <;> rfl

/-- A publication adds at most an event that waits to be delivered. -/
theorem publishExternalEvent_run (w : World) (key payload : String) (answers : List Answer) :
    let v := ((publishExternalEvent key payload).run World.replay (w, answers)).2.1
    v.db.runs = w.db.runs ∧ (∀ e ∈ v.db.events, e ∈ w.db.events ∨ e.consumed = false) := by
  dsimp only
  rw [publishExternalEvent_db]
  cases (answers.headD {}).served with
  | false => exact ⟨rfl, fun e member => .inl member⟩
  | true =>
    simp only [if_true, DB.publishEvent]
    cases inserted : w.db.insertEvent .external (.text key) payload with
    | none => exact ⟨rfl, fun e member => .inl member⟩
    | some db =>
      obtain ⟨events, _, runs, _⟩ := DB.insertEvent_some inserted
      refine ⟨runs, fun e member => ?_⟩
      rcases (events e).mp member with old | rfl
      · exact .inl old
      · exact .inr rfl

/-- A run id is the id of one run. -/
theorem existsUnique_run {id : RunID} (stored : ∃ r ∈ w.db.runs, r.runID = id) : ∃! r, r ∈ w.db.runs ∧ r.runID = id := by
  obtain ⟨r, member, same⟩ := stored
  refine ⟨r, ⟨member, same⟩, ?_⟩
  rintro x ⟨member', same'⟩
  have clash : ¬ RunKey.apart (runKey x) (runKey r) := fun apart => apart.1 (same'.trans same.symm)
  exact Table.eq_of_clash DB.RunKey.apart_symm member' member clash

/-- The consumed events have been delivered to those who subscribed all along. -/
def Delivered (env : Env) (w : World) (passes : List ExternalPass) : Prop :=
  ∀ e ∈ w.db.events, e.source = .external → e.consumed = true → ∀ dag,
    (∀ p ∈ passes, ∀ x, p.Saw env x → x.id = e.id → p.world.Subscribes dag (EventKey.column e.key)) →
    ∃ r ∈ w.db.runs, r.runID = .event dag e.id

/-- The event runs come from subscriptions. -/
def Subscribed (env : Env) (w : World) (passes : List ExternalPass) : Prop :=
  ∀ r ∈ w.db.runs, ∀ dag id, r.runID = .event dag id →
    ∃ p ∈ passes, ∃ e, p.Saw env e ∧ e.id = id ∧ p.world.Listens dag (EventKey.column e.key)

theorem Delivered.pass (answers : List Answer) (distinct : DistinctDates (ExternalPass.outcome env ⟨w, answers⟩))
    (delivered : Delivered env w passes) :
    Delivered env (ExternalPass.after env ⟨w, answers⟩) (passes ++ [⟨w, answers⟩]) := by
  intro e member source consumed dag subscribes
  have before : ∀ p ∈ passes, ∀ x, p.Saw env x → x.id = e.id → p.world.Subscribes dag (EventKey.column e.key) :=
    fun p listed => subscribes p (List.mem_append_left _ listed)
  rcases pass_delivers env ⟨w, answers⟩ distinct with ⟨same, _⟩ | ⟨listed, known, outer⟩
  · rw [same] at member ⊢
    exact delivered e member source consumed dag before
  · rcases outer.delivering.consumed e member consumed with old | ⟨⟨x, seen, row⟩, done⟩
    · obtain ⟨r, stored, id⟩ := delivered e old source consumed dag before
      exact ⟨r, outer.delivering.kept r stored, id⟩
    · refine done dag (subscribes ⟨w, answers⟩ (by simp) x ⟨listed, outer.listing, seen⟩ (congrArg EventRow.id row))

theorem Subscribed.pass (answers : List Answer) (distinct : DistinctDates (ExternalPass.outcome env ⟨w, answers⟩))
    (subscribed : Subscribed env w passes) :
    Subscribed env (ExternalPass.after env ⟨w, answers⟩) (passes ++ [⟨w, answers⟩]) := by
  intro r member dag id own
  have before (stored : r ∈ w.db.runs) : ∃ p ∈ passes ++ [⟨w, answers⟩], ∃ e, p.Saw env e ∧ e.id = id ∧
      p.world.Listens dag (EventKey.column e.key) := by
    obtain ⟨p, listed, found⟩ := subscribed r stored dag id own
    exact ⟨p, List.mem_append_left _ listed, found⟩
  rcases pass_delivers env ⟨w, answers⟩ distinct with ⟨same, _⟩ | ⟨listed, known, outer⟩
  · rw [same] at member
    exact before member
  · rcases outer.delivering.made r member with old | ⟨e, seen, dag', made, listens⟩
    · exact before old
    · rw [own] at made
      cases made
      exact ⟨⟨w, answers⟩, by simp, e, ⟨listed, outer.listing, seen⟩, rfl, listens⟩

theorem Deliveries.kept (history : Deliveries env w passes) : Delivered env w passes ∧ Subscribed env w passes := by
  induction history with
  | start fresh none =>
    refine ⟨fun e member source consumed => ?_, fun r member dag id own => absurd own (none r member dag id)⟩
    rw [fresh e member source] at consumed
    cases consumed
  | @publish w passes key payload answers _ ih =>
    obtain ⟨runs, events⟩ := publishExternalEvent_run w key payload answers
    refine ⟨fun e member source consumed dag subscribes => ?_, fun r member => ih.2 r (runs ▸ member)⟩
    rcases events e member with old | waits
    · rw [runs]
      exact ih.1 e old source consumed dag subscribes
    · rw [waits] at consumed
      cases consumed
  | meanwhile _ apart ih =>
    refine ⟨fun e member source consumed dag subscribes => ?_, fun r member dag id own => ?_⟩
    · exact (apart.runs dag e.id).mpr (ih.1 e ((apart.events e source).mp member) source consumed dag subscribes)
    · obtain ⟨x, stored, same⟩ := (apart.runs dag id).mp ⟨r, member, own⟩
      exact ih.2 x stored dag id same
  | pass answers _ distinct ih => exact ⟨ih.1.pass answers distinct, ih.2.pass answers distinct⟩

theorem Deliveries.logged (history : Deliveries env w passes) : ∀ p ∈ passes, Logged [] (p.outcome env).log := by
  induction history with
  | start _ _ => simp
  | publish _ _ _ _ ih => exact ih
  | meanwhile _ _ ih => exact ih
  | @pass w passes answers _ distinct ih =>
    intro p member
    rcases List.mem_append.mp member with old | new
    · exact ih p old
    · obtain rfl := List.mem_singleton.mp new
      rcases pass_delivers env ⟨w, answers⟩ distinct with ⟨_, logged⟩ | ⟨_, _, outer⟩
      · exact logged
      · exact outer.logged

/-- External events trigger each subscriber exactly once, whatever the queue refuses and the
store fails to do in between. -/
theorem external_events_exactly_once (history : Deliveries env w passes) :
    (∀ e ∈ w.db.events, e.source = .external → e.consumed = true → ∀ dag,
      (∀ p ∈ passes, ∀ x, p.Saw env x → x.id = e.id → p.world.Subscribes dag (EventKey.column e.key)) →
      ∃! r, r ∈ w.db.runs ∧ r.runID = .event dag e.id) ∧
    (∀ r ∈ w.db.runs, ∀ dag id, r.runID = .event dag id →
      ∃ p ∈ passes, ∃ e, p.Saw env e ∧ e.id = id ∧ p.world.Listens dag (EventKey.column e.key)) ∧
    ∀ p ∈ passes, ∀ id, p.Consumes env id → ∀ run err dag, p.Refused env run err → run.runID = .event dag id →
      err = .alreadyExists := by
  obtain ⟨delivered, subscribed⟩ := history.kept
  refine ⟨fun e member source consumed dag subscribes => ?_, subscribed, ?_⟩
  · exact existsUnique_run (delivered e member source consumed dag subscribes)
  · intro p listed id ⟨reply, consumed⟩ run err dag ⟨global, refused⟩ own
    exact (history.logged p listed).sound id reply consumed run global err dag refused own

end Histories

/-! A subscriber, for the concrete case. -/

def listener : DAG := { dagID := "import", tasks := [{ id := "load" }], triggerOnEvent := ["upload"] }

def listenerWorld : World where
  db := { DB.empty with dags := [{ dagID := "import" }] }
  cache := ⟨[⟨listener, none⟩], List.pairwise_singleton _ _⟩

/-- The world after the publication of one event. -/
def uploaded : World := ((publishExternalEvent "upload" "").run World.replay (listenerWorld, [])).2.1

def refusedAsExisting : Issued statements → Bool
  | ⟨.createDagRunBounded _ _, .error .alreadyExists⟩ => true
  | _ => false

theorem upload_triggers_import :
    ∃! r, r ∈ (ExternalPass.after hourlyEnv ⟨uploaded, []⟩).db.runs ∧ r.runID = .event "import" 1 := by
  have published : Deliveries hourlyEnv uploaded [] := by
    refine .publish "upload" "" [] (.start ?_ ?_)
    · exact fun e member => absurd member List.not_mem_nil
    · exact fun r member => absurd member List.not_mem_nil
  have distinct : DistinctDates (ExternalPass.outcome hourlyEnv ⟨uploaded, []⟩) := by
    intro run global refused
    have none : (ExternalPass.outcome hourlyEnv ⟨uploaded, []⟩).log.any refusedAsExisting = false := by decide +kernel
    exact absurd rfl (List.any_eq_false.mp none _ refused)
  have history := Deliveries.pass [] published distinct
  refine (external_events_exactly_once history).1 ⟨1, .external, .text "upload", "", true⟩
    (by rw [Table.mem_def]; decide +kernel) rfl rfl "import" ?_
  intro p listed x _ _
  obtain rfl := List.mem_singleton.mp listed
  exact ⟨⟨listener, none⟩, rfl, by decide, rfl, by decide⟩

end Cronova.Scheduler
