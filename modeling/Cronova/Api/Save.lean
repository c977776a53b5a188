import Cronova.Process.Reach
import Cronova.Scheduler.Pausing

/-! Saves of the editor: `buildDAG` with an `expected_hash`.

The handler compares the hash of the stored definition with the one that the editor has loaded
and goes on to `CreateDAG`, which writes the file, the row and the cache entry one after the
other. Saves that are checked one at a time form a chain, each replacing the definition of the
one before it; two that are checked together both succeed.
-/

set_option autoImplicit false

namespace Cronova.Api

open Model Store Process Scheduler
open Calendar (Time)

/-- A request: the hash that the editor has loaded and the rendered definition. -/
structure Save where
  expected : String
  text : String

/-- How far a request is. -/
inductive Phase where
  | waiting
  | checked (d : DAG)
  | filed (d : DAG)
  | stored (d : DAG)
  | linked (d : DAG) (schedule : Option (Time → Time))
  | saved
  | conflict
  | failed

/-- Past the comparison of the hashes and not at the end. -/
def Phase.busy : Phase → Bool
  | .checked _ | .filed _ | .stored _ | .linked _ _ => true
  | _ => false

structure State where
  world : World
  /-- The files of the DAG directory, by the id of their DAG. -/
  files : DagID → Option String := fun _ => none
  phase : Nat → Phase := fun _ => .waiting
  /-- The requests that have replaced the row, in their order. -/
  winners : List Nat := []

def State.become (s : State) (i : Nat) (phase : Phase) : State := { s with phase := Function.update s.phase i phase }

section Step

variable (env : Env) (dag : DagID) (saves : Nat → Save)

/-- `expected_hash` is not the hash of the stored definition; a deleted DAG counts as new. -/
def conflicts (save : Save) (row : StoredDAG) : Bool :=
  save.expected != "" && !row.deleted && env.hash row.definitionYAML != save.expected

/-- `CreateDAG` parses the text first. -/
def create (save : Save) : Phase :=
  match env.parse save.text with
  | some d => .checked d
  | none => .failed

/-- The part of `registerDAG` between the row and the cache entry. -/
def link (d : DAG) : Act (Option (Time → Time)) := do
  ensurePools d
  replaceDagDependencies d.dagID d.triggerAfter
  scheduleOf env d

/-- The next statement of a request; `yes` says whether the file could be written. -/
def step (s : State) : Nat × Answer → Option State
  | (i, a) => match s.phase i with
    | .waiting => match World.perform i (.getDAG dag) a s.world with
      | some (.ok row, _, _) => some (s.become i (if conflicts env (saves i) row then .conflict else create env (saves i)))
      | some (.error .notFound, _, _) => some (s.become i (create env (saves i)))
      | some (.error _, _, _) => some (s.become i .failed)
      | none => none
    | .checked d =>
      if a.yes then some { s.become i (.filed d) with files := Function.update s.files d.dagID (some (saves i).text) }
      else some (s.become i .failed)
    | .filed d => match World.perform i (.upsertDAG d) a s.world with
      | some (.ok _, world, _) => some { s.become i (.stored d) with world, winners := s.winners ++ [i] }
      | some (.error _, _, _) => some (s.become i .failed)
      | none => none
    | .stored d => match (link env d).run (World.respond a) s.world with
      | (.ok schedule, world) => some { s.become i (.linked d schedule) with world }
      | (.error _, world) => some { s.become i .failed with world }
    | .linked d schedule => match World.perform i (.publishDAG d schedule) a s.world with
      | some (_, world, _) => some { s.become i .saved with world }
      | none => none
    | .saved | .conflict | .failed => none

end Step

/-! ### The registration between the row and the cache -/

section Link

variable {env : Env} {a : Answer}

/-- The definitions and the cache are as before. -/
def SameDefinitions (w v : World) : Prop := v.db.dags = w.db.dags ∧ v.cache = w.cache

theorem SameDefinitions.refl (w : World) : SameDefinitions w w := ⟨rfl, rfl⟩

theorem SameDefinitions.trans {w v u : World} (first : SameDefinitions w v) (second : SameDefinitions v u) :
    SameDefinitions w u :=
  ⟨second.1.trans first.1, second.2.trans first.2⟩

/-- One round of `ensurePools`. -/
def ensurePool (seen : List String) (t : Task) : Act (List String) :=
  if t.pool = "" ∨ t.pool ∈ seen then pure seen else do
    match ← (getPool t.pool).attempt with
    | .ok _ => pure (t.pool :: seen)
    | .error (.store .notFound) =>
      upsertPool ⟨t.pool, defaultPoolSlots⟩
      pure (t.pool :: seen)
    | .error e => .fail e

theorem ensurePools_eq (d : DAG) : ensurePools d = (Prog.fold ensurePool d.tasks []).bind fun _ => .done () := rfl

/-- A served program asks for a pool and creates one that is missing. -/
theorem ensurePool_run (served : a.served = true) (t : Task) (seen : List String) (w : World) :
    ∃ seen' v, (ensurePool seen t).run (World.respond a) w = (.ok seen', v) ∧ SameDefinitions w v := by
  unfold ensurePool
  split
  · exact ⟨seen, w, rfl, .refl w⟩
  · have asked : (getPool t.pool).attempt.run (World.respond a) w = (.ok ((w.db.getPool t.pool).mapError Failure.store), w) := by
      rw [Prog.run_attempt, ask_run]
      simp [World.respond, World.perform, World.read, served]
    rw [Prog.bind_eq, Prog.run_bind, asked]
    cases found : w.db.getPool t.pool with
    | ok pool => exact ⟨_, w, rfl, .refl w⟩
    | error e =>
      obtain rfl : e = .notFound := by
        unfold DB.getPool at found
        cases lookup : w.db.pools.find? (·.name == t.pool) with
        | none =>
          rw [lookup] at found
          cases found
          rfl
        | some pool =>
          rw [lookup] at found
          cases found
      obtain ⟨db, upserted, same⟩ : ∃ db, w.db.upsertPool ⟨t.pool, defaultPoolSlots⟩ = .ok db ∧ db.dags = w.db.dags := by
        unfold DB.upsertPool
        exact ⟨_, if_neg (by simp [defaultPoolSlots, maxPoolSlots]), rfl⟩
      have written : World.perform 0 (.upsertPool ⟨t.pool, defaultPoolSlots⟩) a w = some (.ok (), { w with db }, []) := by
        simp [World.perform, World.write, served, upserted]
      refine ⟨t.pool :: seen, { w with db }, ?_, same, rfl⟩
      simp [Except.mapError, Prog.run_bind, ask_run, World.respond, written]

theorem ensurePools_run (served : a.served = true) (d : DAG) (w : World) :
    ∃ v, (ensurePools d).run (World.respond a) w = (.ok (), v) ∧ SameDefinitions w v := by
  obtain ⟨seen, v, ran, same⟩ := Prog.run_fold_ok (World.respond a) SameDefinitions SameDefinitions.refl
    (fun _ _ _ => SameDefinitions.trans) (ensurePool_run served) d.tasks [] w
  refine ⟨v, ?_, same⟩
  rw [ensurePools_eq, Prog.run_bind, ran]
  rfl

/-- A served registration reaches the cache. -/
theorem link_run (served : a.served = true) {d : DAG}
    (scheduled : d.schedule = "" ∨ ∃ schedule, env.parseSchedule d.schedule d.timezone = some schedule) (w : World) :
    ∃ schedule v, (link env d).run (World.respond a) w = (.ok schedule, v) ∧ SameDefinitions w v := by
  obtain ⟨v, ensured, same⟩ := ensurePools_run served d w
  have written : World.perform 0 (.replaceDagDependencies d.dagID d.triggerAfter) a v =
      some (.ok (), { v with db := v.db.replaceDagDependencies d.dagID d.triggerAfter }, []) := by
    simp [World.perform, World.write, served]
  obtain ⟨schedule, planned⟩ : ∃ schedule, scheduleOf env d = .done schedule := by
    unfold scheduleOf
    rcases scheduled with none | ⟨schedule, parsed⟩
    · exact ⟨_, if_pos none⟩
    · split
      · exact ⟨_, rfl⟩
      · rw [parsed]
        exact ⟨_, rfl⟩
  refine ⟨schedule, { v with db := v.db.replaceDagDependencies d.dagID d.triggerAfter }, ?_, same.trans ⟨rfl, rfl⟩⟩
  rw [link, Prog.bind_eq, Prog.run_bind, ensured]
  simp [Prog.run_bind, ask_run, World.respond, written, planned, Except.mapError]

end Link

/-! ### Chains of saves -/

section Chain

variable (env : Env) (dag : DagID) (saves : Nat → Save)

/-- Each save of the list expects the hash of the text that the one before it has stored. -/
def Chain (first : String) : List Nat → String → Prop
  | [], text => text = first
  | i :: rest, text => (saves i).expected = env.hash first ∧ Chain (saves i).text rest text

/-- `Parse` takes the text for a definition of the DAG, with a schedule that it has checked. -/
structure Accepts (save : Save) (d : DAG) : Prop where
  parsed : env.parse save.text = some d
  dagID : d.dagID = dag
  text : d.definitionYAML = save.text
  schedule : d.schedule = "" ∨ ∃ schedule, env.parseSchedule d.schedule d.timezone = some schedule

/-- A save whose hash is the stored one is checked while no other is between its check and its end,
and has a definition that is accepted; the store and the file system serve every statement. -/
def Alone (s : State) (label : Nat × Answer) : Prop :=
  label.2.served = true ∧ label.2.yes = true ∧
    (s.phase label.1 = .waiting → ∀ row, s.world.db.getDAG dag = .ok row → conflicts env (saves label.1) row = false →
      (∃ d, Accepts env dag (saves label.1) d) ∧ ∀ j, (s.phase j).busy = false)

/-- The row of the DAG has the definition. -/
def Stored (text : String) (s : State) : Prop :=
  ∃ row, s.world.db.getDAG dag = .ok row ∧ row.deleted = false ∧ row.definitionYAML = text

def Filed (text : String) (s : State) : Prop := s.files dag = some text

def Cached (text : String) (s : State) : Prop := ∃ c, s.world.cached dag = some c ∧ c.dag.definitionYAML = text

/-- The row, the file and the cache entry have the same definition. -/
structure Settled (text : String) (s : State) : Prop where
  stored : Stored dag text s
  filed : Filed dag text s
  cached : Cached dag text s

/-- What a request in the given phase has made of the definition; `text` is the stored one. -/
def Reached (text : String) (s : State) (save : Save) : Phase → Prop
  | .checked d => Accepts env dag save d ∧ save.expected = env.hash text ∧ Filed dag text s ∧ Cached dag text s
  | .filed d => Accepts env dag save d ∧ save.expected = env.hash text ∧ Filed dag save.text s
  | .stored d | .linked d _ => Accepts env dag save d ∧ text = save.text ∧ Filed dag save.text s
  | .waiting | .saved | .conflict => True
  | .failed => False

/-- The request has replaced the row. -/
def Phase.won : Phase → Bool
  | .stored _ | .linked _ _ | .saved => true
  | _ => false

/-- The invariant: one save at a time, and those that have replaced the row form a chain. -/
structure Chained (first text : String) (s : State) : Prop where
  chain : Chain env saves first s.winners text
  stored : Stored dag text s
  one : ∀ i j, (s.phase i).busy = true → (s.phase j).busy = true → i = j
  reached : ∀ i, Reached env dag text s (saves i) (s.phase i)
  quiet : (∀ i, (s.phase i).busy = false) → Filed dag text s ∧ Cached dag text s
  winners : ∀ i, i ∈ s.winners ↔ (s.phase i).won = true
  distinct : s.winners.Nodup

variable {env dag saves}

theorem Chain.append {first text : String} {winners : List Nat} {i : Nat} (chain : Chain env saves first winners text)
    (expects : (saves i).expected = env.hash text) : Chain env saves first (winners ++ [i]) (saves i).text := by
  induction winners generalizing first with
  | nil =>
    cases chain
    exact ⟨expects, rfl⟩
  | cons j rest ih => exact ⟨chain.1, ih chain.2⟩

/-- A save that is not the first expects the text of another one. -/
theorem Chain.expects {first text : String} {winners : List Nat} (chain : Chain env saves first winners text) {i : Nat}
    (member : i ∈ winners) : winners.head? = some i ∨ ∃ j ∈ winners, (saves i).expected = env.hash (saves j).text := by
  induction winners generalizing first with
  | nil => cases member
  | cons j rest ih =>
    rcases List.mem_cons.mp member with rfl | later
    · exact .inl rfl
    · right
      rcases ih chain.2 later with head | ⟨k, earlier, expects⟩
      · cases rest with
        | nil => cases later
        | cons k rest =>
          cases head
          exact ⟨j, List.mem_cons_self, chain.2.1⟩
      · exact ⟨k, List.mem_cons_of_mem _ earlier, expects⟩

/-- One save at most replaces a definition that no save brings back. -/
theorem Chain.unique {first text : String} {winners : List Nat} (chain : Chain env saves first winners text) {h : String}
    {i j : Nat} (fresh : ∀ k ∈ winners, env.hash (saves k).text ≠ h) (memberᵢ : i ∈ winners) (memberⱼ : j ∈ winners)
    (expectsᵢ : (saves i).expected = h) (expectsⱼ : (saves j).expected = h) : i = j := by
  rcases chain.expects memberᵢ with headᵢ | ⟨k, earlier, expects⟩
  · rcases chain.expects memberⱼ with headⱼ | ⟨k, earlier, expects⟩
    · exact Option.some.inj (headᵢ.symm.trans headⱼ)
    · exact absurd (expects.symm.trans expectsⱼ) (fresh k earlier)
  · exact absurd (expects.symm.trans expectsᵢ) (fresh k earlier)

variable {s t : State} {first text text' : String} {i : Nat} {a : Answer} {phase : Phase} {save : Save}

/-- Nothing is asked of the definition by a request that is not under way. -/
theorem Reached.idle (idle : phase.busy = false) (reached : Reached env dag text s save phase) :
    Reached env dag text' t save phase := by
  cases phase with
  | waiting | saved | conflict => trivial
  | failed => exact reached
  | checked | filed | stored | linked => cases idle

/-- A request moves on while no other is under way. -/
theorem Chained.alone (kept : Chained env dag saves first text s) (phases : t.phase = Function.update s.phase i phase)
    (others : ∀ j, j ≠ i → (s.phase j).busy = false) (chain : Chain env saves first t.winners text') (stored : Stored dag text' t)
    (reached : Reached env dag text' t (saves i) phase) (quiet : phase.busy = false → Filed dag text' t ∧ Cached dag text' t)
    (winners : ∀ j, j ∈ t.winners ↔ (t.phase j).won = true) (distinct : t.winners.Nodup) :
    Chained env dag saves first text' t := by
  have other (j : Nat) (apart : j ≠ i) : t.phase j = s.phase j := by rw [phases, Function.update_of_ne apart]
  have own : t.phase i = phase := by rw [phases, Function.update_self]
  refine ⟨chain, stored, fun j k busyⱼ busyₖ => ?_, fun j => ?_, fun idle => quiet (own ▸ idle i), winners, distinct⟩
  · have only (j : Nat) (busy : (t.phase j).busy = true) : j = i := by
      by_contra apart
      rw [other j apart, others j apart] at busy
      cases busy
    rw [only j busyⱼ, only k busyₖ]
  · by_cases same : j = i
    · subst same
      rw [own]
      exact reached
    · rw [other j same]
      exact (kept.reached j).idle (others j same)

/-- The requests that have replaced the row, after a move that does not. -/
theorem Chained.same_winners (kept : Chained env dag saves first text s) (phases : t.phase = Function.update s.phase i phase)
    (same : t.winners = s.winners) (won : phase.won = (s.phase i).won) (j : Nat) :
    j ∈ t.winners ↔ (t.phase j).won = true := by
  rw [same, kept.winners j, phases]
  by_cases own : j = i
  · subst own
    rw [Function.update_self, won]
  · rw [Function.update_of_ne own]

/-- Another request is not under way beside one that is. -/
theorem Chained.others (kept : Chained env dag saves first text s) (busy : (s.phase i).busy = true) (j : Nat) (apart : j ≠ i) :
    (s.phase j).busy = false := by
  cases under : (s.phase j).busy with
  | false => rfl
  | true => exact absurd (kept.one j i under busy) apart

/-- A request that is refused for its hash changes nothing. -/
theorem Chained.refuses (kept : Chained env dag saves first text s) (waiting : s.phase i = .waiting) :
    Chained env dag saves first text (s.become i .conflict) := by
  have other (j : Nat) (apart : j ≠ i) : (s.become i .conflict).phase j = s.phase j := Function.update_of_ne apart _ _
  have own : (s.become i .conflict).phase i = .conflict := Function.update_self _ _ _
  have busy (j : Nat) : ((s.become i .conflict).phase j).busy = (s.phase j).busy := by
    by_cases same : j = i
    · subst same
      rw [own, waiting]
      rfl
    · rw [other j same]
  refine ⟨kept.chain, kept.stored, fun j k busyⱼ busyₖ => ?_, fun j => ?_, fun idle => ?_, ?_, kept.distinct⟩
  · rw [busy] at busyⱼ busyₖ
    exact kept.one j k busyⱼ busyₖ
  · by_cases same : j = i
    · subst same
      rw [own]
      trivial
    · rw [other j same]
      exact kept.reached j
  · exact kept.quiet fun j => (busy j).symm.trans (idle j)
  · exact kept.same_winners rfl rfl (by rw [waiting]; rfl)

theorem not_conflicts {row : StoredDAG} (passes : conflicts env save row = false) (carries : save.expected ≠ "")
    (active : row.deleted = false) : save.expected = env.hash row.definitionYAML := by
  simp only [conflicts, active, Bool.not_false, Bool.and_true, Bool.and_eq_false_iff, bne_eq_false_iff_eq] at passes
  exact (passes.resolve_left carries).symm

/-- The comparison of the hashes. -/
theorem Chained.checks (carries : ∀ i, (saves i).expected ≠ "") (kept : Chained env dag saves first text s)
    (waiting : s.phase i = .waiting) (alone : Alone env dag saves s (i, a)) (stepped : step env dag saves s (i, a) = some t) :
    ∃ text', Chained env dag saves first text' t := by
  obtain ⟨served, _, check⟩ := alone
  obtain ⟨row, found, active, same⟩ := kept.stored
  have answered : World.perform i (.getDAG dag) a s.world = some (.ok row, s.world, []) := by
    rw [World.perform, World.read_served served, found]
  simp only [step, waiting, answered, Option.some.injEq] at stepped
  split at stepped
  · subst stepped
    exact ⟨text, kept.refuses waiting⟩
  · rename_i passes
    replace passes : conflicts env (saves i) row = false := by simpa using passes
    obtain ⟨⟨d, accepts⟩, idle⟩ := check waiting row found passes
    have expects : (saves i).expected = env.hash text := same ▸ not_conflicts passes (carries i) active
    obtain ⟨filed, cached⟩ := kept.quiet idle
    rw [create, accepts.parsed] at stepped
    subst stepped
    refine ⟨text, kept.alone (i := i) rfl (fun j _ => idle j) kept.chain kept.stored ⟨accepts, expects, filed, cached⟩ (by rintro ⟨⟩) ?_ kept.distinct⟩
    exact kept.same_winners rfl rfl (by rw [waiting]; rfl)

/-- The file gets the new text while the row and the cache still have the old one. -/
theorem Chained.files (kept : Chained env dag saves first text s) {d : DAG} (checked : s.phase i = .checked d)
    (alone : Alone env dag saves s (i, a)) (stepped : step env dag saves s (i, a) = some t) :
    ∃ text', Chained env dag saves first text' t := by
  have reached := kept.reached i
  rw [checked] at reached
  obtain ⟨accepts, expects, _⟩ := reached
  have writable : a.yes = true := alone.2.1
  simp only [step, checked, writable, if_true, Option.some.injEq] at stepped
  subst stepped
  refine ⟨text, kept.alone (i := i) rfl (kept.others (by rw [checked]; rfl)) kept.chain kept.stored ⟨accepts, expects, ?_⟩ nofun ?_
    kept.distinct⟩
  · simp [Filed, accepts.dagID]
  · exact kept.same_winners rfl rfl (by rw [checked]; rfl)

theorem getDAG_upsertDAG_own {db : DB} {d : DAG} {row : StoredDAG} (found : db.getDAG d.dagID = .ok row) :
    (db.upsertDAG d).getDAG d.dagID = .ok { row with definitionYAML := d.definitionYAML, deleted := false } := by
  have known : db.dags.any (·.dagID == d.dagID) = true := by
    obtain ⟨stored, own⟩ := getDAG_own found
    exact List.any_eq_true.mpr ⟨row, stored, by simp [own]⟩
  rw [DB.upsertDAG, if_pos known, getDAG_updateDAG, found]
  · simp [Except.map, (getDAG_own found).2]
  · exact fun _ => rfl

/-- The row gets the new text: the chain grows by the request. -/
theorem Chained.stores (kept : Chained env dag saves first text s) {d : DAG} (filed : s.phase i = .filed d)
    (alone : Alone env dag saves s (i, a)) (stepped : step env dag saves s (i, a) = some t) :
    ∃ text', Chained env dag saves first text' t := by
  have reached := kept.reached i
  rw [filed] at reached
  obtain ⟨accepts, expects, file⟩ := reached
  obtain ⟨row, found, _⟩ := kept.stored
  have written : World.perform i (.upsertDAG d) a s.world = some (.ok (), { s.world with db := s.world.db.upsertDAG d }, []) := by
    have served : a.served = true := alone.1
    simp [World.perform, World.write, served]
  have unwon : i ∉ s.winners := fun won => by simp [kept.winners, filed, Phase.won] at won
  simp only [step, filed, written, Option.some.injEq] at stepped
  subst stepped
  refine ⟨(saves i).text, kept.alone (i := i) rfl (kept.others (by rw [filed]; rfl)) (kept.chain.append expects) ?_
    ⟨accepts, rfl, file⟩ (by rintro ⟨⟩) (fun j => ?_) ?_⟩
  · obtain ⟨_, rfl, same, _⟩ := accepts
    exact ⟨_, getDAG_upsertDAG_own found, rfl, same⟩
  · by_cases own : j = i
    · subst own
      simp [State.become, Phase.won]
    · simp [State.become, own, kept.winners j]
  · exact List.nodup_append.mpr ⟨kept.distinct, List.nodup_singleton i, fun j member k last same => unwon (by simp_all)⟩

/-- The pools and the dependencies leave the definition alone. -/
theorem Chained.links (kept : Chained env dag saves first text s) {d : DAG} (row : s.phase i = .stored d)
    (alone : Alone env dag saves s (i, a)) (stepped : step env dag saves s (i, a) = some t) :
    ∃ text', Chained env dag saves first text' t := by
  have reached := kept.reached i
  rw [row] at reached
  obtain ⟨accepts, own, file⟩ := reached
  obtain ⟨schedule, world, ran, dags, _⟩ := link_run alone.1 accepts.schedule s.world
  simp only [step, row, ran, Option.some.injEq] at stepped
  subst stepped
  refine ⟨text, kept.alone (i := i) rfl (kept.others (by rw [row]; rfl)) kept.chain ?_ ⟨accepts, own, file⟩ nofun ?_ kept.distinct⟩
  · obtain ⟨stored, found, rest⟩ := kept.stored
    exact ⟨stored, (getDAG_of_dags dags).trans found, rest⟩
  · exact kept.same_winners rfl rfl (by rw [row]; rfl)

/-- The cache entry gets the new text: the definition is the same everywhere again. -/
theorem Chained.publishes (kept : Chained env dag saves first text s) {d : DAG} {schedule : Option (Time → Time)}
    (linked : s.phase i = .linked d schedule) (stepped : step env dag saves s (i, a) = some t) :
    ∃ text', Chained env dag saves first text' t := by
  have reached := kept.reached i
  rw [linked] at reached
  obtain ⟨accepts, own, file⟩ := reached
  simp only [step, linked, World.perform, Option.some.injEq] at stepped
  subst stepped
  refine ⟨text, kept.alone (i := i) rfl (kept.others (by rw [linked]; rfl)) kept.chain kept.stored trivial (fun _ => ⟨own ▸ file, ?_⟩) ?_
    kept.distinct⟩
  · refine ⟨_, (World.cached_publish _ _ _).trans (if_pos accepts.dagID.symm), ?_⟩
    exact accepts.text.trans own.symm
  · exact kept.same_winners rfl rfl (by rw [linked]; rfl)

theorem Chained.step (carries : ∀ i, (saves i).expected ≠ "") (kept : Chained env dag saves first text s) {label : Nat × Answer}
    (alone : Alone env dag saves s label) (stepped : step env dag saves s label = some t) :
    ∃ text', Chained env dag saves first text' t := by
  obtain ⟨i, a⟩ := label
  cases phase : s.phase i with
  | waiting => exact kept.checks carries phase alone stepped
  | checked d => exact kept.files phase alone stepped
  | filed d => exact kept.stores phase alone stepped
  | stored d => exact kept.links phase alone stepped
  | linked d schedule => exact kept.publishes phase stepped
  | saved | conflict | failed => simp [Api.step, phase] at stepped

end Chain

/-- Saves that are checked one at a time: one at most replaces a definition that no save brings
back, every other one that has ended is refused for its hash, and once none is under way the row,
the file and the cache entry have the text of the last save of the chain. -/
theorem saves_form_chain (env : Env) (dag : DagID) (saves : Nat → Save) (carries : ∀ i, (saves i).expected ≠ "")
    {first : String} {start s : State} (settled : Settled dag first start) (waiting : ∀ i, start.phase i = .waiting)
    (untouched : start.winners = []) (reached : Reach (step env dag saves) (Alone env dag saves) start s) :
    (∀ h i j, (∀ k ∈ s.winners, env.hash (saves k).text ≠ h) → i ∈ s.winners → j ∈ s.winners →
        (saves i).expected = h → (saves j).expected = h → i = j) ∧
      (∀ i, s.phase i = .saved → i ∈ s.winners) ∧
      (∀ i, s.phase i = .waiting ∨ (s.phase i).busy = true ∨ s.phase i = .saved ∨ s.phase i = .conflict) ∧
      ((∀ i, (s.phase i).busy = false) → ∃ text, Chain env saves first s.winners text ∧ Settled dag text s) := by
  have begins : Chained env dag saves first first start := by
    refine ⟨by rw [untouched]; rfl, settled.stored, fun i j busy => ?_, fun i => ?_, fun _ => ⟨settled.filed, settled.cached⟩, fun i => ?_, ?_⟩
    · rw [waiting i] at busy
      cases busy
    · rw [waiting i]
      trivial
    · simp [untouched, waiting i, Phase.won]
    · simp [untouched]
  obtain ⟨text, kept⟩ : ∃ text, Chained env dag saves first text s := by
    induction reached with
    | refl => exact ⟨first, begins⟩
    | next label _ alone stepped ih =>
      obtain ⟨text, kept⟩ := ih
      exact kept.step carries alone stepped
  refine ⟨fun h i j fresh => kept.chain.unique fresh, fun i saved => ?_, fun i => ?_, fun idle => ?_⟩
  · exact (kept.winners i).mpr (by rw [saved]; rfl)
  · have reached := kept.reached i
    cases phase : s.phase i with
    | failed =>
      rw [phase] at reached
      exact reached.elim
    | _ => simp [Phase.busy]
  · obtain ⟨filed, cached⟩ := kept.quiet idle
    exact ⟨text, kept.chain, kept.stored, filed, cached⟩

section Runs

/-- Every text is a definition of the workflow. -/
def editorEnv : Env where
  parse yaml := some { serialLoad with definitionYAML := yaml }
  hash yaml := yaml
  shift _ _ _ := none
  parseSchedule _ _ := none
  decodePayload _ := none

/-- Two editors that have loaded the same definition. -/
def editors (i : Nat) : Save := ⟨"load", if i = 0 then "first" else "second"⟩

theorem editors_carry (i : Nat) : (editors i).expected ≠ "" := by
  change "load" ≠ ""
  decide

def loaded : State where
  world := archiveWorld
  files _ := some "load"

theorem loaded_settled : Settled "etl" "load" loaded := ⟨⟨_, rfl, rfl, rfl⟩, rfl, _, rfl, rfl⟩

theorem editors_accepted (i : Nat) :
    Accepts editorEnv "etl" (editors i) { serialLoad with definitionYAML := (editors i).text } :=
  ⟨rfl, rfl, rfl, .inl rfl⟩

/-- The next statement of a request, served. -/
def turn (i : Nat) : Nat × Answer := ⟨i, {}⟩

/-- The second editor saves when the first one has ended. -/
def inTurn : List (Nat × Answer) := List.replicate 5 (turn 0) ++ [turn 1]

def savedInTurn : State := (runSteps (step editorEnv "etl" editors) loaded inTurn).getD loaded

/-- The first save is stored, and the second one is refused. -/
theorem second_save_refused : Settled "etl" "first" savedInTurn ∧ savedInTurn.phase 1 = .conflict := by
  have met : EachStep (step editorEnv "etl" editors) (Alone editorEnv "etl" editors) loaded inTurn := by
    refine ⟨⟨rfl, rfl, fun _ _ _ _ => ⟨⟨_, editors_accepted 0⟩, fun _ => rfl⟩⟩, ?_⟩
    rintro t ⟨⟩
    iterate 4
      refine ⟨⟨rfl, rfl, nofun⟩, ?_⟩
      rintro t ⟨⟩
    refine ⟨⟨rfl, rfl, ?_⟩, fun _ _ => trivial⟩
    rintro _ row ⟨⟩ ⟨⟩
  have ended (i : Nat) : (savedInTurn.phase i).busy = false := by
    match i with
    | 0 | 1 | _ + 2 => rfl
  obtain ⟨_, _, _, quiet⟩ := saves_form_chain editorEnv "etl" editors editors_carry loaded_settled (fun _ => rfl) rfl
    (s := savedInTurn) (met.reach rfl)
  obtain ⟨text, ⟨_, last⟩, settled⟩ := quiet ended
  cases last
  exact ⟨settled, rfl⟩

/-- The store and the file system serve every statement. -/
def ServedSave (_ : State) (label : Nat × Answer) : Prop := label.2.served = true ∧ label.2.yes = true

/-- Both editors are checked before either has stored anything. -/
def together : List (Nat × Answer) := [turn 0, turn 1] ++ List.replicate 4 (turn 0) ++ List.replicate 4 (turn 1)

def savedTogether : State := (runSteps (step editorEnv "etl" editors) loaded together).getD loaded

/-- Two saves replace the same definition, and the first one is lost. -/
theorem both_saves_succeed : ¬ ∀ (env : Env) (dag : DagID) (saves : Nat → Save) (first : String) (start s : State),
    (∀ i, (saves i).expected ≠ "") → Settled dag first start → (∀ i, start.phase i = .waiting) →
      Reach (step env dag saves) ServedSave start s →
        ∀ h i j, (∀ k, s.phase k = .saved → env.hash (saves k).text ≠ h) → s.phase i = .saved → s.phase j = .saved →
          (saves i).expected = h → (saves j).expected = h → i = j := by
  intro claim
  have met : EachStep (step editorEnv "etl" editors) ServedSave loaded together := by
    iterate 10
      refine ⟨⟨rfl, rfl⟩, ?_⟩
      rintro t ⟨⟩
    trivial
  have fresh (k : Nat) : editorEnv.hash (editors k).text ≠ "load" := by
    change (if k = 0 then "first" else "second") ≠ "load"
    split <;> decide
  have same := claim editorEnv "etl" editors "load" loaded savedTogether editors_carry loaded_settled (fun _ => rfl) (met.reach rfl)
    "load" 0 1 (fun k _ => fresh k) rfl rfl rfl rfl
  cases same

end Runs

end Cronova.Api
