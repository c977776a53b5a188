import Cronova.Scheduler.Serial

/-! Definition snapshots of runs.

A run's definition is written under `finalizeMu` only, but the tick processes and dispatches
copies of runs that it has listed before. The snapshot is stable, and every dispatched task is
one of it, in every run of the process in which these copies carry the stored definition.
-/

set_option autoImplicit false

namespace Cronova.Scheduler

open Model Store Process

/-- What the scheduler relies on: `Parse` keeps the text that it was given, which is not empty. -/
structure Parser (env : Env) : Prop where
  own : ∀ yaml d, env.parse yaml = some d → d.definitionYAML = yaml
  empty : env.parse "" = none

/-- A definition that parses back to the same tasks. -/
def Sound (env : Env) (d : DAG) : Prop :=
  d.definitionYAML ≠ "" ∧ ∃ parsed, env.parse d.definitionYAML = some parsed ∧ parsed.tasks = d.tasks

def SoundCache (env : Env) (cache : Cache) : Prop := ∀ c ∈ cache.rows, Sound env c.dag

/-- Every snapshot is stored with its hash. -/
def Hashed (env : Env) (db : DB) : Prop :=
  ∀ id row, db.run? id = some row → row.definitionYAML ≠ "" → row.definitionHash = env.hash row.definitionYAML

section Sound

variable {env : Env} {v : View} {d : DAG}

theorem Parser.sound (parser : Parser env) {yaml : String} (parsed : env.parse yaml = some d) : Sound env d := by
  have own := parser.own yaml d parsed
  subst own
  refine ⟨fun none => ?_, d, parsed, rfl⟩
  rw [none, parser.empty] at parsed
  cases parsed

theorem View.Known.sound (known : v.Known env d) (parser : Parser env)
    (entries : ∀ dag c, (dag, some c) ∈ v.entries → Sound env c.dag) : Sound env d := by
  rcases known with ⟨dag, c, member, rfl⟩ | ⟨yaml, parsed⟩
  · exact entries dag c member
  · exact parser.sound parsed

theorem World.cached_sound {w : World} (sound : SoundCache env w.cache) {dag : DagID} {c : CachedDAG} (found : w.cached dag = some c) :
    Sound env c.dag :=
  sound c (List.mem_of_find?_eq_some found)

theorem SoundCache.evict {cache : Cache} (sound : SoundCache env cache) (dag : DagID) : SoundCache env (cache.evict dag) :=
  fun c member => sound c (List.mem_filter.mp member).1

theorem SoundCache.publish {cache : Cache} (sound : SoundCache env cache) {c : CachedDAG} (new : Sound env c.dag) :
    SoundCache env (cache.publish c) := by
  intro other member
  rcases List.mem_append.mp member with old | fresh
  · exact sound.evict c.id other old
  · obtain rfl := List.mem_singleton.mp fresh
    exact new

/-- An edit of the cache publishes what the parser has returned. -/
theorem SoundCache.performs {tid : Nat} {o : Op} {a : Answer} {w w' : World} {reply : o.Reply} {spawned : List Request}
    (parser : Parser env) (sound : SoundCache env w.cache) (permitted : Footprint env o v)
    (performed : World.perform tid o a w = some (reply, w', spawned)) : SoundCache env w'.cache := by
  cases other : o.onCache with
  | false => rwa [(World.perform_some performed).1 other]
  | true =>
    cases o with
    | publishDAG d schedule =>
      cases performed
      obtain ⟨⟨⟨yaml, parsed⟩, _⟩, _⟩ := permitted
      have whole : Sound env d := parser.sound parsed
      exact sound.publish whole
    | evictDAG dag =>
      cases performed
      exact sound.evict dag
    | pauseCached dag paused =>
      simp only [World.perform] at performed
      split at performed
      · rename_i c found
        cases performed
        have whole : Sound env c.dag := World.cached_sound sound found
        exact sound.publish whole
      · cases performed
        exact sound
    | _ => cases other

end Sound

/-! ### What the steps do to a snapshot -/

/-- The copy of a run that is processed, or whose task is dispatched, carries the stored definition. -/
def CurrentOp (p : State) : Op → Prop
  | .lock (.process run) | .go (.runTask run _ _) =>
    ∀ row, p.state.db.run? run.runID = some row → row.definitionYAML = run.definitionYAML
  | _ => True

def SnapshotStep (env : Env) (p : State) : Step → Prop
  | .step tid _ => ∀ o, p.next tid = some o → CurrentOp p o
  | .start _ => True
  | .restart a => SoundCache env a.loads

/-- A tick has expanded, started or ended the run. -/
def Op.processes (id : RunID) : (o : Op) → o.Reply → Prop
  | .createTaskInstance ti, .ok _ => ti.runID = id
  | .updateDagRunState run state _ _, .ok _ => run = id ∧ state ≠ .cancelled
  | .updateDagRunSuccess run _ _, .ok _ => run = id
  | _, _ => False

def Processed (p : State) (id : RunID) : Prop := ∃ o reply, (Request.tick, ⟨o, reply⟩) ∈ p.history ∧ Op.processes id o reply

/-- A stored run, as the copy of it in memory says. -/
structure Agrees (row run : DagRun) : Prop where
  dagID : row.dagID = run.dagID
  yaml : row.definitionYAML = run.definitionYAML
  ended : run.state.isTerminal = true → row.state = run.state

/-- What a section knows of a run is what is stored. -/
def Knows (v : View) (db : DB) : Prop := ∀ id run, v.runs id = some run → ∃ row, db.run? id = some row ∧ Agrees row run

structure Snapshots (env : Env) (p : State) : Prop where
  exclusive : Exclusive p
  listing : Listing p
  cache : SoundCache env p.state.cache
  entries : ∀ t v dag c, live p t = some v → (dag, some c) ∈ v.entries → Sound env c.dag
  hashed : Hashed env p.state.db
  known : ∀ t v, live p t = some v → v.inside ≠ none → Knows v p.state.db
  snapshot : ∀ t v run, live p t = some v → v.inside = some (.process run) → run.runID ∉ v.adopted →
    ∃ row, p.state.db.run? run.runID = some row ∧ row.definitionYAML = run.definitionYAML
  adopted : ∀ t v id, live p t = some v → id ∈ v.adopted → ∃ row, p.state.db.run? id = some row ∧ row.definitionYAML ≠ ""
  processed : ∀ id, Processed p id → ∃ row, p.state.db.run? id = some row ∧ row.definitionYAML ≠ ""

section Step

variable {env : Env} {p : State} {w : World} {tid : Nat} {a : Answer} {v : View} {o : Op} {reply : o.Reply}
  {spawned : List Request} {id : RunID} {row : DagRun}

/-- A row keeps its definition, and its state once that is terminal. -/
structure Kept (row row' : DagRun) : Prop where
  dagID : row'.dagID = row.dagID
  yaml : row'.definitionYAML = row.definitionYAML
  hash : row'.definitionHash = row.definitionHash
  ended : row.state.isTerminal = true → row'.state = row.state

/-- Outside the lock a run can only be cancelled, if it is still active. -/
theorem Footprint.outside (permitted : Footprint env o v) (out : v.inside = none)
    (performed : World.perform tid o a p.state = some (reply, w, spawned)) (found : p.state.db.run? id = some row) :
    ∃ row', w.db.run? id = some row' ∧ Kept row row' := by
  have away {section_ : Section} (inside : v.inside = some section_) : False := by simp [out] at inside
  have finishes : ¬ v.Finishes id := by
    rintro (⟨_, _, inside, _⟩ | ⟨_, _, inside⟩)
    · exact away inside
    · exact away inside
  have retries : ¬ v.Retries id := by
    rintro (⟨_, _, inside⟩ | ⟨_, inside⟩ | ⟨_, _, _, inside, _⟩)
    · exact away inside
    · exact away inside
    · exact away inside
  rcases World.perform_run? performed id with same | changed
  · exact ⟨row, same.trans found, rfl, rfl, rfl, fun _ => rfl⟩
  · cases o with
    | createDagRunBounded | createManualDagRunBounded =>
      obtain ⟨_, free, _⟩ := changed
      cases found.symm.trans free
    | updateDagRunState run state started finished =>
      obtain ⟨rfl, old, stored, legal, now⟩ := changed
      cases found.symm.trans stored
      cases state with
      | cancelled =>
        refine ⟨_, now, rfl, rfl, rfl, fun ended => ?_⟩
        simp only [legalPriorRunStates, List.mem_cons, List.not_mem_nil, or_false] at legal
        rcases legal with active | active
        · simp [active, RunState.isTerminal] at ended
        · simp [active, RunState.isTerminal] at ended
      | running =>
        rcases permitted with ⟨_, promotes, _⟩ | ⟨retrying, _⟩ | ⟨_, _, _, inside⟩
        · exact (away (View.promotion_some promotes).1).elim
        · exact absurd retrying retries
        · exact (away inside).elim
      | queued => exact permitted.elim
      | success | failed | timedOut => exact absurd permitted finishes
    | updateDagRunSuccess run started finished =>
      obtain ⟨rfl, _⟩ := changed
      exact absurd permitted finishes
    | updateDagRunDefinition run yaml hash =>
      obtain ⟨rfl, _⟩ := changed
      rcases permitted.2 with ⟨⟨_, _, inside, _⟩ | ⟨_, _, _, _, inside, _⟩, _⟩ | ⟨retrying, _⟩
      · exact (away inside).elim
      · exact (away inside).elim
      · exact absurd retrying retries
    | _ => exact changed.elim

theorem Knows.kept (knows : Knows v p.state.db) (rows : ∀ id row, p.state.db.run? id = some row →
    ∃ row', w.db.run? id = some row' ∧ Kept row row') : Knows v w.db := by
  intro id run read
  obtain ⟨row, found, agrees⟩ := knows id run read
  obtain ⟨row', found', kept⟩ := rows id row found
  refine ⟨row', found', kept.dagID.trans agrees.dagID, kept.yaml.trans agrees.yaml, fun ended => ?_⟩
  have same := agrees.ended ended
  rw [kept.ended (same ▸ ended), same]

/-- A section that writes a run knows what it has written. -/
theorem Knows.rerun {f : DagRun → DagRun} {db after : DB} {reply : Except StoreError Unit} (knows : Knows v db)
    (follows : ∀ row run, Agrees row run → Agrees (f row) (f run))
    (written : (∃ row, db.run? id = some row ∧ reply = .ok () ∧
      ∀ x, after.run? x = if x = id then some (f row) else db.run? x) ∨ (∃ e, reply = .error e) ∧ after = db)
    {x : RunID} {run : DagRun} (read : v.rerun id f reply x = some run) : ∃ row, after.run? x = some row ∧ Agrees row run := by
  rcases written with ⟨row, found, rfl, rows⟩ | ⟨⟨e, rfl⟩, rfl⟩
  · rw [rows]
    by_cases own : x = id
    · subst own
      simp only [View.rerun, Function.update_self, Option.map_eq_some_iff] at read
      obtain ⟨before, read, rfl⟩ := read
      obtain ⟨row', found', agrees⟩ := knows x before read
      cases found.symm.trans found'
      exact ⟨f row, by simp, follows row before agrees⟩
    · simp only [View.rerun, Function.update_of_ne own] at read
      simpa [own] using knows x run read
  · exact knows x run read

theorem Knows.after (knows : Knows v p.state.db) (performed : World.perform tid o a p.state = some (reply, w, spawned)) :
    Knows (v.after o reply) w.db := by
  -- the other statements change no row of a run that is stored
  have others (same : (v.after o reply).runs = v.runs) (never : ∀ id row, p.state.db.run? id = some row →
      ¬ o.changesRun p.state.db w.db id) : Knows (v.after o reply) w.db := by
    intro id run read
    rw [same] at read
    obtain ⟨row, found, agrees⟩ := knows id run read
    rcases World.perform_run? performed id with unchanged | changed
    · exact ⟨row, unchanged.trans found, agrees⟩
    · exact absurd changed (never id row found)
  cases o with
  | lock | unlock => exact fun id run read => nomatch read
  | getDagRun id =>
    obtain ⟨rfl, _, answered⟩ := World.read_some performed
    cases reply with
    | error e => exact knows
    | ok run =>
      have found : p.state.db.run? id = some run := by
        rcases answered with answered | refused
        · cases found : p.state.db.run? id with
          | none => simp [DB.getDagRun, found] at answered
          | some row =>
            simp only [DB.getDagRun, found, Option.elim_some, Except.ok.injEq] at answered
            rw [answered]
        · cases refused
      intro x other read
      by_cases own : x = id
      · subst own
        simp only [View.after, View.learns, Function.update_self, Option.some.injEq] at read
        subst read
        exact ⟨run, found, rfl, rfl, fun _ => rfl⟩
      · simp only [View.after, View.learns, Function.update_of_ne own] at read
        exact knows x other read
  | updateDagRunState run state started finished =>
    refine fun x other read => knows.rerun (f := DB.setRunState state started finished) (fun _ _ agrees => ⟨agrees.dagID, agrees.yaml, fun _ => rfl⟩) ?_ read
    obtain ⟨_, ⟨db, ok, rfl, rfl⟩ | ⟨failed, rfl⟩⟩ := World.write_some performed
    · obtain ⟨row, found, _, rows, _⟩ := DB.updateDagRunState_ok ok
      exact .inl ⟨row, found, rfl, rows⟩
    · exact .inr ⟨failed, rfl⟩
  | updateDagRunSuccess run started finished =>
    refine fun x other read => knows.rerun (f := DB.setRunState .success started finished) (fun _ _ agrees => ⟨agrees.dagID, agrees.yaml, fun _ => rfl⟩) ?_ read
    obtain ⟨_, ⟨db, ok, rfl, rfl⟩ | ⟨failed, rfl⟩⟩ := World.write_some performed
    · obtain ⟨row, found, rows, _⟩ := DB.updateDagRunSuccess_ok ok
      exact .inl ⟨row, found, rfl, rows⟩
    · exact .inr ⟨failed, rfl⟩
  | updateDagRunDefinition run yaml hash =>
    refine fun x other read => knows.rerun (f := DB.setDefinition yaml hash) (fun _ _ agrees => ⟨agrees.dagID, rfl, agrees.ended⟩) ?_ read
    obtain ⟨_, ⟨db, ok, rfl, rfl⟩ | ⟨failed, rfl⟩⟩ := World.write_some performed
    · obtain ⟨row, found, rows, _⟩ := DB.updateDagRunDefinition_ok ok
      exact .inl ⟨row, found, rfl, rows⟩
    · exact .inr ⟨failed, rfl⟩
  | createDagRunBounded | createManualDagRunBounded =>
    refine others rfl fun id row found changed => ?_
    obtain ⟨_, free, _⟩ := changed
    cases found.symm.trans free
  | _ => exact others rfl fun _ _ _ changed => changed

/-- An adopted definition is one that parses, with its hash. -/
theorem View.Adopts.sound {yaml hash : String} (adopts : v.Adopts env id yaml hash) (parser : Parser env)
    (entries : ∀ dag c, (dag, some c) ∈ v.entries → Sound env c.dag) : yaml ≠ "" ∧ hash = env.hash yaml := by
  refine ⟨?_, adopts.1⟩
  rcases adopts.2 with ⟨_, d, known, rfl⟩ | ⟨_, run, c, _, _, member, rfl⟩
  · exact (known.sound parser entries).1
  · exact (entries _ c member).1

theorem View.mem_adopted_after {v : View} (member : id ∈ (v.after o reply).adopted) : id ∈ v.adopted ∨
    ∃ yaml hash, (⟨o, reply⟩ : Issued statements) = ⟨.updateDagRunDefinition id yaml hash, .ok ()⟩ := by
  cases o with
  | lock | unlock => cases member
  | updateDagRunDefinition run yaml hash =>
    cases reply with
    | error e => exact .inl member
    | ok _ =>
      rcases List.mem_cons.mp member with rfl | old
      · exact .inr ⟨yaml, hash, rfl⟩
      · exact .inl old
  | _ => exact .inl member

/-- A retry replaces the definition of a run that is over by one from the cache. -/
structure Adoption (env : Env) (v : View) (id : RunID) (row row' : DagRun) : Prop where
  retries : v.Retries id
  ended : row.state.isTerminal = true
  cached : ∃ c, (row.dagID, some c) ∈ v.entries ∧ row'.definitionYAML = c.dag.definitionYAML

/-- What a step does to the definition of a stored run. -/
inductive Redefines (env : Env) (v : View) (id : RunID) (row row' : DagRun) : Prop where
  | keeps (yaml : row'.definitionYAML = row.definitionYAML) (hash : row'.definitionHash = row.definitionHash)
  | adopts (sound : row'.definitionYAML ≠ "" ∧ row'.definitionHash = env.hash row'.definitionYAML)
      (cause : row.definitionYAML = "" ∨ Adoption env v id row row')

theorem Redefines.nonempty {row' : DagRun} (redefines : Redefines env v id row row') (before : row.definitionYAML ≠ "") :
    row'.definitionYAML ≠ "" := by
  cases redefines with
  | keeps yaml hash => rwa [yaml]
  | adopts sound cause => exact sound.1

theorem View.Retries.inside_ne (retries : v.Retries id) : v.inside ≠ none := by
  cases retries with
  | task task origin inside => simp [inside]
  | run origin inside => simp [inside]
  | child parent c origin inside held scheduled ref => simp [inside]

theorem Snapshots.redefines (kept : Snapshots env p) (parser : Parser env) (issuer : live p tid = some v)
    (permitted : Footprint env o v) (performed : World.perform tid o a p.state = some (reply, w, spawned))
    (found : p.state.db.run? id = some row) : ∃ row', w.db.run? id = some row' ∧ Redefines env v id row row' := by
  rcases World.perform_run? performed id with same | changed
  · exact ⟨row, same.trans found, .keeps rfl rfl⟩
  · cases o with
    | createDagRunBounded | createManualDagRunBounded =>
      obtain ⟨_, free, _⟩ := changed
      cases found.symm.trans free
    | updateDagRunState run state started finished =>
      obtain ⟨rfl, old, stored, _, now⟩ := changed
      cases found.symm.trans stored
      exact ⟨_, now, .keeps rfl rfl⟩
    | updateDagRunSuccess run started finished =>
      obtain ⟨rfl, old, stored, now⟩ := changed
      cases found.symm.trans stored
      exact ⟨_, now, .keeps rfl rfl⟩
    | updateDagRunDefinition run yaml hash =>
      obtain ⟨rfl, old, stored, now⟩ := changed
      cases found.symm.trans stored
      refine ⟨_, now, .adopts (permitted.sound parser fun dag c => kept.entries tid v dag c issuer) ?_⟩
      rcases permitted.2 with ⟨⟨snapshot, _, inside, own, legacy, unadopted⟩ | ⟨task, target, copy, _, inside, read, legacy⟩, _⟩ |
        ⟨retries, copy, c, read, ended, member, same⟩
      · -- the tick's copy has no definition, and so has the row
        subst own
        obtain ⟨row', found', yaml⟩ := kept.snapshot tid v snapshot issuer inside unadopted
        cases found.symm.trans found'
        exact .inl (yaml.trans legacy)
      · obtain ⟨row', found', agrees⟩ := kept.known tid v issuer (by simp [inside]) run copy read
        cases found.symm.trans found'
        exact .inl (agrees.yaml.trans legacy)
      · obtain ⟨row', found', agrees⟩ := kept.known tid v issuer retries.inside_ne run copy read
        cases found.symm.trans found'
        refine .inr ⟨retries, ?_, c, agrees.dagID ▸ member, same.symm⟩
        rw [agrees.ended ended]
        exact ended
    | _ => exact changed.elim

/-- A run that the tick processes has a definition. -/
theorem Snapshots.processes (kept : Snapshots env p) (issuer : live p tid = some v) (processes : v.Processes id) :
    ∃ row, p.state.db.run? id = some row ∧ row.definitionYAML ≠ "" := by
  obtain ⟨run, _, inside, rfl, taken⟩ := processes
  by_cases adopted : run.runID ∈ v.adopted
  · exact kept.adopted tid v run.runID issuer adopted
  · obtain ⟨row, found, same⟩ := kept.snapshot tid v run issuer inside adopted
    exact ⟨row, found, by rw [same]; exact taken.resolve_right adopted⟩

/-- The statements by which a tick expands, starts or ends a run come after its snapshot. -/
theorem Snapshots.issues (kept : Snapshots env p) (issuer : live p tid = some v) (permitted : Footprint env o v)
    (origin : v.origin = .tick) (processes : Op.processes id o reply) :
    ∃ row, p.state.db.run? id = some row ∧ row.definitionYAML ≠ "" := by
  have finished (finishes : v.Finishes id) : ∃ row, p.state.db.run? id = some row ∧ row.definitionYAML ≠ "" := by
    rcases finishes with processes | ⟨target, marks, _⟩
    · exact kept.processes issuer processes
    · cases origin.symm.trans marks
  cases o with
  | createTaskInstance ti =>
    cases reply with
    | error e => exact processes.elim
    | ok _ =>
      obtain ⟨_, _, _, expands⟩ := permitted
      cases processes
      rcases expands with processes | ⟨_, adopted⟩
      · exact kept.processes issuer processes
      · exact kept.adopted tid v _ issuer adopted
  | updateDagRunState run state started finished' =>
    cases reply with
    | error e => exact processes.elim
    | ok _ =>
      obtain ⟨rfl, active⟩ := processes
      cases state with
      | running =>
        rcases permitted with ⟨_, _, processes, _⟩ | ⟨_, adopted, _⟩ | ⟨_, _, marks, _⟩
        · exact kept.processes issuer processes
        · exact kept.adopted tid v _ issuer adopted
        · cases origin.symm.trans marks
      | cancelled => exact absurd rfl active
      | queued => exact permitted.elim
      | success | failed | timedOut => exact finished permitted
  | updateDagRunSuccess run started finished' =>
    cases reply with
    | error e => exact processes.elim
    | ok _ =>
      cases processes
      exact finished permitted
  | _ => exact processes.elim

/-- The rows that the step creates are hashed too. -/
theorem Snapshots.hashes (kept : Snapshots env p) (parser : Parser env) (issuer : live p tid = some v)
    (permitted : Footprint env o v) (performed : World.perform tid o a p.state = some (reply, w, spawned)) : Hashed env w.db := by
  intro id row' found' nonempty
  cases found : p.state.db.run? id with
  | some row =>
    obtain ⟨row'', found'', redefines⟩ := kept.redefines parser issuer permitted performed found
    cases found'.symm.trans found''
    cases redefines with
    | keeps yaml hash =>
      rw [yaml] at nonempty ⊢
      rw [hash]
      exact kept.hashed id row found nonempty
    | adopts sound cause => exact sound.2
  | none =>
    have created {run : DagRun} (creates : v.Creates env run) (new : w.db.run? id = some run) :
        row'.definitionHash = env.hash row'.definitionYAML := by
      cases found'.symm.trans new
      rcases creates.2 with ⟨empty, _⟩ | ⟨_, c, _, yaml, hash⟩
      · exact absurd empty nonempty
      · rw [yaml, hash]
    rcases World.perform_run? performed id with same | changed
    · cases found'.symm.trans (same.trans found)
    · cases o with
      | createDagRunBounded | createManualDagRunBounded => exact created permitted changed.2.2
      | updateDagRunState =>
        obtain ⟨_, _, stored, _⟩ := changed
        cases found.symm.trans stored
      | updateDagRunSuccess | updateDagRunDefinition =>
        obtain ⟨_, _, stored, _⟩ := changed
        cases found.symm.trans stored
      | _ => exact changed.elim

/-- A snapshot that is there stays there. -/
theorem Snapshots.lasts (kept : Snapshots env p) (parser : Parser env) (issuer : live p tid = some v)
    (permitted : Footprint env o v) (performed : World.perform tid o a p.state = some (reply, w, spawned))
    (stored : ∃ row, p.state.db.run? id = some row ∧ row.definitionYAML ≠ "") :
    ∃ row, w.db.run? id = some row ∧ row.definitionYAML ≠ "" := by
  obtain ⟨row, found, nonempty⟩ := stored
  obtain ⟨row', found', redefines⟩ := kept.redefines parser issuer permitted performed found
  exact ⟨row', found', redefines.nonempty nonempty⟩

/-- The copy that the tick processes, after a statement of its own. -/
theorem Snapshots.snapshots (kept : Snapshots env p) (issuer : live p tid = some v) (permitted : Footprint env o v)
    (current : CurrentOp p o) (performed : World.perform tid o a p.state = some (reply, w, spawned)) {run : DagRun}
    (inside : (v.after o reply).inside = some (.process run)) (unadopted : run.runID ∉ (v.after o reply).adopted) :
    ∃ row, w.db.run? run.runID = some row ∧ row.definitionYAML = run.definitionYAML := by
  -- a statement of the section that is not an adoption leaves the definition alone
  have before (inside : v.inside = some (.process run)) (unadopted : run.runID ∉ v.adopted)
      (other : ∀ row, p.state.db.run? run.runID = some row →
        ∃ row', w.db.run? run.runID = some row' ∧ row'.definitionYAML = row.definitionYAML) :
      ∃ row, w.db.run? run.runID = some row ∧ row.definitionYAML = run.definitionYAML := by
    obtain ⟨row, found, same⟩ := kept.snapshot tid v run issuer inside unadopted
    obtain ⟨row', found', yaml⟩ := other row found
    exact ⟨row', found', yaml.trans same⟩
  rcases World.perform_run? performed run.runID with same | changed
  · cases o with
    | lock what =>
      cases inside
      obtain ⟨row, found, _⟩ := kept.listing.listed tid v run issuer permitted.2.2
      exact ⟨row, same.trans found, current row found⟩
    | unlock => cases inside
    | updateDagRunDefinition id yaml hash =>
      refine before inside (fun adopted => unadopted ?_) fun row found => ⟨row, same.trans found, rfl⟩
      exact ((Onward.refl v).after (o := .updateDagRunDefinition id yaml hash) rfl reply).adopted _ adopted
    | _ => exact before inside unadopted fun row found => ⟨row, same.trans found, rfl⟩
  · cases o with
    | createDagRunBounded | createManualDagRunBounded =>
      refine before inside unadopted fun row found => ?_
      obtain ⟨_, free, _⟩ := changed
      cases found.symm.trans free
    | updateDagRunState id state started finished =>
      refine before inside unadopted fun row found => ?_
      obtain ⟨_, old, stored, _, now⟩ := changed
      cases found.symm.trans stored
      exact ⟨_, now, rfl⟩
    | updateDagRunSuccess id started finished =>
      refine before inside unadopted fun row found => ?_
      obtain ⟨_, old, stored, now⟩ := changed
      cases found.symm.trans stored
      exact ⟨_, now, rfl⟩
    | updateDagRunDefinition id yaml hash =>
      obtain ⟨rfl, _⟩ := changed
      cases reply with
      | ok _ => exact absurd List.mem_cons_self unadopted
      | error e =>
        obtain ⟨_, ⟨_, _, answered, _⟩ | ⟨_, same⟩⟩ := World.write_some performed
        · cases answered
        · exact before inside unadopted fun row found => ⟨row, by rw [same, found], rfl⟩
    | _ => exact changed.elim

theorem Snapshots.step (parser : Parser env) {move : Step} {q : State} (kept : Snapshots env p)
    (allowed : SnapshotStep env p move) (stepped : Stepped env p move q) : Snapshots env q := by
  have exclusive := kept.exclusive.step stepped
  have listing := kept.listing.step stepped
  cases stepped with
  | idle => exact kept
  | starts admitted state threads history =>
    refine ⟨exclusive, listing, state ▸ kept.cache, fun t v dag c found member => ?_, state ▸ kept.hashed,
      fun t v found inside => ?_, fun t v run found inside => ?_, fun t v id found member => ?_, fun id processed => ?_⟩
    · rcases threads t v found with old | ⟨_, rfl⟩
      · exact kept.entries t v dag c old member
      · cases member
    · rcases threads t v found with old | ⟨_, rfl⟩
      · exact state ▸ kept.known t v old inside
      · exact absurd rfl inside
    · rcases threads t v found with old | ⟨_, rfl⟩
      · exact state ▸ kept.snapshot t v run old inside
      · cases inside
    · rcases threads t v found with old | ⟨_, rfl⟩
      · exact state ▸ kept.adopted t v id old member
      · cases member
    · rw [state]
      exact kept.processed id (by simpa [Processed, history] using processed)
  | restarts state threads history =>
    have rows : q.state.db = p.state.db := by rw [state]; rfl
    refine ⟨exclusive, listing, ?_, fun t v dag c found member => ?_, rows ▸ kept.hashed,
      fun t v found inside => ?_, fun t v run found inside => ?_, fun t v id found member => ?_, fun id processed => ?_⟩
    · rw [state]
      exact allowed
    · cases (threads t v found).2
      cases member
    · cases (threads t v found).2
      exact absurd rfl inside
    · cases (threads t v found).2
      cases inside
    · cases (threads t v found).2
      cases member
    · rw [rows]
      exact kept.processed id (by simpa [Processed, history] using processed)
  | @performs _ tid a v o reply spawned next issuer permitted honest performed threads history =>
    have lasts {id : RunID} (stored : ∃ row, p.state.db.run? id = some row ∧ row.definitionYAML ≠ "") :=
      kept.lasts parser issuer permitted performed stored
    -- who is inside a section is alone there: the issuer is outside
    have outside {t : Nat} {u : View} (old : live p t = some u) (apart : t ≠ tid) (inside : u.inside ≠ none) :
        v.inside = none := by
      by_contra other
      exact apart (kept.exclusive.one old issuer inside other)
    refine ⟨exclusive, listing, kept.cache.performs parser permitted performed, fun t u dag c found member => ?_,
      kept.hashes parser issuer permitted performed, fun t u found inside => ?_, fun t u run found inside unadopted => ?_,
      fun t u id found member => ?_, fun id processed => ?_⟩
    · rcases threads t u found with ⟨rfl, rfl⟩ | ⟨_, old⟩ | ⟨_, task, epoch, _, _, rfl⟩
      · rcases View.mem_entries_after member with before | ⟨looked, cached, same, pair⟩
        · exact kept.entries t v dag c issuer before
        · cases same
          cases pair
          exact World.cached_sound kept.cache (World.perform_cachedDAG performed).symm
      · exact kept.entries t u dag c old member
      · cases member
    · rcases threads t u found with ⟨rfl, rfl⟩ | ⟨apart, old⟩ | ⟨_, task, epoch, _, _, rfl⟩
      · by_cases before : v.inside = none
        · -- the section has just been entered
          rw [View.after_inside] at inside
          cases o with
          | lock what => exact fun id run read => nomatch read
          | unlock => exact absurd rfl inside
          | _ => exact absurd before inside
        · exact (kept.known t v issuer before).after performed
      · exact (kept.known t u old inside).kept fun id row found => permitted.outside (outside old apart inside) performed found
      · exact absurd rfl inside
    · rcases threads t u found with ⟨rfl, rfl⟩ | ⟨apart, old⟩ | ⟨_, task, epoch, _, _, rfl⟩
      · exact kept.snapshots issuer permitted (allowed o next) performed inside unadopted
      · obtain ⟨row, stored, same⟩ := kept.snapshot t u run old inside unadopted
        obtain ⟨row', stored', keeps⟩ := permitted.outside (outside old apart (by simp [inside])) performed stored
        exact ⟨row', stored', keeps.yaml.trans same⟩
      · cases inside
    · rcases threads t u found with ⟨rfl, rfl⟩ | ⟨apart, old⟩ | ⟨_, task, epoch, _, _, rfl⟩
      · rcases View.mem_adopted_after member with before | ⟨yaml, hash, same⟩
        · exact lasts (kept.adopted t v id issuer before)
        · cases same
          have nonempty := (permitted.sound parser fun dag c => kept.entries t v dag c issuer).1
          obtain ⟨_, ⟨db, written, _, after⟩ | ⟨⟨e, refused⟩, _⟩⟩ := World.write_some performed
          · obtain ⟨row, _, rows, _⟩ := DB.updateDagRunDefinition_ok written
            exact ⟨DB.setDefinition yaml hash row, by simp [after, rows], nonempty⟩
          · cases refused
      · exact lasts (kept.adopted t u id old member)
      · cases member
    · obtain ⟨o', reply', member, processes⟩ := processed
      rw [history] at member
      rcases List.mem_append.mp member with before | last
      · exact lasts (kept.processed id ⟨o', reply', before, processes⟩)
      · obtain ⟨origin, same⟩ := Prod.mk.inj (List.mem_singleton.mp last)
        cases same
        exact lasts (kept.issues issuer permitted origin.symm processes)

/-- A task that is dispatched is one of the stored definition. -/
theorem Snapshots.dispatches (parser : Parser env) (kept : Snapshots env p) (issuer : live p tid = some v) {run : DagRun} {t : Task}
    {ti : TaskInstance} (permitted : Footprint env (.go (.runTask run t ti)) v) (current : CurrentOp p (.go (.runTask run t ti)))
    (found : p.state.db.run? run.runID = some row) : ∃ d, env.parse row.definitionYAML = some d ∧ t ∈ d.tasks := by
  obtain ⟨_, _, _, ⟨d, member, source⟩, _⟩ := permitted
  rw [current row found]
  rcases source with parsed | ⟨known, yaml⟩
  · exact ⟨d, parsed, member⟩
  · obtain ⟨_, parsed, same, tasks⟩ := known.sound parser fun dag c => kept.entries tid v dag c issuer
    exact ⟨parsed, yaml ▸ same, tasks ▸ member⟩

end Step

/-- The definition that a step leaves of a stored run with a snapshot: the same pair, or what a
retry of the finished run has found in the cache. -/
def Stable (env : Env) (p : State) (move : Step) : Prop :=
  ∀ id row, p.state.db.run? id = some row → row.definitionYAML ≠ "" →
    ∃ row', ((scheduler env).step p move).state.db.run? id = some row' ∧
      ((row'.definitionYAML = row.definitionYAML ∧ row'.definitionHash = row.definitionHash) ∨
        ∃ tid a v, move = .step tid a ∧ live p tid = some v ∧ Adoption env v id row row')

/-- Every dispatched task is one of the definition that its run stores. -/
def DispatchesDefined (env : Env) (p : State) (move : Step) : Prop :=
  ∀ tid a run t ti row, move = .step tid a → p.next tid = some (.go (.runTask run t ti)) →
    p.state.db.run? run.runID = some row → ∃ d, env.parse row.definitionYAML = some d ∧ t ∈ d.tasks

/-- Snapshots are hashed, there once a run was processed, stable, and all that is dispatched. -/
theorem definition_snapshots_stable (env : Env) (parser : Parser env) (w : World) (cache : SoundCache env w.cache)
    (hashed : Hashed env w.db) {q : State} (reaches : (scheduler env).Reaches (SnapshotStep env) (idle w) q) :
    Hashed env q.state.db ∧
      (∀ id, Processed q id → ∃ row, q.state.db.run? id = some row ∧ row.definitionYAML ≠ "" ∧
        row.definitionHash = env.hash row.definitionYAML) ∧
      ∀ move, SnapshotStep env q move → Stable env q move ∧ DispatchesDefined env q move := by
  have start : Snapshots env (idle w) :=
    ⟨idle_exclusive w, idle_listing w, cache, fun _ _ _ _ found => (idle_empty found).elim, hashed,
      fun _ _ found => (idle_empty found).elim, fun _ _ _ found => (idle_empty found).elim,
      fun _ _ _ found => (idle_empty found).elim, fun _ processed => by
        obtain ⟨_, _, member, _⟩ := processed
        cases member⟩
  have traced := reaches.traced (fun _ _ _ _ _ _ _ performed => World.perform_honest performed) (idle_traced w)
  have kept := Reaches.keeps reaches (idle_traced w) start fun p move kept allowed stepped => kept.step parser allowed stepped
  refine ⟨kept.hashed, fun id processed => ?_, fun move allowed => ⟨fun id row found nonempty => ?_, ?_⟩⟩
  · obtain ⟨row, found, nonempty⟩ := kept.processed id processed
    exact ⟨row, found, nonempty, kept.hashed id row found nonempty⟩
  · have moved := stepped traced move
    generalize (scheduler env).step q move = q' at moved ⊢
    cases moved with
    | idle => exact ⟨row, found, .inl ⟨rfl, rfl⟩⟩
    | starts _ state _ _ => exact ⟨row, state ▸ found, .inl ⟨rfl, rfl⟩⟩
    | restarts state _ _ => exact ⟨row, by rw [state]; exact found, .inl ⟨rfl, rfl⟩⟩
    | performs next issuer permitted honest performed threads history =>
      obtain ⟨row', found', redefines⟩ := kept.redefines parser issuer permitted performed found
      refine ⟨row', found', ?_⟩
      cases redefines with
      | keeps yaml hash => exact .inl ⟨yaml, hash⟩
      | adopts sound cause => exact .inr ⟨_, _, _, rfl, issuer, cause.resolve_left nonempty⟩
  · rintro tid a run t ti row rfl next found
    obtain ⟨v, issuer, permitted⟩ := next_permitted traced next
    exact kept.dispatches parser issuer permitted (allowed _ next) found

section Witness

/-- A workflow with one task, whose script an edit replaces. -/
def scripted (script : String) : DAG where
  dagID := "etl"
  definitionYAML := script
  tasks := [{ id := "load", project := script }]

def scriptEnv : Env where
  parse yaml := if yaml = "" then none else some (scripted yaml)
  hash yaml := yaml
  shift _ _ _ := none
  parseSchedule _ _ := none
  decodePayload _ := none

theorem scriptEnv_parses : Parser scriptEnv := by
  refine ⟨fun yaml d parsed => ?_, rfl⟩
  simp only [scriptEnv] at parsed
  split at parsed
  · cases parsed
  · cases parsed
    rfl

/-- A running run of the old script whose load is due; the cache has the new script. -/
def editedWorld : World where
  db := { DB.empty with
    runs := ⟨[{ runID := .manual "etl" 0, dagID := "etl", logicalDate := 0, state := .running, triggerType := .manual,
                definitionYAML := "old", definitionHash := "old" }], by decide⟩
    taskInstances := ⟨[{ runID := .manual "etl" 0, taskID := "load" }], by simp [InstanceKey.apart]⟩ }
  cache := ⟨[⟨scripted "new", none⟩], by decide⟩

theorem editedWorld_sound : SoundCache scriptEnv editedWorld.cache := by
  intro c member
  obtain rfl := List.mem_singleton.mp member
  exact ⟨by decide, scripted "new", rfl, rfl⟩

theorem editedWorld_hashed : Hashed scriptEnv editedWorld.db := by
  intro id row found _
  obtain rfl := List.mem_singleton.mp (DB.run?_some found).1
  rfl

/-- A tick up to the dispatch of the load. -/
def dispatchingTick : List Step := .start .tick :: List.replicate 18 (.step 0 {})

/-- The tick dispatches the old load, as the run's definition has it, whatever the cache holds. -/
theorem old_load_dispatched : ∃ run t ti, ((scheduler scriptEnv).run (idle editedWorld) dispatchingTick).next 0 =
    some (.go (.runTask run t ti)) ∧ ∃ d, scriptEnv.parse "old" = some d ∧ t ∈ d.tasks := by
  have follows : (scheduler scriptEnv).Follows (SnapshotStep scriptEnv) (idle editedWorld) dispatchingTick := by
    refine ⟨trivial, ?_⟩
    -- the copy that is processed is the stored run
    iterate 18
      refine ⟨?_, ?_⟩
      · rintro o ⟨⟩
        first
          | trivial
          | (rintro row ⟨⟩; rfl)
    trivial
  obtain ⟨_, _, next⟩ := definition_snapshots_stable scriptEnv scriptEnv_parses editedWorld editedWorld_sound
    editedWorld_hashed (follows.reaches (.refl _))
  refine ⟨_, _, _, rfl, ?_⟩
  refine (next (.step 0 {}) ?_).2 0 {} _ _ _ _ rfl rfl rfl
  rintro o ⟨⟩ row ⟨⟩
  rfl

/-- The requests that edit definitions or act on runs. -/
def Request.onDefinitions : Request → Bool
  | .tick | .createDAG _ | .reloadDAGs _ | .deleteDAG _ | .cancelRun _ | .retryRun _ | .retryTask _ _ | .markTask _ _ _
  | .markRun _ _ => true
  | _ => false

def DefinitionRequests (_ : State) : Step → Prop
  | .step _ a => a.served = true
  | .start request => request.onDefinitions = true
  | .restart _ => False

/-- The tick lists the run; the operator cancels and retries it, which adopts the new script;
the tick goes on with the copy that it has listed. -/
def retriedMeanwhile : List Step :=
  .start .tick :: List.replicate 7 (.step 0 {}) ++ .start (.cancelRun (.manual "etl" 0)) :: List.replicate 8 (.step 1 {}) ++
    .start (.retryRun (.manual "etl" 0)) :: List.replicate 10 (.step 2 {}) ++ List.replicate 11 (.step 0 {})

/-- The load of the old script is dispatched for a run whose stored definition is the new one. -/
theorem replaced_load_dispatched : ¬ ∀ (env : Env) (w : World), Parser env → SoundCache env w.cache → Hashed env w.db →
    ∀ q, (scheduler env).Reaches DefinitionRequests (idle w) q → ∀ move, DefinitionRequests q move → DispatchesDefined env q move := by
  intro claim
  have follows : (scheduler scriptEnv).Follows DefinitionRequests (idle editedWorld) retriedMeanwhile := by
    iterate 39 refine ⟨rfl, ?_⟩
    trivial
  obtain ⟨d, parsed, member⟩ := claim scriptEnv editedWorld scriptEnv_parses editedWorld_sound editedWorld_hashed _
    (follows.reaches (.refl _)) (.step 0 {}) rfl 0 {} _ _ _ _ rfl rfl rfl
  have definition : d = scripted "new" := (Option.some.inj parsed).symm
  subst definition
  exact absurd (congrArg Task.project (List.mem_singleton.mp member)) (by decide)

end Witness

end Cronova.Scheduler
