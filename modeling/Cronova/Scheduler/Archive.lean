import Cronova.Scheduler.Serial

/-! Archived DAGs: whether `DeleteDAG` lasts, and whether it leaves runs behind.

A scan of the DAG directory looks up the archive flag and registers the file later, and
`DeleteDAG` counts the active runs and writes the flag later. The results below say between
which statements nothing of the other kind may fall.
-/

set_option autoImplicit false

namespace Cronova.Scheduler

open Model Store Process

/-! ### The archive flag -/

/-- The DAG is stored and archived. -/
def Archived (dag : DagID) (db : DB) : Prop :=
  (∃ row ∈ db.dags, row.dagID = dag) ∧ ∀ row ∈ db.dags, row.dagID = dag → row.deleted = true

section Flag

variable {db after : DB} {dag : DagID}

theorem Archived.inactive (archived : Archived dag db) : db.dagActive dag = false := by
  rw [DB.dagActive, List.any_eq_false]
  intro row stored active
  rw [Bool.and_eq_true, beq_iff_eq] at active
  simp [archived.2 row stored active.1] at active

theorem Archived.of_dags (same : after.dags = db.dags) : Archived dag after ↔ Archived dag db := by
  rw [Archived, Archived, same]

theorem Archived.getDAG (archived : Archived dag db) : ∃ row, db.getDAG dag = .ok row ∧ row.deleted = true := by
  obtain ⟨⟨row, stored, own⟩, all⟩ := archived
  cases found : db.dags.find? (·.dagID == dag) with
  | none =>
    rw [List.find?_eq_none] at found
    exact absurd (by simp [own]) (found row stored)
  | some first =>
    have same : first.dagID = dag := by simpa using List.find?_some found
    exact ⟨first, by simp [DB.getDAG, found], all first (List.mem_of_find?_eq_some found) same⟩

/-- An update that leaves the flag of the DAG alone. -/
theorem Archived.updateDAG {other : DagID} {guard : StoredDAG → Bool} {f : StoredDAG → StoredDAG}
    (same : ∀ row, (f row).dagID = row.dagID) (flag : other = dag → ∀ row, (f row).deleted = row.deleted) :
    Archived dag (db.updateDAG other guard f) ↔ Archived dag db := by
  have rows (row : StoredDAG) : (if row.dagID == other && guard row then f row else row).dagID = row.dagID := by
    split
    · exact same row
    · rfl
  have flags (row : StoredDAG) (own : row.dagID = dag) :
      (if row.dagID == other && guard row then f row else row).deleted = row.deleted := by
    split
    · rename_i chosen
      rw [Bool.and_eq_true, beq_iff_eq] at chosen
      exact flag (chosen.1.symm.trans own) row
    · rfl
  simp only [Archived, DB.updateDAG, List.mem_map]
  constructor
  · rintro ⟨⟨_, ⟨row, stored, rfl⟩, own⟩, all⟩
    refine ⟨⟨row, stored, (rows row).symm.trans own⟩, fun row stored own => ?_⟩
    exact (flags row own).symm.trans (all _ ⟨row, stored, rfl⟩ ((rows row).trans own))
  · rintro ⟨⟨row, stored, own⟩, all⟩
    refine ⟨⟨_, ⟨row, stored, rfl⟩, (rows row).trans own⟩, ?_⟩
    rintro _ ⟨row, stored, rfl⟩ own
    rw [rows] at own
    exact (flags row own).trans (all row stored own)

theorem archived_softDeleteDAG (written : db.softDeleteDAG dag = .ok after) : Archived dag after := by
  unfold DB.softDeleteDAG at written
  split at written
  · rename_i active
    cases written
    obtain ⟨row, stored, chosen⟩ := List.any_eq_true.mp active
    rw [Bool.and_eq_true, beq_iff_eq] at chosen
    refine ⟨⟨_, List.mem_map_of_mem stored, ?_⟩, fun row' stored' own => ?_⟩
    · simp [chosen.1, chosen.2]
    · obtain ⟨old, _, rfl⟩ := List.mem_map.mp stored'
      by_cases flagged : old.deleted = true
      · simp [flagged]
      · have same : old.dagID = dag := by
          rw [← own]
          split <;> rfl
        simp [same, flagged]
  · cases written

theorem Archived.softDeleteDAG {other : DagID} (written : db.softDeleteDAG other = .ok after) (apart : other ≠ dag) :
    Archived dag after ↔ Archived dag db := by
  unfold DB.softDeleteDAG at written
  split at written
  · cases written
    apply Archived.updateDAG
    · exact fun _ => rfl
    · exact fun same => absurd same apart
  · cases written

theorem Archived.setDAGPaused {other : DagID} {paused : Bool} (written : db.setDAGPaused other paused = .ok after) :
    Archived dag after ↔ Archived dag db := by
  unfold DB.setDAGPaused at written
  split at written
  · cases written
    apply Archived.updateDAG
    · exact fun _ => rfl
    · exact fun _ _ => rfl
  · cases written

theorem Archived.upsertDAG {d : DAG} (other : d.dagID ≠ dag) : Archived dag (db.upsertDAG d) ↔ Archived dag db := by
  unfold DB.upsertDAG
  split
  · apply Archived.updateDAG
    · exact fun _ => rfl
    · exact fun same => absurd same other
  · simp only [Archived, List.mem_append, List.mem_singleton]
    constructor
    · rintro ⟨⟨row, stored | rfl, own⟩, all⟩
      · exact ⟨⟨row, stored, own⟩, fun row stored => all row (.inl stored)⟩
      · exact absurd own other
    · rintro ⟨⟨row, stored, own⟩, all⟩
      refine ⟨⟨row, .inl stored, own⟩, ?_⟩
      rintro row (stored | rfl) own
      · exact all row stored own
      · exact absurd own other

/-- A registered DAG is not archived. -/
theorem not_archived_upsertDAG (db : DB) (d : DAG) : ¬ Archived d.dagID (db.upsertDAG d) := by
  rintro ⟨_, all⟩
  unfold DB.upsertDAG at all
  split at all
  · rename_i known
    obtain ⟨row, stored, own⟩ := List.any_eq_true.mp known
    rw [beq_iff_eq] at own
    have deleted := all _ (List.mem_map_of_mem stored) (by simp [own])
    simp [own] at deleted
  · have deleted := all _ (List.mem_append_right _ (List.mem_singleton_self _)) rfl
    cases deleted

end Flag

section Performed

variable {tid : Nat} {o : Op} {a : Answer} {w w' : World} {reply : o.Reply} {spawned : List Request} {dag : DagID}

/-- Only a registration and `DeleteDAG` write the flag. -/
theorem archived_perform (performed : World.perform tid o a w = some (reply, w', spawned))
    (unregistered : ∀ d, o = .upsertDAG d → d.dagID ≠ dag) (undeleted : o ≠ .softDeleteDAG dag) :
    Archived dag w'.db ↔ Archived dag w.db := by
  cases o with
  | upsertDAG d =>
    rcases (World.perform_some performed).2.2.2 with same | written
    · rw [same]
    · rw [← Option.some.inj written]
      exact Archived.upsertDAG (unregistered d rfl)
  | softDeleteDAG other =>
    obtain ⟨_, ⟨db, written, _, rfl⟩ | ⟨_, rfl⟩⟩ := World.write_some performed
    · exact Archived.softDeleteDAG written fun same => undeleted (congrArg _ same)
    · rfl
  | setDAGPaused other paused =>
    obtain ⟨_, ⟨db, written, _, rfl⟩ | ⟨_, rfl⟩⟩ := World.write_some performed
    · exact Archived.setDAGPaused written
    · rfl
  | _ => exact Archived.of_dags (World.perform_dags performed rfl)

theorem archived_perform_softDeleteDAG {reply : Except StoreError Unit}
    (performed : World.perform tid (.softDeleteDAG dag) a w = some (reply, w', spawned)) :
    (reply = .ok () ∧ Archived dag w'.db) ∨ ((∃ e, reply = .error e) ∧ w' = w) := by
  obtain ⟨_, ⟨db, written, answered, rfl⟩ | refused⟩ := World.write_some performed
  · exact .inl ⟨answered, archived_softDeleteDAG written⟩
  · exact .inr refused

/-- Only a registration ends the archive. -/
theorem Archived.performs (archived : Archived dag w.db) (performed : World.perform tid o a w = some (reply, w', spawned))
    (unregistered : ∀ d, o = .upsertDAG d → d.dagID ≠ dag) : Archived dag w'.db := by
  by_cases deletes : o = .softDeleteDAG dag
  · subst deletes
    rcases archived_perform_softDeleteDAG performed with ⟨_, archived⟩ | ⟨_, rfl⟩
    · exact archived
    · exact archived
  · exact (archived_perform performed unregistered deletes).mpr archived

/-- Only `DeleteDAG` archives. -/
theorem Archived.performed (archived : Archived dag w'.db) (performed : World.perform tid o a w = some (reply, w', spawned)) :
    Archived dag w.db ∨ o = .softDeleteDAG dag := by
  by_cases deletes : o = .softDeleteDAG dag
  · exact .inr deletes
  · by_cases registers : ∃ d, o = .upsertDAG d ∧ d.dagID = dag
    · obtain ⟨d, rfl, rfl⟩ := registers
      rcases (World.perform_some performed).2.2.2 with same | written
      · exact .inl (same ▸ archived)
      · rw [← Option.some.inj written] at archived
        exact absurd archived (not_archived_upsertDAG w.db d)
    · exact .inl ((archived_perform performed (fun d same own => registers ⟨d, same, own⟩) deletes).mp archived)

/-- The creation of a run. -/
def Op.creates (run : DagRun) : Op → Prop
  | .createDagRunBounded r _ | .createManualDagRunBounded r _ _ => r = run
  | _ => False

/-- A run that was not stored is created, and its DAG is not archived. -/
theorem World.perform_created (performed : World.perform tid o a w = some (reply, w', spawned)) {id : RunID} {row : DagRun}
    (new : w.db.run? id = none) (found : w'.db.run? id = some row) : o.creates row ∧ w.db.dagActive row.dagID = true := by
  rcases World.perform_run? performed id with same | changed
  · cases found.symm.trans (same.trans new)
  · cases o with
    | createDagRunBounded run global =>
      obtain ⟨_, _, now⟩ := changed
      cases found.symm.trans now
      obtain ⟨_, ⟨db, written, _⟩ | ⟨_, rfl⟩⟩ := World.write_some performed
      · exact ⟨rfl, (DB.createDagRunBounded_ok written).1⟩
      · cases found.symm.trans new
    | createManualDagRunBounded run perDAG global =>
      obtain ⟨_, _, now⟩ := changed
      cases found.symm.trans now
      obtain ⟨_, ⟨db, written, _⟩ | ⟨_, rfl⟩⟩ := World.write_some performed
      · exact ⟨rfl, DB.createManualDagRunBounded_active written⟩
      · cases found.symm.trans new
    | updateDagRunState | updateDagRunSuccess | updateDagRunDefinition =>
      obtain ⟨_, old, before, _⟩ := changed
      cases new.symm.trans before
    | _ => exact changed.elim

/-- Every run of the DAG is one of the given database. -/
def NoneSince (dag : DagID) (before now : DB) : Prop :=
  ∀ id row, now.run? id = some row → row.dagID = dag → ∃ old, before.run? id = some old ∧ old.dagID = dag

theorem NoneSince.of_perform (performed : World.perform tid o a w = some (reply, w', spawned))
    (uncreated : ∀ row, o.creates row → w.db.dagActive row.dagID = true → row.dagID ≠ dag) : NoneSince dag w.db w'.db := by
  intro id row found own
  cases stored : w.db.run? id with
  | some old =>
    obtain ⟨row', found', same⟩ := World.perform_persists performed stored
    cases found.symm.trans found'
    exact ⟨old, rfl, (congrArg RunKey.dag same).symm.trans own⟩
  | none =>
    obtain ⟨creates, active⟩ := World.perform_created performed stored found
    exact absurd own (uncreated row creates active)

/-- No run of an archived DAG is created. -/
theorem Archived.creates (archived : Archived dag w.db) (performed : World.perform tid o a w = some (reply, w', spawned)) :
    NoneSince dag w.db w'.db := by
  refine NoneSince.of_perform performed fun row _ active own => ?_
  rw [own, archived.inactive] at active
  cases active

end Performed

/-! ### The archive lasts -/

/-- `DeleteDAG` has returned without an error. -/
def Returned (dag : DagID) (p : State) : Prop := (Request.deleteDAG dag, (⟨.evictDAG dag, ()⟩ : Issued statements)) ∈ p.history

/-- A scan has found the DAG not archived and may still register it. -/
def View.mayRegister (v : View) (dag : DagID) : Prop := View.scans v.origin = true ∧ v.checked = some dag

/-- The archive flag is not written while a scan may still register the DAG, and the lookup of an
archived DAG is served. -/
def DurableOp (dag : DagID) (p : State) (a : Answer) : Op → Prop
  | .softDeleteDAG other => other = dag → ∀ t v, live p t = some v → ¬ v.mayRegister dag
  | .getDAG other => other = dag → Archived dag p.state.db → a.served = true
  | _ => True

/-- Nobody creates the DAG again, a starting process does not load it once it is archived, and
every statement is one that `DurableOp` allows. -/
def DurableStep (env : Env) (dag : DagID) (p : State) : Step → Prop
  | .step tid a => ∀ o, p.next tid = some o → DurableOp dag p a o
  | .start (.createDAG yaml) => ∀ d, env.parse yaml = some d → d.dagID ≠ dag
  | .start _ => True
  | .restart a => Archived dag p.state.db → (p.state.crash a).cached dag = none

/-- The invariant: while the DAG is archived, nobody can register it. -/
structure Durable (env : Env) (dag : DagID) (p : State) : Prop where
  uncreated : ∀ t v yaml d, live p t = some v → v.origin = .createDAG yaml → env.parse yaml = some d → d.dagID ≠ dag
  unchecked : Archived dag p.state.db → ∀ t v, live p t = some v → ¬ v.mayRegister dag
  archiving : ∀ t v, live p t = some v → v.origin = .deleteDAG dag → v.last = some ⟨.softDeleteDAG dag, .ok ()⟩ →
    Archived dag p.state.db
  returned : Returned dag p → Archived dag p.state.db ∧ p.state.cached dag = none

section Durable

variable {env : Env} {dag : DagID} {p : State} {w w' : World} {tid : Nat} {a : Answer} {v : View} {o : Op} {reply : o.Reply}
  {spawned : List Request}

theorem View.after_last (v : View) (o : Op) (reply : o.Reply) : (v.after o reply).last = some ⟨o, reply⟩ := rfl

/-- What a goroutine registers, a scan has looked up. -/
theorem Durable.registers (kept : Durable env dag p) (issuer : live p tid = some v) {d : DAG} (registers : v.Registers env d)
    (own : d.dagID = dag) : v.mayRegister dag := by
  obtain ⟨_, ⟨yaml, origin, parsed⟩ | ⟨scans, checked⟩⟩ := registers
  · exact absurd own (kept.uncreated tid v yaml d issuer origin parsed)
  · exact ⟨scans, checked.trans (congrArg some own)⟩

/-- Only a lookup that does not show the archive flag lets a scan register the DAG. -/
theorem View.mayRegister_after (may : (v.after o reply).mayRegister dag) :
    v.mayRegister dag ∨ (o = .getDAG dag ∧ ∀ row, (⟨o, reply⟩ : Issued statements) = ⟨.getDAG dag, .ok row⟩ → row.deleted = false) := by
  obtain ⟨scans, checked⟩ := may
  rw [View.after_origin] at scans
  cases o with
  | getDAG other =>
    cases reply with
    | error e =>
      cases checked
      exact .inr ⟨rfl, nofun⟩
    | ok row =>
      simp only [View.after, View.learns] at checked
      split at checked
      · cases checked
      · rename_i shown
        cases checked
        refine .inr ⟨rfl, fun row' same => ?_⟩
        cases same
        simpa using shown
  | publishDAG => cases checked
  | _ => exact .inl ⟨scans, checked⟩

/-- The lookup of an archived DAG shows the flag. -/
theorem Archived.shown (archived : Archived dag w.db) {reply : Except StoreError StoredDAG} (served : a.served = true)
    (performed : World.perform tid (.getDAG dag) a w = some (reply, w', spawned)) : ∃ row, reply = .ok row ∧ row.deleted = true := by
  obtain ⟨row, stored, deleted⟩ := archived.getDAG
  have read := World.read_served (w := w) (x := w.db.getDAG dag) served
  rw [World.perform, read, stored] at performed
  cases performed
  exact ⟨row, rfl, deleted⟩

theorem World.cached_evict (w : World) (dag other : DagID) :
    ({ w with cache := w.cache.evict dag } : World).cached other = if other = dag then none else w.cached other := by
  simp only [World.cached, Cache.evict, List.find?_filter]
  split
  · rename_i same
    simp [same]
  · rename_i apart
    congr 1
    funext c
    by_cases own : c.id = other
    · simp [own, apart]
    · simp [own]

theorem World.cached_publish (w : World) (c : CachedDAG) (dag : DagID) :
    ({ w with cache := w.cache.publish c } : World).cached dag = if dag = c.id then some c else w.cached dag := by
  have rest := World.cached_evict w c.id dag
  simp only [World.cached] at rest ⊢
  rw [Cache.publish, List.find?_append, rest]
  split
  · rename_i same
    simp [same]
  · rename_i apart
    have other : ¬ c.id = dag := fun same => apart same.symm
    simp [other]

/-- A cache without the DAG stays so unless the DAG is published. -/
theorem World.perform_uncached (uncached : w.cached dag = none) (performed : World.perform tid o a w = some (reply, w', spawned))
    (unpublished : ∀ d schedule, o = .publishDAG d schedule → d.dagID ≠ dag) : w'.cached dag = none := by
  cases o with
  | publishDAG d schedule =>
    cases performed
    rw [World.cached_publish, if_neg fun same => unpublished d schedule rfl same.symm]
    exact uncached
  | evictDAG other =>
    cases performed
    rw [World.cached_evict, uncached, ite_self]
  | pauseCached other paused =>
    simp only [World.perform] at performed
    split at performed
    · rename_i c found
      cases performed
      have own : c.id = other := by simpa using List.find?_some found
      rw [World.cached_publish, if_neg]
      · exact uncached
      · intro same
        cases found.symm.trans ((same.trans own) ▸ uncached)
    · cases performed
      exact uncached
  | _ =>
    have same : w'.cache = w.cache := (World.perform_some performed).1 rfl
    rw [World.cached, same]
    exact uncached

theorem Durable.step {move : Step} (kept : Durable env dag p) (allowed : DurableStep env dag p move)
    (stepped : Stepped env p move ((scheduler env).step p move)) : Durable env dag ((scheduler env).step p move) := by
  generalize (scheduler env).step p move = q at stepped ⊢
  cases stepped with
  | idle => exact kept
  | @starts _ request admitted state threads history =>
    refine ⟨fun t v yaml d found origin parsed => ?_, fun archived t v found may => ?_, fun t v found origin last => ?_,
      fun returned => ?_⟩
    · rcases threads t v found with old | ⟨_, rfl⟩
      · exact kept.uncreated t v yaml d old origin parsed
      · cases origin
        exact allowed d parsed
    · rcases threads t v found with old | ⟨_, rfl⟩
      · exact kept.unchecked (state ▸ archived) t v old may
      · cases may.2
    · rcases threads t v found with old | ⟨_, rfl⟩
      · exact state ▸ kept.archiving t v old origin last
      · cases last
    · rw [Returned, history] at returned
      exact state ▸ kept.returned returned
  | restarts state threads history =>
    refine ⟨fun t v yaml d found origin parsed => ?_, fun archived t v found may => ?_, fun t v found origin last => ?_,
      fun returned => ?_⟩
    · cases (threads t v found).2
      cases origin
    · cases (threads t v found).2
      cases may.2
    · cases (threads t v found).2
      cases last
    · rw [Returned, history] at returned
      have archived := (kept.returned returned).1
      rw [state]
      exact ⟨archived, allowed archived⟩
  | @performs _ tid a v o reply spawned next issuer permitted honest performed threads history =>
    replace allowed := allowed o next
    -- an archived DAG stays archived, since nobody can register it
    have stays (archived : Archived dag p.state.db) : Archived dag q.state.db := by
      refine archived.performs performed fun d same own => ?_
      subst same
      exact kept.unchecked archived tid v issuer (kept.registers issuer permitted own)
    refine ⟨fun t u yaml d found origin parsed => ?_, fun archived t u found may => ?_, fun t u found origin last => ?_,
      fun returned => ?_⟩
    · rcases threads t u found with ⟨rfl, rfl⟩ | ⟨_, old⟩ | ⟨_, task, epoch, _, _, rfl⟩
      · rw [View.after_origin] at origin
        exact kept.uncreated t v yaml d issuer origin parsed
      · exact kept.uncreated t u yaml d old origin parsed
      · cases origin
    · -- nobody may register the DAG when the flag is written
      have before : ∀ t v, live p t = some v → ¬ v.mayRegister dag := by
        rcases archived.performed performed with old | rfl
        · exact kept.unchecked old
        · exact allowed rfl
      rcases threads t u found with ⟨rfl, rfl⟩ | ⟨_, old⟩ | ⟨_, task, epoch, _, _, rfl⟩
      · rcases View.mayRegister_after may with earlier | ⟨rfl, unflagged⟩
        · exact before t v issuer earlier
        · rcases archived.performed performed with old | same
          · obtain ⟨row, rfl, deleted⟩ := old.shown (allowed rfl old) performed
            cases deleted.symm.trans (unflagged row rfl)
          · cases same
      · exact before t u old may
      · cases may.2
    · rcases threads t u found with ⟨rfl, rfl⟩ | ⟨_, old⟩ | ⟨_, task, epoch, _, _, rfl⟩
      · cases last
        rcases archived_perform_softDeleteDAG performed with ⟨_, archived⟩ | ⟨⟨_, refused⟩, _⟩
        · exact archived
        · cases refused
      · exact stays (kept.archiving t u old origin last)
      · cases last
    · rw [Returned, history, List.mem_append, List.mem_singleton] at returned
      rcases returned with old | now
      · obtain ⟨archived, uncached⟩ := kept.returned old
        refine ⟨stays archived, World.perform_uncached uncached performed fun d schedule same own => ?_⟩
        subst same
        exact kept.unchecked archived tid v issuer (kept.registers issuer permitted.1 own)
      · obtain ⟨_, same⟩ := Prod.mk.inj now
        cases same
        refine ⟨stays (kept.archiving tid v issuer permitted.1 permitted.2), ?_⟩
        have evicted : q.state = { p.state with cache := p.state.cache.evict dag } := by
          simp only [World.perform, Option.some.injEq, Prod.mk.injEq] at performed
          exact performed.2.1.symm
        rw [evicted, World.cached_evict, if_pos rfl]

/-- What was issued stays in the history. -/
theorem Stepped.mem_history {move : Step} {q : State} (stepped : Stepped env p move q) {issued : Request × Issued statements}
    (member : issued ∈ p.history) : issued ∈ q.history := by
  cases stepped with
  | idle => exact member
  | starts admitted state threads history => exact history ▸ member
  | restarts state threads history => exact history ▸ member
  | performs next issuer permitted honest performed threads history =>
    rw [history]
    exact List.mem_append_left _ member

theorem NoneSince.step {before : DB} {move : Step} {q : State} (none : NoneSince dag before p.state.db)
    (archived : Archived dag p.state.db) (stepped : Stepped env p move q) : NoneSince dag before q.state.db := by
  cases stepped with
  | idle => exact none
  | starts admitted state threads history => exact state ▸ none
  | restarts state threads history =>
    rw [state]
    exact none
  | performs next issuer permitted honest performed threads history =>
    intro id row found own
    obtain ⟨old, stored, was⟩ := archived.creates performed id row found own
    exact none id old stored was

/-- The DAG is deleted, and no run of it was created since the given database. -/
structure Gone (env : Env) (dag : DagID) (before : DB) (p : State) : Prop where
  durable : Durable env dag p
  returned : Returned dag p
  none : NoneSince dag before p.state.db

theorem Gone.later {before : DB} {q r : State} (gone : Gone env dag before q)
    (reaches : (scheduler env).Reaches (DurableStep env dag) q r) (traced : (scheduler env).Traced Op.honest q) :
    Gone env dag before r :=
  Reaches.keeps reaches traced gone fun _ _ kept allowed stepped =>
    ⟨kept.durable.step allowed stepped, stepped.mem_history kept.returned,
      kept.none.step (kept.durable.returned kept.returned).1 stepped⟩

end Durable

/-- Once `DeleteDAG` has returned, the DAG is archived and absent from the cache for good, and no
run of it is created. -/
theorem deleted_dag_stays_deleted (env : Env) (dag : DagID) (w : World) {q r : State}
    (reaches : (scheduler env).Reaches (DurableStep env dag) (idle w) q) (returned : Returned dag q)
    (later : (scheduler env).Reaches (DurableStep env dag) q r) :
    Archived dag r.state.db ∧ r.state.cached dag = none ∧ NoneSince dag q.state.db r.state.db := by
  have start : Durable env dag (idle w) := by
    refine ⟨fun _ _ _ _ found => (idle_empty found).elim, fun _ _ _ found => (idle_empty found).elim,
      fun _ _ found => (idle_empty found).elim, fun returned => ?_⟩
    cases returned
  have kept : Durable env dag q :=
    Reaches.keeps reaches (idle_traced w) start fun p move kept allowed stepped => kept.step allowed stepped
  have traced : (scheduler env).Traced Op.honest q :=
    reaches.traced (fun _ _ _ _ _ _ _ performed => World.perform_honest performed) (idle_traced w)
  have gone : Gone env dag q.state.db q := ⟨kept, returned, fun id row found own => ⟨row, found, own⟩⟩
  have after := gone.later later traced
  obtain ⟨archived, uncached⟩ := after.durable.returned after.returned
  exact ⟨archived, uncached, after.none⟩

section DurableRuns

/-- The workflow is stored and cached. -/
def archiveWorld : World where
  db := { DB.empty with dags := [{ dagID := "etl", definitionYAML := "load" }] }
  cache := ⟨[⟨serialLoad, none⟩], serialLoad_distinct⟩

/-- A scan of its file to the end, then its deletion. -/
def scanThenDelete : List Step :=
  .start (.loadDAGs ["load"]) :: List.replicate 6 (.step 0 {}) ++ .start (.deleteDAG "etl") :: List.replicate 3 (.step 1 {})

/-- A later scan of the file. -/
def scanAgain : List Step := [.start (.loadDAGs ["load"]), .step 2 {}]

def deletedState : State := (scheduler loadEnv).run (idle archiveWorld) scanThenDelete

/-- The scan after the deletion leaves the workflow archived. -/
theorem scanned_dag_stays_deleted : Archived "etl" ((scheduler loadEnv).run deletedState scanAgain).state.db ∧
    ((scheduler loadEnv).run deletedState scanAgain).state.cached "etl" = none ∧
    NoneSince "etl" deletedState.state.db ((scheduler loadEnv).run deletedState scanAgain).state.db := by
  have first : (scheduler loadEnv).Follows (DurableStep loadEnv "etl") (idle archiveWorld) scanThenDelete := by
    refine ⟨trivial, ?_⟩
    -- the scan: the lookup is served
    iterate 6
      refine ⟨?_, ?_⟩
      · rintro o ⟨⟩
        first
          | trivial
          | exact fun _ _ => rfl
    refine ⟨trivial, ?_⟩
    refine ⟨by rintro o ⟨⟩; trivial, ?_⟩
    -- the archive write: the scan has ended
    refine ⟨?_, ?_⟩
    · rintro o ⟨⟩ _ t v found may
      match t with
      | 0 => cases found
      | 1 =>
        cases found
        cases may.1
      | t + 2 => cases found
    refine ⟨by rintro o ⟨⟩; trivial, trivial⟩
  have second : (scheduler loadEnv).Follows (DurableStep loadEnv "etl") deletedState scanAgain := by
    refine ⟨trivial, ?_, trivial⟩
    rintro o ⟨⟩
    exact fun _ _ => rfl
  exact deleted_dag_stays_deleted loadEnv "etl" archiveWorld (first.reaches (.refl _)) (List.mem_of_getElem? (i := 8) rfl)
    (second.reaches (.refl _))

/-- Deletions and scans only, with a store that serves every statement. -/
def ScansAndDeletions (_ : State) : Step → Prop
  | .step _ a => a.served = true
  | .start (.deleteDAG _) | .start (.loadDAGs _) | .start (.reloadDAGs _) => True
  | .start _ => False
  | .restart _ => False

/-- The scan has looked the workflow up, `DeleteDAG` runs, and the scan registers the file. -/
def deleteDuringScan : List Step :=
  [.start (.loadDAGs ["load"]), .start (.deleteDAG "etl"), .step 0 {}] ++ List.replicate 3 (.step 1 {}) ++
    List.replicate 5 (.step 0 {})

/-- A scan that is under way undoes the deletion. -/
theorem scan_revives_deleted_dag : ¬ ∀ (env : Env) (dag : DagID) (w : World) (q : State),
    (scheduler env).Reaches ScansAndDeletions (idle w) q → Returned dag q → (∀ t, live q t = none) →
      Archived dag q.state.db ∧ q.state.cached dag = none := by
  intro claim
  have follows : (scheduler loadEnv).Follows ScansAndDeletions (idle archiveWorld) deleteDuringScan := by
    refine ⟨trivial, trivial, ?_⟩
    iterate 9 refine ⟨rfl, ?_⟩
    trivial
  have ended (t : Nat) : live ((scheduler loadEnv).run (idle archiveWorld) deleteDuringScan) t = none := by
    match t with
    | 0 | 1 | _ + 2 => rfl
  obtain ⟨archived, _⟩ := claim loadEnv "etl" archiveWorld _ (follows.reaches (.refl _)) (List.mem_of_getElem? (i := 3) rfl) ended
  cases archived.inactive

end DurableRuns

/-! ### The archive leaves no run behind -/

/-- No run of the DAG is queued or running. -/
def Quiescent (dag : DagID) (db : DB) : Prop := ∀ id row, db.run? id = some row → row.dagID = dag → row.state.isActive = false

/-- `DeleteDAG` has counted no active run and goes on to the archive write. -/
def View.counted (v : View) (dag : DagID) : Prop :=
  v.origin = .deleteDAG dag ∧ ∃ n ≤ 0, v.last = some ⟨.countActiveRuns dag, .ok n⟩

/-- `DeleteDAG` has archived the DAG, and it was not registered again. -/
def Deleted (dag : DagID) (p : State) : Prop :=
  ∃ before after, p.history = before ++ (Request.deleteDAG dag, ⟨.softDeleteDAG dag, .ok ()⟩) :: after ∧
    ∀ origin d reply, (origin, (⟨.upsertDAG d, reply⟩ : Issued statements)) ∈ after → d.dagID ≠ dag

/-- No run of the DAG is created while `DeleteDAG` stands between its count and its write, and none
that has ended is made running then or while the DAG is archived. -/
def QuietOp (dag : DagID) (p : State) : Op → Prop
  | .createDagRunBounded run _ | .createManualDagRunBounded run _ _ => run.dagID = dag → ∀ t v, live p t = some v → ¬ v.counted dag
  | .updateDagRunState id .running _ _ => ∀ row, p.state.db.run? id = some row → row.dagID = dag → row.state.isActive = false →
    ¬ Archived dag p.state.db ∧ ∀ t v, live p t = some v → ¬ v.counted dag
  | _ => True

def QuietStep (dag : DagID) (p : State) : Step → Prop
  | .step tid _ => ∀ o, p.next tid = some o → QuietOp dag p o
  | _ => True

/-- The invariant: from the count on, the DAG has no active run. -/
structure Undisturbed (dag : DagID) (p : State) : Prop where
  counted : ∀ t v, live p t = some v → v.counted dag → Quiescent dag p.state.db
  deleted : Deleted dag p → Archived dag p.state.db ∧ Quiescent dag p.state.db

section Undisturbed

variable {env : Env} {dag : DagID} {p : State} {w w' : World} {tid : Nat} {a : Answer} {v : View} {o : Op} {reply : o.Reply}
  {spawned : List Request} {db : DB}

theorem quiescent_of_count {n : Int} (none : n ≤ 0) (count : n = db.countActiveRuns dag) : Quiescent dag db := by
  intro id row found own
  have zero : db.runs.rows.countP (fun r => r.dagID == dag && r.state.isActive) = 0 := by
    rw [count, DB.countActiveRuns] at none
    omega
  have idle := List.countP_eq_zero.mp zero row (DB.run?_some found).1
  simpa [own] using idle

/-- Besides a creation, only the write of `running` makes a run active. -/
theorem Quiescent.performs (quiet : Quiescent dag w.db) (performed : World.perform tid o a w = some (reply, w', spawned))
    (uncreated : NoneSince dag w.db w'.db)
    (unmoved : ∀ id started finished row, o = .updateDagRunState id .running started finished → w.db.run? id = some row →
      row.dagID = dag → row.state.isActive = false → False) : Quiescent dag w'.db := by
  intro id row' found own
  obtain ⟨old, stored, was⟩ := uncreated id row' found own
  rcases World.perform_run? performed id with same | changed
  · exact quiet id row' (same ▸ found) own
  · cases o with
    | createDagRunBounded | createManualDagRunBounded =>
      obtain ⟨_, free, _⟩ := changed
      cases stored.symm.trans free
    | updateDagRunState run state started finished =>
      obtain ⟨rfl, row, stored, legal, now⟩ := changed
      cases found.symm.trans now
      cases state with
      | running => exact (unmoved run started finished row rfl stored own (quiet run row stored own)).elim
      | queued => simp [legalPriorRunStates] at legal
      | _ => rfl
    | updateDagRunSuccess run started finished =>
      obtain ⟨_, row, _, now⟩ := changed
      cases found.symm.trans now
      rfl
    | updateDagRunDefinition run yaml hash =>
      obtain ⟨_, row, stored, now⟩ := changed
      cases found.symm.trans now
      exact quiet id row stored own
    | _ => exact changed.elim

/-- The last statement of the history decides: the archive write, or no registration since it. -/
theorem Deleted.append {q : State} {issued : Request × Issued statements} (history : q.history = p.history ++ [issued])
    (deleted : Deleted dag q) : issued = (.deleteDAG dag, ⟨.softDeleteDAG dag, .ok ()⟩) ∨
      (Deleted dag p ∧ ∀ origin d reply, issued = (origin, (⟨.upsertDAG d, reply⟩ : Issued statements)) → d.dagID ≠ dag) := by
  obtain ⟨before, after, split, unregistered⟩ := deleted
  rw [history] at split
  rcases List.eq_nil_or_concat after with rfl | ⟨earlier, last, rfl⟩
  · exact .inl (List.append_inj_right' split rfl |> List.singleton_inj.mp)
  · right
    rw [List.concat_eq_append, ← List.cons_append, ← List.append_assoc] at split
    have front := List.append_inj_left' split rfl
    have same : issued = last := List.singleton_inj.mp (List.append_inj_right' split rfl)
    refine ⟨⟨before, earlier, front, fun origin d reply member => ?_⟩, fun origin d reply is => ?_⟩
    · exact unregistered origin d reply (by simp [member])
    · exact unregistered origin d reply (by simp [← same, is])

/-- From the count on, and while the DAG is archived, no run of it becomes active. -/
theorem Quiescent.step (quiet : Quiescent dag p.state.db) (allowed : QuietOp dag p o)
    (performed : World.perform tid o a p.state = some (reply, w', spawned))
    (deleting : (∃ t v, live p t = some v ∧ v.counted dag) ∨ Archived dag p.state.db) : Quiescent dag w'.db := by
  refine quiet.performs performed ?_ fun id started finished row same stored own ended => ?_
  · rcases deleting with ⟨t, v, alive, counted⟩ | archived
    · refine NoneSince.of_perform performed fun row creates _ own => ?_
      cases o with
      | createDagRunBounded run global => exact allowed ((congrArg _ creates).trans own) t v alive counted
      | createManualDagRunBounded run perDAG global => exact allowed ((congrArg _ creates).trans own) t v alive counted
      | _ => exact creates
    · exact archived.creates performed
  · subst same
    obtain ⟨unarchived, nobody⟩ := allowed row stored own ended
    rcases deleting with ⟨t, v, alive, counted⟩ | archived
    · exact nobody t v alive counted
    · exact unarchived archived

theorem Undisturbed.step {move : Step} (kept : Undisturbed dag p) (allowed : QuietStep dag p move)
    (stepped : Stepped env p move ((scheduler env).step p move)) : Undisturbed dag ((scheduler env).step p move) := by
  generalize (scheduler env).step p move = q at stepped ⊢
  cases stepped with
  | idle => exact kept
  | starts admitted state threads history =>
    refine ⟨fun t v found counted => ?_, fun deleted => ?_⟩
    · rcases threads t v found with old | ⟨_, rfl⟩
      · exact state ▸ kept.counted t v old counted
      · obtain ⟨_, _, _, last⟩ := counted
        cases last
    · rw [Deleted, history] at deleted
      exact state ▸ kept.deleted deleted
  | restarts state threads history =>
    refine ⟨fun t v found counted => ?_, fun deleted => ?_⟩
    · cases (threads t v found).2
      cases counted.1
    · rw [Deleted, history] at deleted
      rw [state]
      exact kept.deleted deleted
  | @performs _ tid a v o reply spawned next issuer permitted honest performed threads history =>
    replace allowed := allowed o next
    refine ⟨fun t u found counted => ?_, fun deleted => ?_⟩
    · rcases threads t u found with ⟨rfl, rfl⟩ | ⟨_, old⟩ | ⟨_, task, epoch, _, _, rfl⟩
      · obtain ⟨_, n, none, last⟩ := counted
        cases last
        obtain ⟨same, _, answered | refused⟩ := World.read_some performed
        · rw [same]
          exact quiescent_of_count none (Except.ok.inj answered)
        · cases refused
      · exact (kept.counted t u old counted).step allowed performed (.inl ⟨t, u, old, counted⟩)
      · cases counted.1
    · rcases deleted.append history with now | ⟨before, unregistered⟩
      · obtain ⟨_, same⟩ := Prod.mk.inj now
        cases same
        rcases archived_perform_softDeleteDAG performed with ⟨_, archived⟩ | ⟨⟨_, refused⟩, _⟩
        · have counted : v.counted dag := permitted
          exact ⟨archived, (kept.counted tid v issuer counted).step allowed performed (.inl ⟨tid, v, issuer, counted⟩)⟩
        · cases refused
      · obtain ⟨archived, quiet⟩ := kept.deleted before
        refine ⟨archived.performs performed fun d same => ?_, quiet.step allowed performed (.inr archived)⟩
        subst same
        exact unregistered v.origin d reply rfl

end Undisturbed

section QuietRuns

/-- `DeleteDAG` has counted, a run is triggered, and `DeleteDAG` goes on. -/
def triggerAfterCount : List Step :=
  [.start (.deleteDAG "etl"), .start (.triggerManual "etl" [] 0), .step 0 {}] ++ List.replicate 3 (.step 1 {}) ++
    List.replicate 2 (.step 0 {})

end QuietRuns

end Cronova.Scheduler
