import Cronova.Scheduler.Archive

/-! The `paused` flag in the cache and in the store.

`SetPaused` writes the store and swaps the cache entry in a second statement; a registration
reads the stored flag and publishes in one. What is cached is what is stored whenever no
`SetPaused` is on its way from the one to the other, if the swaps do not overtake each other.
-/

set_option autoImplicit false

namespace Cronova.Scheduler

open Model Store Process

/-! ### The stored flag -/

section Flag

variable {db after : DB} {dag : DagID} {row : StoredDAG}

theorem getDAG_of_dags (same : after.dags = db.dags) : after.getDAG dag = db.getDAG dag := by rw [DB.getDAG, DB.getDAG, same]

theorem getDAG_own (found : db.getDAG dag = .ok row) : row ∈ db.dags ∧ row.dagID = dag := by
  unfold DB.getDAG at found
  cases first : db.dags.find? (·.dagID == dag) with
  | none =>
    rw [first] at found
    cases found
  | some x =>
    rw [first] at found
    cases found
    exact ⟨List.mem_of_find?_eq_some first, by simpa using List.find?_some first⟩

theorem getDAG_updateDAG {other : DagID} {guard : StoredDAG → Bool} {f : StoredDAG → StoredDAG}
    (same : ∀ row, (f row).dagID = row.dagID) : (db.updateDAG other guard f).getDAG dag =
      (db.getDAG dag).map fun row => if row.dagID == other && guard row then f row else row := by
  have keeps : ((fun row : StoredDAG => row.dagID == dag) ∘ fun row => if row.dagID == other && guard row then f row else row) =
      fun row => row.dagID == dag := by
    funext row
    simp only [Function.comp_apply]
    split
    · rw [same]
    · rfl
  simp only [DB.getDAG, DB.updateDAG, List.find?_map, keeps]
  cases db.dags.find? (·.dagID == dag) <;> rfl

/-- A registration keeps the flag of a stored DAG. -/
theorem getDAG_upsertDAG (d : DAG) (found : db.getDAG dag = .ok row) :
    ∃ row', (db.upsertDAG d).getDAG dag = .ok row' ∧ row'.paused = row.paused := by
  unfold DB.upsertDAG
  split
  · rw [getDAG_updateDAG, found]
    · refine ⟨_, rfl, ?_⟩
      dsimp only
      split <;> rfl
    · exact fun _ => rfl
  · have first : db.dags.find? (·.dagID == dag) = some row := by
      unfold DB.getDAG at found
      cases lookup : db.dags.find? (·.dagID == dag) with
      | none =>
        rw [lookup] at found
        cases found
      | some x =>
        rw [lookup] at found
        cases found
        rfl
    exact ⟨row, by simp [DB.getDAG, first], rfl⟩

/-- A registered DAG is stored. -/
theorem getDAG_registered (db : DB) (d : DAG) : ∃ row, (db.upsertDAG d).getDAG d.dagID = .ok row := by
  unfold DB.upsertDAG
  split
  · rename_i known
    rw [getDAG_updateDAG]
    · cases lookup : db.dags.find? (·.dagID == d.dagID) with
      | none =>
        obtain ⟨row, stored, own⟩ := List.any_eq_true.mp known
        exact absurd own (List.find?_eq_none.mp lookup row stored)
      | some x =>
        rw [DB.getDAG, lookup]
        exact ⟨_, rfl⟩
    · exact fun _ => rfl
  · simp [DB.getDAG]

theorem getDAG_softDeleteDAG {other : DagID} (written : db.softDeleteDAG other = .ok after) (found : db.getDAG dag = .ok row) :
    ∃ row', after.getDAG dag = .ok row' ∧ row'.paused = row.paused := by
  unfold DB.softDeleteDAG at written
  split at written
  · cases written
    rw [getDAG_updateDAG, found]
    · refine ⟨_, rfl, ?_⟩
      dsimp only
      split <;> rfl
    · exact fun _ => rfl
  · cases written

theorem getDAG_setDAGPaused {other : DagID} {paused : Bool} (written : db.setDAGPaused other paused = .ok after)
    (found : db.getDAG dag = .ok row) :
    ∃ row', after.getDAG dag = .ok row' ∧ row'.paused = if other = dag then paused else row.paused := by
  have own := (getDAG_own found).2
  unfold DB.setDAGPaused at written
  split at written
  · cases written
    rw [getDAG_updateDAG, found]
    · refine ⟨_, rfl, ?_⟩
      by_cases same : other = dag
      · simp [same, own]
      · have apart : ¬ dag = other := fun eq => same eq.symm
        simp [same, own, apart]
    · exact fun _ => rfl
  · cases written

end Flag

section Performed

variable {tid : Nat} {o : Op} {a : Answer} {w w' : World} {reply : o.Reply} {spawned : List Request} {dag : DagID}

/-- A stored DAG stays stored, and only `SetDAGPaused` changes its flag. -/
theorem World.perform_paused (performed : World.perform tid o a w = some (reply, w', spawned)) {row : StoredDAG}
    (found : w.db.getDAG dag = .ok row) :
    ∃ row', w'.db.getDAG dag = .ok row' ∧ (row'.paused = row.paused ∨
      ∃ paused, (⟨o, reply⟩ : Issued statements) = ⟨.setDAGPaused dag paused, .ok ()⟩) := by
  cases o with
  | upsertDAG d =>
    rcases (World.perform_some performed).2.2.2 with same | written
    · exact ⟨row, same ▸ found, .inl rfl⟩
    · rw [← Option.some.inj written]
      obtain ⟨row', found', same⟩ := getDAG_upsertDAG d found
      exact ⟨row', found', .inl same⟩
  | softDeleteDAG other =>
    obtain ⟨_, ⟨db, written, _, rfl⟩ | ⟨_, rfl⟩⟩ := World.write_some performed
    · obtain ⟨row', found', same⟩ := getDAG_softDeleteDAG written found
      exact ⟨row', found', .inl same⟩
    · exact ⟨row, found, .inl rfl⟩
  | setDAGPaused other paused =>
    obtain ⟨_, ⟨db, written, rfl, rfl⟩ | ⟨_, rfl⟩⟩ := World.write_some performed
    · obtain ⟨row', found', flag⟩ := getDAG_setDAGPaused written found
      refine ⟨row', found', ?_⟩
      split at flag
      · rename_i same
        subst same
        exact .inr ⟨paused, rfl⟩
      · exact .inl flag
    · exact ⟨row, found, .inl rfl⟩
  | _ => exact ⟨row, (getDAG_of_dags (World.perform_dags performed rfl)).trans found, .inl rfl⟩

end Performed

/-! ### The flag in the cache -/

/-- The cached flag of the DAG is the stored one. -/
def Coherent (dag : DagID) (w : World) : Prop :=
  ∀ c, w.cached dag = some c → ∃ row, w.db.getDAG dag = .ok row ∧ c.dag.paused = row.paused

/-- The goroutine has written the flag into the store and has yet to swap the cache entry. -/
def Swaps (dag : DagID) (p : State) (tid : Nat) : Prop :=
  ∃ paused, p.threads[tid]? = some ⟨.setPaused dag paused, [⟨.setDAGPaused dag paused, .ok ()⟩], perform (.pauseCached dag paused)⟩

/-- A swap of the cache entry comes while its own write is the stored flag or before the swap of
another `SetPaused`; the flag that a registration reads back is served. -/
def CoherentOp (dag : DagID) (p : State) (tid : Nat) (a : Answer) : Op → Prop
  | .pauseCached other paused => other = dag →
    (∃ row, p.state.db.getDAG dag = .ok row ∧ row.paused = paused) ∨ ∃ t, t ≠ tid ∧ Swaps dag p t
  | .publishDAG d _ => d.dagID = dag → a.served = true
  | _ => True

/-- A starting process loads stored flags, and every statement is one that `CoherentOp` allows. -/
def CoherentStep (dag : DagID) (p : State) : Step → Prop
  | .step tid a => ∀ o, p.next tid = some o → CoherentOp dag p tid a o
  | .start _ => True
  | .restart a => Coherent dag (p.state.crash a)

/-- The invariant: a cached flag that is not the stored one is about to be swapped. -/
structure Toggled (env : Env) (dag : DagID) (p : State) : Prop where
  traced : (scheduler env).Traced Op.honest p
  stored : ∀ t v, live p t = some v → v.upserted = some dag → ∃ row, p.state.db.getDAG dag = .ok row
  cached : ∀ c, p.state.cached dag = some c →
    ∃ row, p.state.db.getDAG dag = .ok row ∧ (c.dag.paused = row.paused ∨ ∃ t, Swaps dag p t)

section Toggled

variable {env : Env} {dag : DagID} {p q : State} {w w' : World} {tid : Nat} {a : Answer} {v : View} {o : Op} {reply : o.Reply}
  {spawned : List Request}

/-- `SetPaused` after its write. -/
def swap (dag : DagID) (paused : Bool) : Except StoreError Unit → Act Unit
  | .ok _ => perform (.pauseCached dag paused)
  | .error e => .fail (.store e)

theorem setPaused_eq (dag : DagID) (paused : Bool) :
    setPaused dag paused = Prog.call (I := statements) (.setDAGPaused dag paused) (swap dag paused) := by
  refine congrArg (Prog.call (I := statements) (.setDAGPaused dag paused)) (funext fun reply => ?_)
  cases reply <;> rfl

/-- What `SetPaused` has become: it has not started, it is about to swap, or it has ended. -/
theorem setPaused_after {paused : Bool} {log : List (Issued statements)} {rest : Act Unit}
    (after : Prog.After (setPaused dag paused) log rest) :
    (log = [] ∧ rest = setPaused dag paused) ∨
      (log = [⟨.setDAGPaused dag paused, .ok ()⟩] ∧ rest = perform (.pauseCached dag paused)) ∨ ∀ o k, rest ≠ .call o k := by
  induction after with
  | start => exact .inl ⟨rfl, rfl⟩
  | @issue log o k r before ih =>
    rcases ih with ⟨rfl, same⟩ | ⟨_, same⟩ | ended
    · rw [setPaused_eq] at same
      cases same
      cases r with
      | ok _ => exact .inr (.inl ⟨rfl, rfl⟩)
      | error e =>
        right; right
        intro o k same
        simp only [swap] at same
        cases same
    · cases same
      right; right
      intro o k same
      cases same
    · exact absurd rfl (ended o k)

/-- A goroutine that is about to swap does so next. -/
theorem Swaps.next (swaps : Swaps dag p tid) : ∃ paused, p.next tid = some (.pauseCached dag paused) := by
  obtain ⟨paused, lookup⟩ := swaps
  exact ⟨paused, Pool.next_eq lookup⟩

theorem Swaps.live (swaps : Swaps dag p tid) : ∃ v paused, live p tid = some v ∧ v.origin = .setPaused dag paused := by
  obtain ⟨paused, lookup⟩ := swaps
  exact ⟨_, paused, live_some.mpr ⟨_, lookup, rfl, rfl⟩, rfl⟩

theorem Swaps.other {t : Nat} (swaps : Swaps dag p t) (apart : t ≠ tid) : Swaps dag ((scheduler env).step p (.step tid a)) t := by
  obtain ⟨paused, lookup⟩ := swaps
  exact ⟨paused, System.step_other a apart lookup⟩

/-- The write of the flag leaves its goroutine about to swap. -/
theorem Toggled.writes (kept : Toggled env dag p) {paused : Bool} (next : p.next tid = some (.setDAGPaused dag paused))
    (performed : World.perform tid (.setDAGPaused dag paused) a p.state = some (.ok (), w', spawned)) :
    Swaps dag ((scheduler env).step p (.step tid a)) tid := by
  obtain ⟨v, issuer, permitted⟩ := next_permitted kept.traced next
  obtain ⟨⟨origin, log, rest⟩, lookup, _, rfl⟩ := live_some.mp issuer
  obtain rfl : origin = .setPaused dag paused := (viewOf_origin _).symm.trans permitted
  obtain ⟨k, rfl⟩ : ∃ k, rest = .call (.setDAGPaused dag paused) k := by
    simp only [Pool.next, lookup, Option.bind_some] at next
    split at next
    · cases next
      exact ⟨_, rfl⟩
    · cases next
  have after : Prog.After (setPaused dag paused) log (.call (.setDAGPaused dag paused) k) := (kept.traced tid _ lookup).1
  rcases setPaused_after after with ⟨rfl, same⟩ | ⟨_, same⟩ | ended
  · rw [setPaused_eq] at same
    cases same
    exact ⟨paused, System.step_own lookup performed⟩
  · cases same
  · exact absurd rfl (ended _ k)

/-- A cached flag that a statement leaves alone is the stored one or about to be swapped. -/
theorem Toggled.stays (kept : Toggled env dag p) (next : p.next tid = some o)
    (performed : World.perform tid o a p.state = some (reply, w', spawned)) (unswapped : ∀ paused, o ≠ .pauseCached dag paused)
    {c : CachedDAG} (found : p.state.cached dag = some c) :
    ∃ row, w'.db.getDAG dag = .ok row ∧ (c.dag.paused = row.paused ∨ ∃ t, Swaps dag ((scheduler env).step p (.step tid a)) t) := by
  obtain ⟨row, stored, flag⟩ := kept.cached c found
  obtain ⟨row', stored', same | ⟨paused, writes⟩⟩ := World.perform_paused performed stored
  · refine ⟨row', stored', ?_⟩
    rcases flag with equal | ⟨t, swaps⟩
    · exact .inl (equal.trans same.symm)
    · refine .inr ⟨t, swaps.other ?_⟩
      rintro rfl
      obtain ⟨paused, own⟩ := swaps.next
      exact unswapped paused (Option.some.inj (next.symm.trans own))
  · cases writes
    exact ⟨row', stored', .inr ⟨tid, kept.writes next performed⟩⟩

/-- A registration publishes the stored flag. -/
theorem Toggled.publishes (kept : Toggled env dag p) {d : DAG} {schedule : Option (Calendar.Time → Calendar.Time)}
    (next : p.next tid = some (.publishDAG d schedule)) (allowed : CoherentOp dag p tid a (.publishDAG d schedule))
    (issuer : live p tid = some v) (permitted : Footprint env (.publishDAG d schedule) v)
    (performed : World.perform tid (.publishDAG d schedule) a p.state = some ((), w', spawned)) {c : CachedDAG}
    (found : w'.cached dag = some c) :
    ∃ row, w'.db.getDAG dag = .ok row ∧ (c.dag.paused = row.paused ∨ ∃ t, Swaps dag ((scheduler env).step p (.step tid a)) t) := by
  have stays := kept.stays (c := c) next performed nofun
  cases performed
  rw [World.cached_publish] at found
  by_cases own : dag = d.dagID
  · subst own
    rw [if_pos (by rfl)] at found
    cases found
    obtain ⟨row, stored⟩ := kept.stored tid v issuer permitted.2
    refine ⟨row, stored, .inl ?_⟩
    simp [allowed rfl, stored]
  · rw [if_neg (by exact own)] at found
    exact stays found

/-- The swap of the last `SetPaused` writes the stored flag. -/
theorem Toggled.swaps (kept : Toggled env dag p) {other : DagID} {paused : Bool}
    (next : p.next tid = some (.pauseCached other paused)) (allowed : CoherentOp dag p tid a (.pauseCached other paused))
    (performed : World.perform tid (.pauseCached other paused) a p.state = some ((), w', spawned)) {c : CachedDAG}
    (found : w'.cached dag = some c) :
    ∃ row, w'.db.getDAG dag = .ok row ∧ (c.dag.paused = row.paused ∨ ∃ t, Swaps dag ((scheduler env).step p (.step tid a)) t) := by
  by_cases own : other = dag
  · subst own
    simp only [World.perform] at performed
    split at performed
    · rename_i old cached
      cases performed
      have same : old.id = other := by simpa using List.find?_some cached
      rw [World.cached_publish, if_pos (by exact same.symm)] at found
      cases found
      obtain ⟨row, stored, _⟩ := kept.cached old cached
      rcases allowed rfl with ⟨row', stored', flag⟩ | ⟨t, apart, swaps⟩
      · exact ⟨row', stored', .inl flag.symm⟩
      · exact ⟨row, stored, .inr ⟨t, swaps.other apart⟩⟩
    · rename_i uncached
      cases performed
      cases found.symm.trans uncached
  · have stays := kept.stays (c := c) next performed fun _ same => own (Op.pauseCached.inj same).1
    simp only [World.perform] at performed
    split at performed
    · rename_i old cached
      cases performed
      have same : old.id = other := by simpa using List.find?_some cached
      rw [World.cached_publish, if_neg] at found
      · exact stays found
      · exact fun eq => own (same.symm.trans eq.symm)
    · cases performed
      exact stays found

/-- After a step, a cached flag that is not the stored one is about to be swapped. -/
theorem Toggled.caches (kept : Toggled env dag p) (next : p.next tid = some o) (allowed : CoherentOp dag p tid a o)
    (issuer : live p tid = some v) (permitted : Footprint env o v)
    (performed : World.perform tid o a p.state = some (reply, w', spawned)) {c : CachedDAG} (found : w'.cached dag = some c) :
    ∃ row, w'.db.getDAG dag = .ok row ∧ (c.dag.paused = row.paused ∨ ∃ t, Swaps dag ((scheduler env).step p (.step tid a)) t) := by
  cases o with
  | publishDAG d schedule => exact kept.publishes next allowed issuer permitted performed found
  | pauseCached other paused => exact kept.swaps next allowed performed found
  | evictDAG other =>
    have stays := kept.stays (c := c) next performed (by rintro _ ⟨⟩)
    cases performed
    rw [World.cached_evict] at found
    split at found
    · cases found
    · exact stays found
  | _ =>
    have same : w'.cache = p.state.cache := (World.perform_some performed).1 rfl
    rw [World.cached, same] at found
    exact kept.stays next performed (by rintro _ ⟨⟩) found

theorem Toggled.step {move : Step} (kept : Toggled env dag p) (allowed : CoherentStep dag p move)
    (stepped : Stepped env p move ((scheduler env).step p move)) : Toggled env dag ((scheduler env).step p move) := by
  have traced : (scheduler env).Traced Op.honest ((scheduler env).step p move) :=
    kept.traced.step (fun _ _ _ _ _ _ _ performed => World.perform_honest performed) move
  generalize after : (scheduler env).step p move = q at traced stepped ⊢
  cases stepped with
  | idle => exact kept
  | @starts _ request admitted state threads history =>
    refine ⟨traced, fun t v found upserted => ?_, fun c found => ?_⟩
    · rcases threads t v found with old | ⟨_, rfl⟩
      · exact state ▸ kept.stored t v old upserted
      · cases upserted
    · rw [state] at found ⊢
      obtain ⟨row, stored, flag⟩ := kept.cached c found
      refine ⟨row, stored, flag.imp_right ?_⟩
      rintro ⟨t, paused, lookup⟩
      exact ⟨t, paused, after ▸ System.step_start request lookup⟩
  | restarts state threads history =>
    refine ⟨traced, fun t v found upserted => ?_, fun c found => ?_⟩
    · cases (threads t v found).2
      cases upserted
    · rw [state] at found ⊢
      obtain ⟨row, stored, flag⟩ := allowed c found
      exact ⟨row, stored, .inl flag⟩
  | @performs _ tid a v o reply spawned next issuer permitted honest performed threads history =>
    refine ⟨traced, fun t u found upserted => ?_, fun c found => ?_⟩
    · have old (u : View) (alive : live p t = some u) (upserted : u.upserted = some dag) :
          ∃ row, q.state.db.getDAG dag = .ok row := by
        obtain ⟨row, stored⟩ := kept.stored t u alive upserted
        obtain ⟨row', stored', _⟩ := World.perform_paused performed stored
        exact ⟨row', stored'⟩
      rcases threads t u found with ⟨rfl, rfl⟩ | ⟨_, alive⟩ | ⟨_, task, epoch, _, _, rfl⟩
      · cases o with
        | upsertDAG d =>
          obtain ⟨_, ⟨db, written, rfl, same⟩ | ⟨⟨e, rfl⟩, _⟩⟩ := World.write_some performed
          · cases upserted
            cases written
            rw [same]
            exact getDAG_registered p.state.db d
          · exact old v issuer upserted
        | _ => exact old v issuer upserted
      · exact old u alive upserted
      · cases upserted
    · subst after
      exact kept.caches next (allowed o next) issuer permitted performed found

end Toggled

/-- Whenever no `SetPaused` of the DAG is under way, its cached flag is the stored one. -/
theorem paused_flag_coherent (env : Env) (dag : DagID) (w : World) (coherent : Coherent dag w) {q : State}
    (reaches : (scheduler env).Reaches (CoherentStep dag) (idle w) q)
    (completed : ∀ t v paused, live q t = some v → v.origin ≠ .setPaused dag paused) : Coherent dag q.state := by
  have start : Toggled env dag (idle w) := by
    refine ⟨idle_traced w, fun _ _ found => (idle_empty found).elim, fun c found => ?_⟩
    obtain ⟨row, stored, flag⟩ := coherent c found
    exact ⟨row, stored, .inl flag⟩
  have kept : Toggled env dag q :=
    Reaches.keeps reaches (idle_traced w) start fun p move kept allowed stepped => kept.step allowed stepped
  intro c found
  obtain ⟨row, stored, flag | ⟨t, swaps⟩⟩ := kept.cached c found
  · exact ⟨row, stored, flag⟩
  · obtain ⟨v, paused, alive, origin⟩ := swaps.live
    exact absurd origin (completed t v paused alive)

section Runs

theorem archiveWorld_coherent : Coherent "etl" archiveWorld := by
  rintro c ⟨⟩
  exact ⟨_, rfl, rfl⟩

/-- Two opposite `SetPaused`, with an editor save between their writes and their swaps. -/
def toggles : List Step :=
  [.start (.setPaused "etl" true), .start (.setPaused "etl" false), .start (.createDAG "load")] ++ List.replicate 4 (.step 2 {}) ++
    [.step 0 {}, .step 1 {}, .step 2 {}, .step 0 {}, .step 1 {}]

/-- The swaps follow the order of the writes. -/
theorem ordered_toggles_coherent : Coherent "etl" ((scheduler loadEnv).run (idle archiveWorld) toggles).state := by
  have follows : (scheduler loadEnv).Follows (CoherentStep "etl") (idle archiveWorld) toggles := by
    refine ⟨trivial, trivial, trivial, ?_⟩
    iterate 6 refine ⟨by rintro o ⟨⟩; trivial, ?_⟩
    refine ⟨?_, ?_, ?_, trivial⟩
    · rintro o ⟨⟩ _
      rfl
    · rintro o ⟨⟩ _
      exact .inr ⟨1, by decide, false, rfl⟩
    · rintro o ⟨⟩ _
      exact .inl ⟨_, rfl, rfl⟩
  refine paused_flag_coherent loadEnv "etl" archiveWorld archiveWorld_coherent (follows.reaches (.refl _)) ?_
  intro t v paused found
  match t with
  | 0 | 1 | 2 | _ + 3 => cases found

/-- Toggles, editor saves and scans only, with a store that serves every statement. -/
def TogglesAndSaves (_ : State) : Step → Prop
  | .step _ a => a.served = true
  | .start (.setPaused _ _) | .start (.createDAG _) | .start (.loadDAGs _) | .start (.reloadDAGs _) => True
  | .start _ => False
  | .restart _ => False

/-- Two opposite `SetPaused`; the one that has written first swaps last. -/
def overtakingToggles : List Step :=
  [.start (.setPaused "etl" true), .start (.setPaused "etl" false), .step 0 {}, .step 1 {}, .step 1 {}, .step 0 {}]

/-- The cache holds a paused DAG that the store has as running. -/
theorem overtaking_toggles_not_coherent : ¬ ∀ (env : Env) (dag : DagID) (w : World), Coherent dag w →
    ∀ q, (scheduler env).Reaches TogglesAndSaves (idle w) q → (∀ t, live q t = none) → Coherent dag q.state := by
  intro claim
  have follows : (scheduler loadEnv).Follows TogglesAndSaves (idle archiveWorld) overtakingToggles := by
    refine ⟨trivial, trivial, ?_⟩
    iterate 4 refine ⟨rfl, ?_⟩
    trivial
  have ended (t : Nat) : live ((scheduler loadEnv).run (idle archiveWorld) overtakingToggles) t = none := by
    match t with
    | 0 | 1 | _ + 2 => rfl
  obtain ⟨row, stored, flag⟩ := claim loadEnv "etl" archiveWorld archiveWorld_coherent _ (follows.reaches (.refl _)) ended _ rfl
  cases stored
  cases flag

end Runs

end Cronova.Scheduler
