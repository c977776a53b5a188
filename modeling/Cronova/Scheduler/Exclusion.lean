import Cronova.Scheduler.Conduct.Tick

/-! The goroutines of the process as their views, and what the lock and the loop exclude. -/

set_option autoImplicit false

namespace Cronova.Scheduler

open Model Store Process

/-- The view of a goroutine that has not ended. -/
def live (p : State) (tid : Nat) : Option View :=
  (p.threads[tid]?).bind fun thread => if finished thread then none else some (viewOf thread)

theorem live_some {p : State} {tid : Nat} {v : View} :
    live p tid = some v ↔ ∃ thread, p.threads[tid]? = some thread ∧ finished thread = false ∧ viewOf thread = v := by
  simp [live, Option.bind_eq_some_iff]

theorem View.after_origin (v : View) (o : Op) (reply : o.Reply) : (v.after o reply).origin = v.origin := by
  cases o <;> rfl

theorem view_origin (v : View) (log : List (Issued statements)) : (Prog.view View.after v log).origin = v.origin := by
  induction log generalizing v with
  | nil => rfl
  | cons issued log ih => exact (ih _).trans (v.after_origin issued.1 issued.2)

theorem viewOf_origin (thread : Thread statements Failure Request) : (viewOf thread).origin = thread.origin :=
  view_origin _ thread.log

variable {env : Env}

/-- What one move does to the state and to the views. -/
inductive Stepped (env : Env) (p : State) : Step → State → Prop where
  | idle (move : Step) : Stepped env p move p
  | performs {q : State} {tid : Nat} {a : Answer} {v : View} {o : Op} {reply : o.Reply} {spawned : List Request}
      (next : p.next tid = some o) (issuer : live p tid = some v) (permitted : Footprint env o v) (honest : o.honest reply)
      (performed : World.perform tid o a p.state = some (reply, q.state, spawned))
      (threads : ∀ t u, live q t = some u → (t = tid ∧ u = v.after o reply) ∨ (t ≠ tid ∧ live p t = some u) ∨
        (p.threads.length ≤ t ∧ ∃ task epoch, o = .go task ∧ Request.goroutine task epoch ∈ spawned ∧
          u = View.start (.goroutine task epoch)))
      (history : q.history = p.history ++ [(v.origin, ⟨o, reply⟩)]) : Stepped env p (.step tid a) q
  | starts {q : State} {request : Request} (admitted : admits p.threads request = true) (state : q.state = p.state)
      (threads : ∀ t u, live q t = some u → live p t = some u ∨ (t = p.threads.length ∧ u = View.start request))
      (history : q.history = p.history) : Stepped env p (.start request) q
  | restarts {q : State} {a : Answer} (state : q.state = p.state.crash a)
      (threads : ∀ t u, live q t = some u → t = 0 ∧ u = View.start .recover) (history : q.history = p.history) :
      Stepped env p (.restart a) q

/-- The view of a thread that has just started. -/
theorem viewOf_thread (request : Request) : viewOf ((scheduler env).thread request) = View.start request := rfl

/-- A goroutine issues what its view permits. -/
theorem next_permitted {p : State} (traced : (scheduler env).Traced Op.honest p) {tid : Nat} {o : Op} (next : p.next tid = some o) :
    ∃ v, live p tid = some v ∧ Footprint env o v := by
  cases lookup : p.threads[tid]? with
  | none => simp [Pool.next, lookup] at next
  | some thread =>
    obtain ⟨origin, log, rest⟩ := thread
    obtain ⟨after, honest⟩ := traced tid _ lookup
    cases rest with
    | done _ => simp [Pool.next, lookup] at next
    | fail _ => simp [Pool.next, lookup] at next
    | call o' k =>
      rw [Pool.next_eq lookup] at next
      cases next
      exact ⟨_, live_some.mpr ⟨_, lookup, rfl, rfl⟩, ((after.safe honest (serve_conduct origin)) _ rfl trivial).1⟩

theorem stepped {p : State} (traced : (scheduler env).Traced Op.honest p) (move : Step) :
    Stepped env p move ((scheduler env).step p move) := by
  generalize after : (scheduler env).step p move = q
  have moved := after ▸ (scheduler env).moved p move
  cases moved with
  | idle => exact .idle move
  | starts admitted =>
    refine .starts admitted rfl (fun t u found => ?_) rfl
    obtain ⟨thread, lookup, going, rfl⟩ := live_some.mp found
    rcases System.getElem?_starts lookup with old | ⟨last, rfl⟩
    · exact .inl (live_some.mpr ⟨thread, old, going, rfl⟩)
    · exact .inr ⟨last, rfl⟩
  | restarts label =>
    refine .restarts rfl (fun t u found => ?_) rfl
    obtain ⟨thread, lookup, going, rfl⟩ := live_some.mp found
    obtain rfl := List.mem_singleton.mp (List.mem_of_getElem? lookup)
    have first : t < 1 := (List.getElem?_eq_some_iff.mp lookup).1
    exact ⟨by omega, rfl⟩
  | @performs tid label origin log o k r s spawned thread performed =>
    have issuer : live p tid = some (viewOf ⟨origin, log, .call o k⟩) := live_some.mpr ⟨_, thread, rfl, rfl⟩
    obtain ⟨after, honest⟩ := traced tid _ thread
    have permitted := ((after.safe honest (serve_conduct origin)) _ rfl trivial).1
    refine .performs (Pool.next_eq thread) issuer permitted (World.perform_honest performed) performed (fun t u found => ?_) ?_
    · obtain ⟨other, lookup, going, rfl⟩ := live_some.mp found
      rcases System.getElem?_performs lookup with ⟨rfl, rfl⟩ | ⟨apart, old⟩ | ⟨fresh, new⟩
      · exact .inl ⟨rfl, Prog.view_append _ _ _ _⟩
      · exact .inr (.inl ⟨apart, live_some.mpr ⟨other, old, going, rfl⟩⟩)
      · obtain ⟨request, member, rfl⟩ := List.mem_map.mp new
        obtain ⟨task, epoch, rfl, rfl⟩ := World.perform_spawned performed member
        exact .inr (.inr ⟨fresh, task, epoch, rfl, member, rfl⟩)
    · rw [viewOf_origin]

/-- The rule of invariants over the states and the views of whole runs. -/
theorem Reaches.keeps {ok : State → Step → Prop} {keep : State → Prop} {p q : State}
    (reaches : (scheduler env).Reaches ok p q) (traced : (scheduler env).Traced Op.honest p) (start : keep p)
    (kept : ∀ p move, keep p → ok p move → Stepped env p move ((scheduler env).step p move) → keep ((scheduler env).step p move)) :
    keep q := by
  have replies : ∀ tid o label s r t spawned, (scheduler env).perform tid o label s = some (r, t, spawned) → Op.honest o r :=
    fun _ _ _ _ _ _ _ performed => World.perform_honest performed
  have both := reaches.invariant (k := fun p => (scheduler env).Traced Op.honest p ∧ keep p) ⟨traced, start⟩
    fun p move held allowed => ⟨held.1.step replies move, kept p move held.2 allowed (stepped held.1 move)⟩
  exact both.2

/-! ### The lock -/

theorem View.after_inside (v : View) (o : Op) (reply : o.Reply) : (v.after o reply).inside = match o with
    | .lock what => some what
    | .unlock => none
    | _ => v.inside := by
  cases o <;> rfl

/-- Whoever is inside a section holds the lock. -/
def Exclusive (p : State) : Prop :=
  ∀ tid v what, live p tid = some v → v.inside = some what → p.state.holder = some (tid, what)

theorem Exclusive.one {p : State} (exclusive : Exclusive p) {t t' : Nat} {v v' : View} (first : live p t = some v)
    (second : live p t' = some v') (inside : v.inside ≠ none) (inside' : v'.inside ≠ none) : t = t' := by
  obtain ⟨what, inside⟩ := Option.ne_none_iff_exists'.mp inside
  obtain ⟨what', inside'⟩ := Option.ne_none_iff_exists'.mp inside'
  have same := (exclusive t v what first inside).symm.trans (exclusive t' v' what' second inside')
  exact (Prod.mk.inj (Option.some.inj same)).1

theorem Exclusive.step {p q : State} {move : Step} (exclusive : Exclusive p) (stepped : Stepped env p move q) : Exclusive q := by
  cases stepped with
  | idle => exact exclusive
  | starts admitted state threads history =>
    intro tid v what found inside
    rcases threads tid v found with old | ⟨_, rfl⟩
    · rw [state]
      exact exclusive tid v what old inside
    · cases inside
  | restarts state threads history =>
    intro tid v what found inside
    obtain ⟨_, rfl⟩ := threads tid v found
    cases inside
  | @performs q tid a v o reply spawned next issuer permitted honest performed threads history =>
    intro t u what found inside
    have holder := (World.perform_some performed).2.2.1
    rw [holder]
    rcases threads t u found with ⟨rfl, rfl⟩ | ⟨apart, old⟩ | ⟨_, task, epoch, _, _, rfl⟩
    · rw [View.after_inside] at inside
      cases o with
      | lock other =>
        cases inside
        rfl
      | unlock => cases inside
      | _ => exact exclusive t v what issuer inside
    · cases o with
      | lock other =>
        -- the lock was free, so nobody else is inside
        have held := exclusive t u what old inside
        simp [World.perform, held] at performed
      | unlock => exact absurd (exclusive.one old issuer (by simp [inside]) permitted) apart
      | _ => exact exclusive t u what old inside
    · cases inside

/-! ### The loop -/

/-- One loop request runs at a time. -/
def Solo (p : State) : Prop :=
  ∀ t t' v v', live p t = some v → live p t' = some v' → v.origin.isLoop = true → v'.origin.isLoop = true → t = t'

theorem admits_tick {p : State} (admitted : admits p.threads .tick = true) {t : Nat} {v : View} (found : live p t = some v) :
    v.origin.isLoop = false := by
  obtain ⟨thread, lookup, going, rfl⟩ := live_some.mp found
  have idle := List.all_eq_true.mp admitted thread (List.mem_of_getElem? lookup)
  rw [viewOf_origin]
  simpa [going] using idle

theorem Solo.step {p q : State} {move : Step} (solo : Solo p) (stepped : Stepped env p move q) : Solo q := by
  cases stepped with
  | idle => exact solo
  | @starts q request admitted state threads history =>
    have alone {t : Nat} {v : View} (found : live p t = some v) (loop : v.origin.isLoop = true) : request.isLoop = false := by
      cases request with
      | tick => simp [admits_tick admitted found] at loop
      | recover => cases admitted
      | _ => rfl
    intro t t' v v' first second loop loop'
    rcases threads t v first with old | ⟨rfl, rfl⟩
    · rcases threads t' v' second with old' | ⟨rfl, rfl⟩
      · exact solo t t' v v' old old' loop loop'
      · exact absurd loop' (by simp [View.start, alone old loop])
    · rcases threads t' v' second with old' | ⟨rfl, rfl⟩
      · exact absurd loop (by simp [View.start, alone old' loop'])
      · rfl
  | restarts state threads history =>
    intro t t' v v' first second _ _
    rw [(threads t v first).1, (threads t' v' second).1]
  | @performs q tid a v o reply spawned next issuer permitted honest performed threads history =>
    -- every loop request after the step was one before it
    have before {t : Nat} {u : View} (found : live q t = some u) (loop : u.origin.isLoop = true) :
        ∃ w, live p t = some w ∧ w.origin.isLoop = true := by
      rcases threads t u found with ⟨rfl, rfl⟩ | ⟨_, old⟩ | ⟨_, task, epoch, _, _, rfl⟩
      · exact ⟨v, issuer, by rwa [View.after_origin] at loop⟩
      · exact ⟨u, old, loop⟩
      · cases loop
    intro t t' u u' first second loop loop'
    obtain ⟨w, was, looped⟩ := before first loop
    obtain ⟨w', was', looped'⟩ := before second loop'
    exact solo t t' w w' was was' looped looped'

/-! ### The listings of the tick -/

section Listing

variable {v : View} {o : Op} {reply : o.Reply}

/-- The listings of a tick, with the reply. -/
theorem View.mem_listed_after {run : DagRun} (member : run ∈ (v.after o reply).listed) : run ∈ v.listed ∨
    (∃ state rows, (⟨o, reply⟩ : Issued statements) = ⟨.listDagRunsByState state, rows⟩ ∧ run ∈ View.rows rows) ∨
    ∃ state limit rows, (⟨o, reply⟩ : Issued statements) = ⟨.listDagRunsByStateLimited state limit, rows⟩ ∧
      run ∈ View.rows rows := by
  cases o with
  | listDagRunsByState state =>
    exact (List.mem_append.mp member).symm.imp_right fun new => .inl ⟨state, reply, rfl, new⟩
  | listDagRunsByStateLimited state limit =>
    exact (List.mem_append.mp member).symm.imp_right fun new => .inr ⟨state, limit, reply, rfl, new⟩
  | _ => exact .inl member

theorem View.listed_after_mono {run : DagRun} (member : run ∈ v.listed) : run ∈ (v.after o reply).listed := by
  cases o with
  | listDagRunsByState | listDagRunsByStateLimited => exact List.mem_append_right _ member
  | _ => exact member

/-- The tick processes runs that it has listed. -/
theorem Footprint.processes_listed {env : Env} {run : DagRun} (permitted : Footprint env o v)
    (before : v.inside = some (.process run) → run ∈ v.listed) (inside : (v.after o reply).inside = some (.process run)) :
    run ∈ (v.after o reply).listed := by
  apply View.listed_after_mono
  rw [View.after_inside] at inside
  cases o with
  | lock what =>
    cases inside
    exact permitted.2.2
  | unlock => cases inside
  | _ => exact before inside

theorem View.after_promoting (promoting : (v.after o reply).promoting = true) :
    v.promoting = true ∨ ∃ state, o = .listDagRunsByState state := by
  cases o with
  | listDagRunsByState state => exact .inr ⟨state, rfl⟩
  | listDagRunsByStateLimited | listPendingEvents => cases promoting
  | lock what =>
    cases what with
    | admission => cases promoting
    | _ => exact .inl promoting
  | _ => exact .inl promoting

/-- The tick works with runs that it has listed, and these are stored. -/
structure Listing (p : State) : Prop where
  listed : ∀ t v run, live p t = some v → run ∈ v.listed → ∃ row, p.state.db.run? run.runID = some row ∧ row.dagID = run.dagID
  processed : ∀ t v run, live p t = some v → v.inside = some (.process run) → run ∈ v.listed
  loop : ∀ t v, live p t = some v → v.promoting = true → v.origin = .tick

variable {p q : State} {w : World} {tid : Nat} {a : Answer} {spawned : List Request}

/-- The listings of the tick are of stored runs. -/
theorem Listing.lists (kept : Listing p) (issuer : live p tid = some v)
    (performed : World.perform tid o a p.state = some (reply, w, spawned)) {run : DagRun}
    (member : run ∈ (v.after o reply).listed) : ∃ row, p.state.db.run? run.runID = some row ∧ row.dagID = run.dagID := by
  rcases View.mem_listed_after member with old | ⟨state, rows, same, among⟩ | ⟨state, limit, rows, same, among⟩
  · exact kept.listed tid v run issuer old
  · cases same
    obtain ⟨_, _, rfl | rfl⟩ := World.read_some performed
    · exact ⟨run, DB.run?_of_mem (DB.mem_listDagRunsByState.mp among).1, rfl⟩
    · cases among
  · cases same
    obtain ⟨_, _, rfl | rfl⟩ := World.read_some performed
    · exact ⟨run, DB.run?_of_mem (DB.mem_listDagRunsByStateLimited among).1, rfl⟩
    · cases among

theorem Listing.step {move : Step} (kept : Listing p) (stepped : Stepped env p move q) : Listing q := by
  cases stepped with
  | idle => exact kept
  | starts admitted state threads history =>
    refine ⟨fun t v run found member => ?_, fun t v run found inside => ?_, fun t v found promoting => ?_⟩
    · rcases threads t v found with old | ⟨_, rfl⟩
      · exact state ▸ kept.listed t v run old member
      · cases member
    · rcases threads t v found with old | ⟨_, rfl⟩
      · exact kept.processed t v run old inside
      · cases inside
    · rcases threads t v found with old | ⟨_, rfl⟩
      · exact kept.loop t v old promoting
      · cases promoting
  | restarts state threads history =>
    refine ⟨fun t v run found member => ?_, fun t v run found inside => ?_, fun t v found promoting => ?_⟩
    · cases (threads t v found).2
      cases member
    · cases (threads t v found).2
      cases inside
    · cases (threads t v found).2
      cases promoting
  | @performs q tid a v o reply spawned next issuer permitted honest performed threads history =>
    refine ⟨fun t u run found member => ?_, fun t u run found inside => ?_, fun t u found promoting => ?_⟩
    · have before : ∃ row, p.state.db.run? run.runID = some row ∧ row.dagID = run.dagID := by
        rcases threads t u found with ⟨rfl, rfl⟩ | ⟨_, old⟩ | ⟨_, task, epoch, _, _, rfl⟩
        · exact kept.lists issuer performed member
        · exact kept.listed t u run old member
        · cases member
      obtain ⟨row, stored, same⟩ := before
      obtain ⟨row', stored', key⟩ := World.perform_persists performed stored
      exact ⟨row', stored', (congrArg RunKey.dag key).trans same⟩
    · rcases threads t u found with ⟨rfl, rfl⟩ | ⟨_, old⟩ | ⟨_, task, epoch, _, _, rfl⟩
      · exact permitted.processes_listed (kept.processed t v run issuer) inside
      · exact kept.processed t u run old inside
      · cases inside
    · rcases threads t u found with ⟨rfl, rfl⟩ | ⟨_, old⟩ | ⟨_, task, epoch, _, _, rfl⟩
      · rw [View.after_origin]
        rcases View.after_promoting promoting with before | ⟨state, rfl⟩
        · exact kept.loop t v issuer before
        · exact permitted.1
      · exact kept.loop t u old promoting
      · cases promoting

end Listing

/-- A process that has just started and serves nothing yet. -/
def idle (w : World) : State := ⟨w, [], []⟩

theorem idle_empty {w : World} {tid : Nat} {v : View} (found : live (idle w) tid = some v) : False := by
  simp [live, idle] at found

theorem idle_solo (w : World) : Solo (idle w) := fun _ _ _ _ found => (idle_empty found).elim

theorem idle_exclusive (w : World) : Exclusive (idle w) := fun _ _ _ found => (idle_empty found).elim

theorem idle_listing (w : World) : Listing (idle w) :=
  ⟨fun _ _ _ found => (idle_empty found).elim, fun _ _ _ found => (idle_empty found).elim, fun _ _ found => (idle_empty found).elim⟩

theorem idle_traced (w : World) : (scheduler env).Traced Op.honest (idle w) := by
  intro tid thread found
  simp [idle] at found

end Cronova.Scheduler
